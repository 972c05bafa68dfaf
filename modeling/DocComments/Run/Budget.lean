/-!
# The budget of a run

A run may be limited to a number of edits. Only edits that were committed count; `allows` compares
those of a file that wait to be committed with what is left.
-/

set_option autoImplicit false

namespace DocComments

/-- The edits that a run may make and has made. -/
structure Budget where
  /-- how many edits are allowed, if there is a limit -/
  limit : Option Nat
  /-- how many edits were committed -/
  used : Nat
  /-- a declaration was left out for lack of budget -/
  hit : Bool
  deriving DecidableEq, Repr

namespace Budget

def fresh (limit : Option Nat) : Budget := ⟨limit, 0, false⟩

def remaining (b : Budget) : Option Nat := b.limit.map (· - b.used)

def isExhausted (b : Budget) : Bool := b.remaining == some 0

/-- One more edit is left when some wait to be committed. -/
def allows (b : Budget) (waiting : Nat) : Bool := b.remaining.all (waiting < ·)

def record (b : Budget) (count : Nat) : Budget := { b with used := b.used + count }

def markHit (b : Budget) : Budget := { b with hit := true }

theorem isExhausted_iff {b : Budget} :
    b.isExhausted = true ↔ ∃ n, b.limit = some n ∧ n ≤ b.used := by
  cases h : b.limit <;> simp [isExhausted, remaining, h, Nat.sub_eq_zero_iff_le]

theorem allows_iff {b : Budget} {waiting : Nat} :
    b.allows waiting = true ↔ ∀ n, b.limit = some n → b.used + waiting < n := by
  cases h : b.limit with
  | none => simp [allows, remaining, h]
  | some n => simp [allows, remaining, h]; omega

end Budget

end DocComments
