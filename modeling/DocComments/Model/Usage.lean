/-!
# Usage of models

The tokens of calls and what they cost.
-/

set_option autoImplicit false

namespace DocComments

/-- The tokens of one or more calls, and their cost. -/
structure Usage where
  tokens : Nat
  cost : Float

namespace Usage

def zero : Usage := ⟨0, 0⟩

def priced (tokens : Nat) (price : Float) : Usage :=
  ⟨tokens, (UInt64.ofNat tokens).toFloat / 1000 * price⟩

/-- The usage of two groups of calls, the first one first. -/
def add (a b : Usage) : Usage := ⟨a.tokens + b.tokens, a.cost + b.cost⟩

instance : Add Usage := ⟨add⟩

@[simp] theorem tokens_add (a b : Usage) : (a + b).tokens = a.tokens + b.tokens := rfl

def total (calls : List Usage) : Usage := calls.foldl add zero

end Usage

end DocComments
