import DocComments.Edit.Changeset

/-!
# What can be staged

Every way to stage edits keeps the staged edits apart (`apart_afterCalls`). A batch is checked as a
whole before anything is staged, while edits that are staged one at a time are checked against a
list that grows; `stage_eq_foldlM` says that the two ways always agree, in the list they leave and
in the error they give.
-/

set_option autoImplicit false

namespace DocComments

namespace Changeset

/-- No two edits of a list collide. -/
def Apart (edits : List Edit) : Prop :=
  edits.Pairwise fun a b => a.range.collides b.range = false

/-! ## One edit -/

theorem replace_eq_ok_iff {c c' : Changeset} {e : Edit} :
    c.replace e = .ok c' ↔
      (∀ s ∈ c.edits, s.range.collides e.range = false) ∧ c' = ⟨c.edits ++ [e]⟩ := by
  rw [← collision?_eq_none_iff, replace]
  cases h : collision? c.edits e with
  | none => simp [eq_comm]
  | some error => simp

theorem replace_eq_error_iff {c : Changeset} {e : Edit} {error : EditError} :
    c.replace e = .error error ↔ collision? c.edits e = some error := by
  rw [replace]
  cases h : collision? c.edits e with
  | none => simp
  | some error => simp

/-- The only reason not to stage an edit is that it overlaps a staged one. -/
theorem exists_overlap_of_collision?_eq_some {staged : List Edit} {e : Edit} {error : EditError}
    (h : collision? staged e = some error) :
    ∃ s ∈ staged, s.range.collides e.range = true ∧ error = .overlap s.range e.range := by
  rw [collision?, Option.map_eq_some_iff] at h
  obtain ⟨s, hs, rfl⟩ := h
  exact ⟨s, List.mem_of_find?_eq_some hs, by simpa using List.find?_some hs, rfl⟩

/-- An edit that can be staged keeps the staged edits apart. -/
theorem apart_of_replace_eq_ok {c c' : Changeset} {e : Edit} (hc : Apart c.edits)
    (h : c.replace e = .ok c') : Apart c'.edits := by
  obtain ⟨hfree, rfl⟩ := replace_eq_ok_iff.mp h
  refine List.pairwise_append.mpr ⟨hc, List.pairwise_singleton _ _, ?_⟩
  intro s hs x hx
  rw [List.mem_singleton.mp hx]
  exact hfree s hs

/-! ## Edits one at a time -/

/-- Edits that are apart from each other and from the staged ones can be staged one at a time. -/
theorem foldlM_replace_of_apart {c : Changeset} {batch : List Edit} (h : Apart (c.edits ++ batch)) :
    batch.foldlM replace c = .ok ⟨c.edits ++ batch⟩ := by
  induction batch generalizing c with
  | nil => simp [pure, Except.pure]
  | cons e batch ih =>
    have hfree : ∀ s ∈ c.edits, s.range.collides e.range = false := by
      intro s hs
      exact (List.pairwise_append.mp h).2.2 s hs e (by simp)
    have hrest : Apart ((⟨c.edits ++ [e]⟩ : Changeset).edits ++ batch) := by
      simpa using h
    rw [List.foldlM_cons, replace_eq_ok_iff.mpr ⟨hfree, rfl⟩]
    show batch.foldlM replace (⟨c.edits ++ [e]⟩ : Changeset) = _
    rw [ih hrest]
    simp

theorem apart_of_foldlM_replace_eq_ok {c c' : Changeset} {batch : List Edit} (hc : Apart c.edits)
    (h : batch.foldlM replace c = .ok c') : Apart c'.edits := by
  induction batch generalizing c with
  | nil =>
    cases h
    exact hc
  | cons e batch ih =>
    rw [List.foldlM_cons] at h
    cases he : c.replace e with
    | error error => rw [he] at h; cases h
    | ok next =>
      rw [he] at h
      exact ih (apart_of_replace_eq_ok hc he) h

/-- Edits staged one at a time fail at the first of them that cannot be staged. -/
theorem foldlM_replace_eq_error_iff {c : Changeset} {batch : List Edit} {error : EditError} :
    batch.foldlM replace c = .error error ↔
      ∃ done e rest next, batch = done ++ e :: rest ∧ done.foldlM replace c = .ok next ∧
        next.replace e = .error error := by
  constructor
  · intro h
    induction batch generalizing c with
    | nil => cases h
    | cons e batch ih =>
      rw [List.foldlM_cons] at h
      cases he : c.replace e with
      | error error' =>
        rw [he] at h
        cases h
        exact ⟨[], e, batch, c, rfl, rfl, he⟩
      | ok next =>
        rw [he] at h
        obtain ⟨done, x, rest, last, rfl, hdone, hx⟩ := ih h
        refine ⟨e :: done, x, rest, last, rfl, ?_, hx⟩
        rw [List.foldlM_cons, he]
        exact hdone
  · rintro ⟨done, e, rest, next, rfl, hdone, he⟩
    rw [List.foldlM_append, hdone]
    show (e :: rest).foldlM replace next = _
    rw [List.foldlM_cons, he]
    rfl

/-! ## Batches -/

@[simp] theorem batchCollision?_nil (staged : List Edit) : batchCollision? staged [] = none := rfl

/-- The first edit of a batch is checked against the staged edits, the others as if it were staged
already. -/
theorem batchCollision?_cons (staged : List Edit) (e : Edit) (batch : List Edit) :
    batchCollision? staged (e :: batch)
      = (collision? staged e).or (batchCollision? (staged ++ [e]) batch) := by
  have hplace : ∀ (staged batch : List Edit), batchCollision? staged batch
      = batch.zipIdx.findSome? fun p => collision? (staged ++ batch.take p.2) p.1 :=
    fun _ _ => rfl
  have hrest : (batch.zipIdx (0 + 1)).findSome?
        (fun p => collision? (staged ++ (e :: batch).take p.2) p.1)
      = batchCollision? (staged ++ [e]) batch := by
    rw [hplace, List.zipIdx_succ, List.findSome?_map]
    congr 1
    funext p
    simp
  rw [hplace, List.zipIdx_cons, List.findSome?_cons, hrest]
  simp only [List.take_zero, List.append_nil]
  cases collision? staged e <;> rfl

/-- A batch is staged exactly as its edits are one at a time. -/
theorem stage_eq_foldlM (c : Changeset) (batch : List Edit) :
    c.stage batch = batch.foldlM replace c := by
  induction batch generalizing c with
  | nil => simp [stage, pure, Except.pure]
  | cons e batch ih =>
    rw [List.foldlM_cons, stage, batchCollision?_cons, replace]
    cases collision? c.edits e with
    | some error => rfl
    | none =>
      show _ = batch.foldlM replace (⟨c.edits ++ [e]⟩ : Changeset)
      rw [← ih, stage, Option.none_or]
      simp

/-- A batch that is staged stands behind what was staged before. -/
theorem eq_of_stage_eq_ok {c c' : Changeset} {batch : List Edit} (h : c.stage batch = .ok c') :
    c' = ⟨c.edits ++ batch⟩ := by
  rw [stage] at h
  split at h
  · cases h
  · exact (Except.ok.inj h).symm

theorem stage_of_apart {c : Changeset} {batch : List Edit} (h : Apart (c.edits ++ batch)) :
    c.stage batch = .ok ⟨c.edits ++ batch⟩ := by
  rw [stage_eq_foldlM, foldlM_replace_of_apart h]

/-! ## Sequences of calls -/

inductive Call where
  | replace (e : Edit)
  | insert (position : Nat) (text : Text)
  | clear (range : ByteRange)
  | stage (batch : List Edit)
  deriving DecidableEq, Repr

def perform (c : Changeset) : Call → Except EditError Changeset
  | .replace e => c.replace e
  | .insert position text => c.insert position text
  | .clear range => c.clear range
  | .stage batch => c.stage batch

/-- The changeset after a call. A call that fails does not count. -/
def afterCall (c : Changeset) (call : Call) : Changeset :=
  match c.perform call with
  | .ok c' => c'
  | .error _ => c

/-- The changeset after calls on one without edits. -/
def afterCalls (calls : List Call) : Changeset := calls.foldl afterCall .empty

def Call.edits : Call → List Edit
  | .replace e => [e]
  | .insert position text => [⟨⟨position, position⟩, text⟩]
  | .clear range => [⟨range, []⟩]
  | .stage batch => batch

/-- Every call stages the edits that it asks for, one at a time. -/
theorem perform_eq_foldlM (c : Changeset) (call : Call) :
    c.perform call = call.edits.foldlM replace c := by
  have hone : ∀ e : Edit, [e].foldlM replace c = c.replace e := by
    intro e
    rw [List.foldlM_cons]
    cases c.replace e <;> rfl
  cases call with
  | replace e => exact (hone e).symm
  | insert position text => exact (hone _).symm
  | clear range => exact (hone _).symm
  | stage batch => exact stage_eq_foldlM c batch

theorem apart_afterCall {c : Changeset} (call : Call) (hc : Apart c.edits) :
    Apart (c.afterCall call).edits := by
  rw [afterCall]
  cases h : c.perform call with
  | error error => exact hc
  | ok c' =>
    rw [perform_eq_foldlM] at h
    exact apart_of_foldlM_replace_eq_ok hc h

/-- Whatever is called, the staged edits are apart. -/
theorem apart_afterCalls (calls : List Call) : Apart (afterCalls calls).edits := by
  have hrun : ∀ (calls : List Call) (c : Changeset), Apart c.edits →
      Apart (calls.foldl afterCall c).edits := by
    intro calls
    induction calls with
    | nil => exact fun c hc => hc
    | cons call calls ih => exact fun c hc => ih _ (apart_afterCall call hc)
  exact hrun calls .empty List.Pairwise.nil

/-- The staged edits never overlap, a call that fails changes nothing, and a batch is staged as its
edits are one at a time: with the same edits afterwards or with the error of the first that
fails. -/
theorem stage_agrees_with_replace (calls : List Call) :
    Apart (afterCalls calls).edits ∧
      (∀ call error, (afterCalls calls).perform call = .error error →
        (∃ first second, error = .overlap first second) ∧
          afterCalls (calls ++ [call]) = afterCalls calls) ∧
      ∀ batch,
        (∀ c, (afterCalls calls).stage batch = .ok c ↔
          batch.foldlM replace (afterCalls calls) = .ok c) ∧
        (∀ error, (afterCalls calls).stage batch = .error error ↔
          ∃ done e rest c, batch = done ++ e :: rest ∧
            done.foldlM replace (afterCalls calls) = .ok c ∧ c.replace e = .error error) := by
  refine ⟨apart_afterCalls calls, ?_, ?_⟩
  · intro call error h
    constructor
    · rw [perform_eq_foldlM] at h
      obtain ⟨done, e, rest, c, -, -, he⟩ := foldlM_replace_eq_error_iff.mp h
      obtain ⟨s, -, -, herror⟩ :=
        exists_overlap_of_collision?_eq_some (replace_eq_error_iff.mp he)
      exact ⟨_, _, herror⟩
    · have hlast : afterCalls (calls ++ [call]) = (afterCalls calls).afterCall call := by
        rw [afterCalls, List.foldl_append]
        rfl
      rw [hlast, afterCall, h]
  · intro batch
    rw [stage_eq_foldlM]
    exact ⟨fun c => Iff.rfl, fun error => foldlM_replace_eq_error_iff⟩

end Changeset

end DocComments
