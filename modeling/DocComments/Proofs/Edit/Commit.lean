import DocComments.Proofs.Diff.Hunk
import DocComments.Proofs.Edit.Staging
import DocComments.Proofs.Edit.Weave
import Mathlib.Data.List.Basic

/-!
# What a commit does

A commit of edits that fit the text carries them out at once, whatever the order in which they were
staged, and lists them in the order of the text (`commit_of_inOrder`). Edits that do not fit are an
error. There is one more case: a diff with a reversed hunk cannot be shown, and then the commit
comes to nothing. `commit_afterCalls` puts the cases together for every changeset that calls can
build, and `commit_without_text_form` is an example of the last kind.
-/

set_option autoImplicit false

namespace DocComments

namespace Changeset

open Edit (InOrder weave)

/-! ## The order in which edits are carried out -/

theorem backward_perm (edits : List Edit) : (backward edits).Perm edits :=
  List.mergeSort_perm edits _

/-- Edits are carried out from the last to the first. -/
theorem pairwise_backward (edits : List Edit) :
    (backward edits).Pairwise fun a b => b.range.start ≤ a.range.start := by
  have h : (backward edits).Pairwise fun a b => decide (b.range.start ≤ a.range.start) = true := by
    refine List.pairwise_mergeSort ?_ ?_ edits
    · intro a b c hab hbc
      simp only [decide_eq_true_eq] at hab hbc ⊢
      omega
    · intro a b
      simp only [Bool.or_eq_true, decide_eq_true_eq]
      omega
  exact h.imp fun {a b} hab => by simpa using hab

theorem apart_perm {edits edits' : List Edit} (hperm : edits.Perm edits') (h : Apart edits) :
    Apart edits' :=
  hperm.pairwise h fun {a b} hab => by rw [ByteRange.collides_comm]; exact hab

/-- Edits that are apart and fit a text can be put in order. -/
theorem inOrder_backward {edits : List Edit} {content : Text} (h : Apart edits)
    (hfits : ∀ e ∈ edits, e.range.fits content = true) : InOrder (backward edits).reverse := by
  have hapart : Apart (backward edits).reverse :=
    apart_perm ((backward_perm edits).symm.trans (List.reverse_perm _).symm) h
  have hstart : (backward edits).reverse.Pairwise fun a b => a.range.start ≤ b.range.start :=
    List.pairwise_reverse.mpr (pairwise_backward edits)
  refine (hstart.and hapart).imp_of_mem fun {a b} _ hb hab => ?_
  have hmem : b ∈ edits := (backward_perm edits).mem_iff.mp (List.mem_reverse.mp hb)
  exact Edit.before_of_not_collides (ByteRange.fits_iff.mp (hfits b hmem)).1 hab.1 hab.2

/-- Edits can be put in order in one way only. -/
theorem backward_eq_reverse {edits sorted : List Edit} (hperm : sorted.Perm edits)
    (hsorted : InOrder sorted) : backward edits = sorted.reverse := by
  have hsame : (backward edits).Perm sorted.reverse :=
    (backward_perm edits).trans (hperm.symm.trans (List.reverse_perm sorted).symm)
  have hdescending : sorted.reverse.Pairwise fun a b => b.range.start ≤ a.range.start :=
    List.pairwise_reverse.mpr (hsorted.imp fun {a b} hab => Nat.le_of_lt hab.1)
  refine hsame.eq_of_pairwise ?_ (pairwise_backward edits) hdescending
  intro a b ha hb hba hab
  exact hsorted.eq_of_start_eq (List.mem_reverse.mp (hsame.mem_iff.mp ha)) (List.mem_reverse.mp hb)
    (Nat.le_antisymm hab hba)

/-! ## The cases of a commit -/

/-- The commit of edits that fit, given in the order in which they stand in the text. -/
theorem commit_of_inOrder {edits sorted : List Edit} {content : Text} (hperm : sorted.Perm edits)
    (hsorted : InOrder sorted) (hfits : ∀ e ∈ edits, e.range.fits content = true) :
    (⟨edits⟩ : Changeset).commit content =
      match Diff.unified? content (weave content 0 sorted) with
      | none => .error .noDiff
      | some diff =>
        .ok ⟨content, weave content 0 sorted, sorted.map (Edit.location content), diff⟩ := by
  have hnone : (edits.find? fun e => !e.range.fits content) = none := by
    rw [List.find?_eq_none]
    intro e he
    simp [hfits e he]
  have hmodified : applyAll (backward edits) content = weave content 0 sorted := by
    rw [backward_eq_reverse hperm hsorted]
    exact Edit.applyAll_eq_weave hsorted fun e he => hfits e (hperm.mem_iff.mp he)
  have hlocations : ((backward edits).map (Edit.location content)).reverse
      = sorted.map (Edit.location content) := by
    rw [backward_eq_reverse hperm hsorted, List.map_reverse, List.reverse_reverse]
  cases edits with
  | nil =>
    obtain rfl := hperm.eq_nil
    have hweave : weave content 0 [] = content := Text.dropBytes_zero content
    rw [hweave, Diff.unified?_self]
    rfl
  | cons e es =>
    rw [commit, hnone]
    show (match Diff.unified? content (applyAll (backward (e :: es)) content) with
      | none => Except.error CommitError.noDiff
      | some diff => Except.ok (⟨content, applyAll (backward (e :: es)) content,
          ((backward (e :: es)).map (Edit.location content)).reverse, diff⟩ : Commit)) = _
    rw [hmodified, hlocations]

/-- A commit fails at the first staged range that does not fit the text. -/
theorem commit_eq_badEdit_iff {c : Changeset} {content : Text} {error : EditError} :
    c.commit content = .error (.badEdit error) ↔
      ∃ e, (c.edits.find? fun e => !e.range.fits content) = some e ∧
        error = .outOfBounds e.range (Text.byteSize content) := by
  rw [commit]
  cases h : c.edits.find? fun e => !e.range.fits content with
  | some e => simp [eq_comm]
  | none =>
    by_cases hempty : c.edits.isEmpty
    · simp [hempty]
    · cases hdiff : Diff.unified? content (applyAll (backward c.edits) content) <;>
        simp [hempty, hdiff]

/-- A commit that fails for its edits names one of them that is misplaced. -/
theorem exists_misplaced_iff {c : Changeset} {content : Text} :
    (∃ e ∈ c.edits, e.range.Misplaced content) ↔
      ∃ e ∈ c.edits, e.range.Misplaced content ∧
        c.commit content = .error (.badEdit (.outOfBounds e.range (Text.byteSize content))) := by
  constructor
  · rintro ⟨e, he, hmisplaced⟩
    have hsome : (c.edits.find? fun e => !e.range.fits content).isSome = true :=
      List.find?_isSome.mpr ⟨e, he, by simp [ByteRange.fits_eq_false_iff.mpr hmisplaced]⟩
    obtain ⟨first, hfirst⟩ := Option.isSome_iff_exists.mp hsome
    have hfits : first.range.fits content = false := by simpa using List.find?_some hfirst
    exact ⟨first, List.mem_of_find?_eq_some hfirst, ByteRange.fits_eq_false_iff.mp hfits,
      commit_eq_badEdit_iff.mpr ⟨first, hfirst, rfl⟩⟩
  · rintro ⟨e, he, hmisplaced, -⟩
    exact ⟨e, he, hmisplaced⟩

theorem fits_of_commit_eq_ok {c : Changeset} {content : Text} {r : Commit}
    (h : c.commit content = .ok r) : ∀ e ∈ c.edits, e.range.fits content = true := by
  intro e he
  rw [ByteRange.fits_iff_not_misplaced]
  intro hmisplaced
  obtain ⟨first, -, -, herror⟩ := exists_misplaced_iff.mp ⟨e, he, hmisplaced⟩
  rw [h] at herror
  cases herror

theorem not_misplaced_of_commit_eq_noDiff {c : Changeset} {content : Text}
    (h : c.commit content = .error .noDiff) : ∀ e ∈ c.edits, ¬ e.range.Misplaced content := by
  intro e he hmisplaced
  obtain ⟨first, -, -, herror⟩ := exists_misplaced_iff.mp ⟨e, he, hmisplaced⟩
  rw [h] at herror
  cases herror

section InOrder

variable {edits : List Edit} {content modified : Text}

/-- Edits in order are committed if the diff of the two texts can be shown. -/
theorem exists_commit_of_inOrder (hsorted : InOrder edits)
    (hfits : ∀ e ∈ edits, e.range.fits content = true)
    (hmodified : weave content 0 edits = modified)
    (hshown : (Diff.unified? content modified).isSome = true) :
    ∃ r, (⟨edits⟩ : Changeset).commit content = .ok r ∧ r.modified = modified := by
  obtain ⟨diff, hdiff⟩ := Option.isSome_iff_exists.mp hshown
  rw [commit_of_inOrder (.refl edits) hsorted hfits, hmodified, hdiff]
  exact ⟨_, rfl, rfl⟩

theorem isSome_commit_of_inOrder (hsorted : InOrder edits)
    (hfits : ∀ e ∈ edits, e.range.fits content = true)
    (hmodified : weave content 0 edits = modified)
    (hshown : (Diff.unified? content modified).isSome = true) :
    ((⟨edits⟩ : Changeset).commit content).toOption.isSome = true := by
  obtain ⟨r, hcommit, -⟩ := exists_commit_of_inOrder hsorted hfits hmodified hshown
  rw [hcommit]
  rfl

theorem commit_eq_noDiff_of_inOrder (hsorted : InOrder edits)
    (hfits : ∀ e ∈ edits, e.range.fits content = true)
    (hmodified : weave content 0 edits = modified)
    (hdiff : Diff.unified? content modified = none) :
    (⟨edits⟩ : Changeset).commit content = .error .noDiff := by
  rw [commit_of_inOrder (.refl edits) hsorted hfits, hmodified, hdiff]

end InOrder

/-- A commit that does not give back the text counts as a change. -/
theorem isChanged_of_commit_eq_ok {c : Changeset} {content : Text} {r : Commit}
    (h : c.commit content = .ok r) (hmodified : r.modified ≠ content) :
    c.isEmpty = false ∧ r.isChanged = true := by
  unfold commit at h
  split at h
  · cases h
  · split at h
    · cases h
      exact absurd rfl hmodified
    · next hempty =>
      dsimp only at h
      split at h
      · cases h
      · cases h
        have hlength : 0 < (backward c.edits).length := by
          rw [(backward_perm c.edits).length_eq]
          exact List.length_pos_iff.mpr fun hnil => hempty (by simp [hnil])
        refine ⟨by simpa [Changeset.isEmpty] using hempty, ?_⟩
        simp only [Commit.isChanged, Commit.count, List.length_reverse, List.length_map,
          Bool.and_eq_true, decide_eq_true_eq, bne_iff_ne]
        exact ⟨hlength, hmodified.symm⟩

/-- The order of staging does not matter to a commit. -/
theorem commit_perm {edits edits' : List Edit} {content : Text} (hperm : edits'.Perm edits)
    (hapart : Apart edits) (hfits : ∀ e ∈ edits, e.range.fits content = true) :
    (⟨edits'⟩ : Changeset).commit content = (⟨edits⟩ : Changeset).commit content := by
  have hsorted := inOrder_backward hapart hfits
  have hsame : (backward edits).reverse.Perm edits :=
    (List.reverse_perm _).trans (backward_perm edits)
  rw [commit_of_inOrder hsame hsorted hfits, commit_of_inOrder (hsame.trans hperm.symm) hsorted
    fun e he => hfits e (hperm.mem_iff.mp he)]

/-- Every changeset that calls can build is committed as follows. A staged range that cannot be cut
out of the text is an error. Otherwise the ranges are replaced at once and the edits are listed in
the order of the text, unless the diff has a reversed hunk. The order of staging does not matter. -/
theorem commit_afterCalls (calls : List Call) (content : Text) :
    ((∃ e ∈ (afterCalls calls).edits, e.range.Misplaced content) ↔
      ∃ range size,
        (afterCalls calls).commit content = .error (.badEdit (.outOfBounds range size))) ∧
    ((∀ e ∈ (afterCalls calls).edits, ¬ e.range.Misplaced content) →
      ∃ sorted, sorted.Perm (afterCalls calls).edits ∧ InOrder sorted ∧
        (∀ r, (afterCalls calls).commit content = .ok r ↔
          ¬ Diff.HasReversedHunk content (weave content 0 sorted) ∧
            r.content = content ∧ r.modified = weave content 0 sorted ∧
            r.edits = sorted.map (Edit.location content) ∧
            Diff.unified? content r.modified = some r.diff) ∧
        ((afterCalls calls).commit content = .error .noDiff ↔
          Diff.HasReversedHunk content (weave content 0 sorted))) ∧
    ∀ edits, edits.Perm (afterCalls calls).edits →
      edits.foldlM replace .empty = .ok ⟨edits⟩ ∧ Changeset.empty.stage edits = .ok ⟨edits⟩ ∧
        ∀ r, (afterCalls calls).commit content = .ok r →
          (⟨edits⟩ : Changeset).commit content = .ok r := by
  have hapart : Apart (afterCalls calls).edits := apart_afterCalls calls
  refine ⟨?_, ?_, ?_⟩
  · constructor
    · intro h
      obtain ⟨e, -, -, herror⟩ := exists_misplaced_iff.mp h
      exact ⟨e.range, Text.byteSize content, herror⟩
    · rintro ⟨range, size, h⟩
      obtain ⟨e, he, -⟩ := commit_eq_badEdit_iff.mp h
      have hfits : e.range.fits content = false := by simpa using List.find?_some he
      exact ⟨e, List.mem_of_find?_eq_some he, ByteRange.fits_eq_false_iff.mp hfits⟩
  · intro hplaced
    have hfits : ∀ e ∈ (afterCalls calls).edits, e.range.fits content = true :=
      fun e he => ByteRange.fits_iff_not_misplaced.mpr (hplaced e he)
    have hperm : (backward (afterCalls calls).edits).reverse.Perm (afterCalls calls).edits :=
      (List.reverse_perm _).trans (backward_perm _)
    have hsorted := inOrder_backward hapart hfits
    refine ⟨_, hperm, hsorted, ?_⟩
    have hcommit := commit_of_inOrder hperm hsorted hfits
    rw [← Diff.unified?_eq_none_iff]
    generalize weave content 0 (backward (afterCalls calls).edits).reverse = modified at hcommit ⊢
    cases hdiff : Diff.unified? content modified with
    | none =>
      rw [hdiff] at hcommit
      simp [hcommit]
    | some diff =>
      rw [hdiff] at hcommit
      refine ⟨fun r => ?_, by simp [hcommit]⟩
      rw [hcommit]
      constructor
      · intro h
        cases h
        exact ⟨by simp, rfl, rfl, rfl, hdiff⟩
      · rintro ⟨-, hcontent, hmodified, hedits, hshown⟩
        rw [hmodified, hdiff] at hshown
        cases r
        simp_all
  · intro edits hperm
    have hedits : Apart edits := apart_perm hperm.symm hapart
    refine ⟨foldlM_replace_of_apart hedits, stage_of_apart hedits, ?_⟩
    intro r hr
    rw [commit_perm hperm hapart (fits_of_commit_eq_ok hr)]
    exact hr

/-- A first line is removed and five lines are added at the end, each of them equal to all lines
between. No range is misplaced, and yet there is no commit. -/
theorem commit_without_text_form :
    (∀ e ∈ (afterCalls [.clear ⟨0, 2⟩, .insert 16 "a\na\na\na\na\n".toList]).edits,
      ¬ e.range.Misplaced "b\na\na\na\na\na\na\na\n".toList) ∧
    (afterCalls [.clear ⟨0, 2⟩, .insert 16 "a\na\na\na\na\n".toList]).commit
      "b\na\na\na\na\na\na\na\n".toList = .error .noDiff := by
  have hdiff : Diff.unified? "b\na\na\na\na\na\na\na\n".toList
      "a\na\na\na\na\na\na\na\na\na\na\na\n".toList = none := by cbv
  have hcommit : (afterCalls [.clear ⟨0, 2⟩, .insert 16 "a\na\na\na\na\n".toList]).commit
      "b\na\na\na\na\na\na\na\n".toList = .error .noDiff :=
    commit_eq_noDiff_of_inOrder (by decide) (by decide) rfl hdiff
  exact ⟨not_misplaced_of_commit_eq_noDiff hcommit, hcommit⟩

end Changeset

end DocComments
