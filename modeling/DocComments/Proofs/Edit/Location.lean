import DocComments.Proofs.Comment.Indent
import DocComments.Proofs.Edit.Commit
import DocComments.Proofs.Text.Position
import Mathlib.Data.List.Forall2

/-!
# Where pieces and edits stand

The line and column of a snapshot are the position of its start, and those of an edit in a commit
are the ones of the snapshot of its range, with columns that count from one. `positions_faithful`
says what this makes of them: they lead back to the start, and they are ordered like the starts.
-/

set_option autoImplicit false

namespace DocComments

def Snapshot.position (s : Snapshot) : Nat ×ₗ Nat := toLex (s.line, s.column)

def EditLocation.position (l : EditLocation) : Nat ×ₗ Nat := toLex (l.line, l.column)

/-- A location of an edit says of it what a snapshot of its range says, with columns that count from
one. -/
def Edit.LocatedAt (source : Text) (e : Edit) (l : EditLocation) : Prop :=
  ∀ kind, ∃ s, Snapshot.ofRange? source kind e.range = some s ∧ s.range = e.range ∧
    l.line = s.line ∧ l.column = s.column + 1 ∧ l.replaced = s.text ∧
    l.replacement = e.replacement

namespace Snapshot

variable {source : Text} {kind : String} {r : ByteRange}

/-! ## Snapshots -/

theorem clamp_start {size : Nat} (h : r.start ≤ size) : (clamp r size).start = r.start :=
  Nat.min_eq_left h

/-- A range that fits is where it should be. -/
theorem clamp_of_fits (h : r.fits source = true) : clamp r (Text.byteSize source) = r := by
  obtain ⟨hle, hstart, hstop⟩ := ByteRange.fits_iff.mp h
  have hstartSize := Text.le_byteSize_of_isBoundary hstart
  have hstopSize := Text.le_byteSize_of_isBoundary hstop
  rw [clamp, Nat.min_eq_left hstartSize, Nat.min_eq_left hstopSize, Nat.max_eq_right hle]

/-- There is a snapshot between any two boundaries, though without a text if they are reversed. -/
theorem ofRange?_of_isBoundary (hstart : Text.isBoundary r.start source = true)
    (hstop : Text.isBoundary r.stop source = true) :
    ofRange? source kind r = some (ofRange source kind r) := by
  have hstartSize := Text.le_byteSize_of_isBoundary hstart
  have hstopSize := Text.le_byteSize_of_isBoundary hstop
  rw [ofRange?, if_pos]
  rw [clamp, Nat.min_eq_left hstartSize, Nat.min_eq_left hstopSize, ByteRange.fits_iff]
  refine ⟨Nat.le_max_left _ _, hstart, ?_⟩
  rcases Nat.le_total r.start r.stop with hle | hle
  · rwa [Nat.max_eq_right hle]
  · rwa [Nat.max_eq_left hle]

/-- A snapshot has the position of its start. -/
theorem isBoundary_and_position_of_ofRange? {s : Snapshot} (h : ofRange? source kind r = some s) :
    Text.isBoundary s.range.start source = true ∧
      s.position = Text.position s.range.start source := by
  unfold ofRange? at h
  split at h
  · next hfits =>
    obtain rfl := Option.some.inj h
    exact ⟨(ByteRange.fits_iff.mp hfits).2.1, rfl⟩
  · cases h

theorem length_indent (source : Text) (kind : String) (r : ByteRange) :
    (ofRange source kind r).indent.length = (ofRange source kind r).column := by
  simp only [ofRange]
  split
  · rfl
  · exact List.length_replicate

end Snapshot

namespace Edit

/-! ## Edits -/

variable {source : Text} {e : Edit}

theorem locatedAt_location (h : e.range.fits source = true) :
    e.LocatedAt source (e.location source) := by
  intro kind
  obtain ⟨-, hstart, hstop⟩ := ByteRange.fits_iff.mp h
  refine ⟨_, Snapshot.ofRange?_of_isBoundary hstart hstop, Snapshot.clamp_of_fits h, ?_⟩
  simp only [Snapshot.ofRange, Snapshot.clamp_of_fits h, location, and_self]

theorem position_location_lt {e' : Edit} (h : e.range.fits source = true)
    (h' : e'.range.fits source = true) (hlt : e.range.start < e'.range.start) :
    (e.location source).position < (e'.location source).position := by
  have hstart := Text.position_lt_of_lt hlt (ByteRange.fits_iff.mp h).2.1
    (ByteRange.fits_iff.mp h').2.1
  -- both columns count from one
  rw [Text.position, Text.position, Prod.Lex.toLex_lt_toLex] at hstart
  rw [EditLocation.position, EditLocation.position, Prod.Lex.toLex_lt_toLex]
  exact hstart.imp_right fun hsame => ⟨hsame.1, Nat.succ_lt_succ hsame.2⟩

end Edit

/-- The edits of a commit are those that were staged, in the order in which they stand in the
text. -/
theorem Changeset.exists_inOrder_of_commit {c : Changeset} {source : Text} {r : Commit}
    (hapart : Apart c.edits) (h : c.commit source = .ok r) :
    ∃ edits : List Edit, edits.Perm c.edits ∧ Edit.InOrder edits ∧
      (∀ e ∈ edits, e.range.fits source = true) ∧ r.edits = edits.map (Edit.location source) := by
  have hfits := fits_of_commit_eq_ok h
  have hperm : (backward c.edits).reverse.Perm c.edits :=
    (List.reverse_perm _).trans (backward_perm _)
  have hsorted := inOrder_backward hapart hfits
  refine ⟨_, hperm, hsorted, fun e he => hfits e (hperm.mem_iff.mp he), ?_⟩
  have hcommit := commit_of_inOrder hperm hsorted hfits
  rw [h] at hcommit
  split at hcommit
  · cases hcommit
  · exact congrArg Commit.edits (Except.ok.inj hcommit)

/-- Every range with both ends on boundaries has a snapshot, whose line and column lead to the start
of the range, and whose indent is blank and as long as the column. Of two snapshots the one that
starts later has the later position. The edits of a commit have the positions of the snapshots of
their ranges, with columns that count from one, and are listed with strictly increasing ones. -/
theorem positions_faithful (source : Text) :
    (∀ kind r, Text.isBoundary r.start source = true → Text.isBoundary r.stop source = true →
      ∃ s, Snapshot.ofRange? source kind r = some s ∧ s.range.start = r.start ∧
        0 < s.line ∧ Text.walk? (s.line - 1) s.column source = some r.start ∧
        Text.allBlank s.indent = true ∧ '\n' ∉ s.indent ∧ s.indent.length = s.column) ∧
    (∀ kind kind' r r' s s', Snapshot.ofRange? source kind r = some s →
      Snapshot.ofRange? source kind' r' = some s' →
      (s.position < s'.position ↔ s.range.start < s'.range.start)) ∧
    (∀ calls c, (Changeset.afterCalls calls).commit source = .ok c →
      ∃ edits, edits.Perm (Changeset.afterCalls calls).edits ∧
        List.Forall₂ (Edit.LocatedAt source) edits c.edits ∧
        c.edits.Pairwise fun l l' => l.position < l'.position) := by
  refine ⟨?snapshot, ?order, ?commit⟩
  case snapshot =>
    intro kind r hstart hstop
    have hsame := Snapshot.clamp_start (Text.le_byteSize_of_isBoundary hstart)
    refine ⟨_, Snapshot.ofRange?_of_isBoundary hstart hstop, hsame, Nat.succ_pos _, ?_,
      Snapshot.allBlank_indent source kind r, Snapshot.newline_not_mem_indent source kind r,
      Snapshot.length_indent source kind r⟩
    -- the snapshot goes by where its range was moved to, which is where it was
    have hwalk := Text.walk?_position hstart
    rw [Text.lead, ← hsame] at hwalk
    rw [← hsame]
    exact hwalk
  case order =>
    intro kind kind' r r' s s' h h'
    obtain ⟨hboundary, hposition⟩ := Snapshot.isBoundary_and_position_of_ofRange? h
    obtain ⟨hboundary', hposition'⟩ := Snapshot.isBoundary_and_position_of_ofRange? h'
    rw [hposition, hposition', Text.position_lt_position_iff hboundary hboundary']
  case commit =>
    intro calls c h
    obtain ⟨edits, hperm, hsorted, hfits, hedits⟩ :=
      Changeset.exists_inOrder_of_commit (Changeset.apart_afterCalls calls) h
    refine ⟨edits, hperm, ?_, ?_⟩
    · rw [hedits, List.forall₂_map_right_iff, List.forall₂_same]
      exact fun e he => Edit.locatedAt_location (hfits e he)
    · rw [hedits, List.pairwise_map]
      exact hsorted.imp_of_mem fun {e e'} he he' hbefore =>
        Edit.position_location_lt (hfits e he) (hfits e' he') hbefore.1

example : ((Changeset.afterCalls [.insert 5 "x".toList, .clear ⟨0, 1⟩]).commit
    "a\nbé c\n".toList).toOption.map (fun c => c.edits.map fun l => (l.line, l.column))
      = some [(1, 1), (2, 3)] := by cbv

end DocComments
