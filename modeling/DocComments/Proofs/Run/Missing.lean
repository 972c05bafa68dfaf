import DocComments.Proofs.Run.Addition
import DocComments.Proofs.Run.Update
import Mathlib.Data.List.Induction

/-!
# What a pass that adds comments does to a file

Every declaration that is accepted brings in one insertion, in front of its anchor. It is staged
unless another one was staged for the same place before, and then counts as given up
(`adds_foldl_take`). What is committed is the source with these insertions and nothing else
(`missing_only_inserts`): to delete them brings back the source, and where only blanks stand in
front of an anchor they are insertions of whole lines. As any commit it comes to nothing if the diff
has a reversed hunk; `missing_without_text_form` is such a pass.
-/

set_option autoImplicit false

namespace DocComments

open Edit (InOrder weave)

/-! ## Where the comments are placed -/

/-- Every node of the tree begins between two characters of the source. -/
def Tree.BeginsOnBoundaries (t : Tree) (source : Text) : Prop :=
  ∀ n ∈ (Node.root t).walk, Text.isBoundary n.range.start source = true

/-- Where only blanks stand in front of a piece on its line, they are its indentation. -/
theorem Snapshot.indent_of_allBlank {source : Text} {kind : String} {r : ByteRange}
    (h : Text.allBlank (Text.lead (ofRange source kind r).range.start source) = true) :
    (ofRange source kind r).indent = Text.lead (ofRange source kind r).range.start source :=
  if_pos h

/-- A snapshot of a node that begins on a boundary begins where the node does. -/
theorem Snapshot.start_ofNode {source : Text} {n : Node}
    (h : Text.isBoundary n.range.start source = true) :
    (ofNode source n).range.start = n.range.start :=
  Nat.min_eq_left (Text.le_byteSize_of_isBoundary h)

section Placed

variable {t : Tree} {style : CommentStyle} {source : Text} {n : Node}

theorem CommentStyle.on_of_insertionPoint? {point : Node} (hn : Node.On t n)
    (h : style.insertionPoint? source n = some point) : Node.On t point := by
  cases style with
  | block =>
    obtain rfl := Option.some.inj h
    exact hn
  | slashes =>
    obtain rfl := Option.some.inj h
    exact hn
  | docstring =>
    simp only [insertionPoint?, Declaration.bodyOnOwnLine?, Option.bind_eq_bind,
      Option.bind_eq_some_iff] at h
    obtain ⟨body, hbody, h⟩ := h
    have hpoint : body = point := by
      split at h
      · split at h
        · exact Option.some.inj h
        · cases h
      · cases h
    rw [← hpoint]
    exact hn.of_mem_children (List.mem_of_find?_eq_some hbody)

/-- A pass that adds comments plans a declaration with the node that the comment stands in front
of. -/
theorem Planned.exists_point_of_ofNode?_eq_some {p : Planned}
    (h : Planned.ofNode? style .missing source n = some p) :
    ∃ point, style.insertionPoint? source n = some point ∧
      p.anchor = Snapshot.ofNode source point := by
  rw [Planned.ofNode?, Option.map_eq_some_iff] at h
  obtain ⟨⟨comments, anchor⟩, hplace, rfl⟩ := h
  simp only [Planned.place?, Option.map_eq_some_iff] at hplace
  obtain ⟨point, hpoint, hanchor⟩ := hplace
  cases hanchor
  exact ⟨point, hpoint, rfl⟩

/-- The comment that a reply makes for a planned declaration is placed in the source. -/
theorem Addition.isPlaced_of_ofNode? {p : Planned} (ht : t.BeginsOnBoundaries source)
    (hn : Node.On t n) (h : Planned.ofNode? style .missing source n = some p) (reply : Text) :
    (⟨p, Comment.ofReply style reply p.anchor⟩ : Addition).IsPlaced style source := by
  obtain ⟨point, hpoint, hanchor⟩ := Planned.exists_point_of_ofNode?_eq_some h
  have hon := CommentStyle.on_of_insertionPoint? hn hpoint
  have hbegins := ht point (Node.mem_walk_root_iff.mpr hon)
  refine ⟨?_, ⟨reply, rfl⟩, fun hblank => ?_⟩
  · show Text.isBoundary p.anchor.range.start source = true
    rw [hanchor, Snapshot.start_ofNode hbegins]
    exact hbegins
  · show p.anchor.indent = Text.lead p.anchor.range.start source
    have hlead : Text.allBlank (Text.lead p.anchor.range.start source) = true := hblank
    rw [hanchor] at hlead ⊢
    exact Snapshot.indent_of_allBlank hlead

end Placed

/-! ## Staging -/

namespace Handled

def isAccepted (h : Handled) : Bool :=
  match h.treatment.outcome with
  | .accepted _ => true
  | _ => false

def isFailed (h : Handled) : Bool := h.treatment.outcome == .failed

/-- The declaration with the comment that its reply makes, if it is accepted. -/
def addition? (style : CommentStyle) (h : Handled) : Option Addition :=
  match h.treatment.outcome with
  | .accepted _ => h.reply.map fun reply =>
    ⟨h.planned, Comment.ofReply style reply h.planned.anchor⟩
  | _ => none

/-- The declarations that are accepted, in the order in which they were treated. -/
def additions (style : CommentStyle) (hs : List Handled) : List Addition :=
  hs.filterMap (addition? style)

section Additions

variable {style : CommentStyle} {h : Handled}

theorem exists_addition?_eq_some (hmade : h.MadeBy style .missing) {batch : List Edit}
    (hbatch : h.treatment.outcome = .accepted batch) :
    ∃ a, h.addition? style = some a ∧ batch = [a.edit] := by
  obtain ⟨reply, comment, hreply, hcomment, rfl⟩ := hmade batch hbatch
  obtain rfl := Pass.eq_ofReply_of_comment?_eq_some hcomment
  exact ⟨_, by rw [addition?, hbatch, hreply]; rfl, Addition.edits_missing _ _⟩

theorem addition?_eq_none (h' : h.isAccepted = false) : h.addition? style = none := by
  unfold isAccepted at h'
  unfold addition?
  split at h'
  · cases h'
  · rfl

/-- Every accepted declaration is among the additions. -/
theorem length_additions {hs : List Handled} (hmade : ∀ h ∈ hs, h.MadeBy style .missing) :
    (additions style hs).length = hs.countP isAccepted := by
  induction hs with
  | nil => rfl
  | cons h hs ih =>
    have hrest := ih fun x hx => hmade x (List.mem_cons_of_mem _ hx)
    rw [additions] at hrest ⊢
    cases houtcome : h.treatment.outcome with
    | accepted batch =>
      obtain ⟨a, ha, -⟩ := exists_addition?_eq_some (hmade h List.mem_cons_self) houtcome
      have haccepted : h.isAccepted = true := by rw [isAccepted, houtcome]
      rw [List.filterMap_cons_some ha, List.length_cons, hrest, List.countP_cons_of_pos haccepted]
    | _ =>
      have haccepted : h.isAccepted = false := by rw [isAccepted, houtcome]
      rw [List.filterMap_cons_none (addition?_eq_none haccepted), hrest,
        List.countP_cons_of_neg (by simp [haccepted])]

end Additions

end Handled

namespace Addition

/-- An insertion is staged if its place is free. -/
theorem stage_edit_of_free {as : List Addition} {a : Addition}
    (h : a.position ∉ as.map position) :
    (⟨as.map edit⟩ : Changeset).stage [a.edit] = .ok ⟨(as ++ [a]).map edit⟩ := by
  have hfree : ∀ s ∈ as.map edit, s.range.collides a.edit.range = false := by
    intro s hs
    obtain ⟨b, hb, rfl⟩ := List.mem_map.mp hs
    have hne : b.position ≠ a.position := fun heq => h (List.mem_map.mpr ⟨b, hb, heq⟩)
    refine Bool.eq_false_iff.mpr fun hcollides => ?_
    simp only [ByteRange.collides, Bool.or_eq_true, Bool.and_eq_true, decide_eq_true_eq,
      beq_iff_eq] at hcollides
    have hplaces : (b.position < a.position ∧ a.position < b.position) ∨
        b.position = a.position := hcollides
    omega
  have hreplace : (⟨as.map edit⟩ : Changeset).replace a.edit = .ok ⟨(as ++ [a]).map edit⟩ :=
    Changeset.replace_eq_ok_iff.mpr ⟨hfree, by rw [List.map_append]; rfl⟩
  rw [Changeset.stage_eq_foldlM, List.foldlM_cons, hreplace]
  rfl

/-- An insertion is not staged if its place is taken. -/
theorem exists_stage_edit_of_taken {as : List Addition} {a : Addition}
    (h : a.position ∈ as.map position) :
    ∃ e, (⟨as.map edit⟩ : Changeset).stage [a.edit] = .error e := by
  obtain ⟨b, hb, hposition⟩ := List.mem_map.mp h
  have hcollides : b.edit.range.collides a.edit.range = true := by
    simp [edit, ByteRange.collides, hposition]
  rw [Changeset.stage_eq_foldlM, List.foldlM_cons]
  cases hreplace : (⟨as.map edit⟩ : Changeset).replace a.edit with
  | error e => exact ⟨e, rfl⟩
  | ok c =>
    have hfree := (Changeset.replace_eq_ok_iff.mp hreplace).1 b.edit (List.mem_map_of_mem hb)
    rw [hcollides] at hfree
    cases hfree

end Addition

namespace PassReport

theorem countAccepted_of_missing {r : PassReport} (h : r.pass = .missing) :
    r.countAccepted = { r with generated := r.generated + 1 } := by
  unfold countAccepted
  rw [h]

theorem countRefused_of_missing {r : PassReport} (h : r.pass = .missing) :
    r.countRefused = { r with refused := r.refused + 1 } := by
  unfold countRefused
  rw [h]

end PassReport

namespace Staging

open Handled (additions isFailed)
open Addition (firsts)

/-- The insertions of these treated declarations are staged, the first at each place, and the
accepted declarations without one are counted with those that were given up. -/
structure Adds (file : Path) (style : CommentStyle) (hs : List Handled) (w : Staging) : Prop where
  changes : w.changes = ⟨(firsts (additions style hs)).map Addition.edit⟩
  generated : w.report.generated = (firsts (additions style hs)).length
  failed : w.report.failed + (firsts (additions style hs)).length
    = hs.countP isFailed + (additions style hs).length
  pass : w.report.pass = .missing
  file : w.report.file = file

section Adds

variable {file : Path} {style : CommentStyle} {hs : List Handled} {w : Staging} {h : Handled}

theorem adds_start : Adds file style [] (start file .missing) := ⟨rfl, rfl, rfl, rfl, rfl⟩

/-- A declaration that is not accepted leaves the staged insertions as they are. -/
theorem Adds.take_of_not_accepted (hw : Adds file style hs w) (hnot : h.isAccepted = false) :
    Adds file style (hs ++ [h]) (w.take h.treatment) := by
  obtain ⟨hchanges, hgenerated, hfailed, hpass, hfile⟩ := hw
  have hsame : additions style (hs ++ [h]) = additions style hs := by
    simp [additions, Handled.addition?_eq_none hnot]
  rw [← hsame] at hchanges hgenerated hfailed
  cases houtcome : h.treatment.outcome with
  | accepted batch => simp [Handled.isAccepted, houtcome] at hnot
  | refused =>
    have hcount : (hs ++ [h]).countP isFailed = hs.countP isFailed := by
      simp [isFailed, houtcome]
    have hrefused := PassReport.countRefused_of_missing (r := w.report.charge h.treatment) hpass
    rw [take, houtcome]
    simp only [hrefused]
    exact ⟨hchanges, hgenerated, by rw [hcount]; exact hfailed, hpass, hfile⟩
  | unchanged =>
    have hcount : (hs ++ [h]).countP isFailed = hs.countP isFailed := by
      simp [isFailed, houtcome]
    rw [take, houtcome]
    exact ⟨hchanges, hgenerated, by rw [hcount]; exact hfailed, hpass, hfile⟩
  | failed =>
    have hcount : (hs ++ [h]).countP isFailed = hs.countP isFailed + 1 := by
      simp [isFailed, houtcome]
    rw [take, houtcome]
    refine ⟨hchanges, hgenerated, ?_, hpass, hfile⟩
    show w.report.failed + 1 + _ = _
    rw [hcount]
    omega

/-- An accepted declaration is staged if it is the first at its place, and counts as given up if it
is not. -/
theorem Adds.take_of_accepted (hw : Adds file style hs w) (hmade : h.MadeBy style .missing)
    {batch : List Edit} (hbatch : h.treatment.outcome = .accepted batch) :
    Adds file style (hs ++ [h]) (w.take h.treatment) := by
  obtain ⟨hchanges, hgenerated, hfailed, hpass, hfile⟩ := hw
  obtain ⟨a, ha, rfl⟩ := Handled.exists_addition?_eq_some hmade hbatch
  have hmore : additions style (hs ++ [h]) = additions style hs ++ [a] := by
    simp [additions, ha]
  have hcount : (hs ++ [h]).countP isFailed = hs.countP isFailed := by
    simp [isFailed, hbatch]
  by_cases htaken : a.position ∈ (additions style hs).map Addition.position
  · -- the place is taken: the edit collides with the one that is staged there
    have hfirsts : firsts (additions style (hs ++ [h])) = firsts (additions style hs) := by
      rw [hmore, Addition.firsts_concat, if_pos htaken]
    obtain ⟨e, he⟩ :=
      Addition.exists_stage_edit_of_taken (Addition.mem_map_position_firsts.mpr htaken)
    rw [take, hbatch]
    simp only [hchanges, he]
    refine ⟨by rw [hfirsts], by rw [hfirsts]; exact hgenerated, ?_, hpass, hfile⟩
    show w.report.failed + 1 + _ = _
    rw [hfirsts, hcount, hmore, List.length_append, List.length_singleton]
    omega
  · -- the place is free: insertions at different places do not collide
    have hfirsts : firsts (additions style (hs ++ [h])) = firsts (additions style hs) ++ [a] := by
      rw [hmore, Addition.firsts_concat, if_neg htaken]
    have hstage := Addition.stage_edit_of_free
      fun hmem => htaken (Addition.mem_map_position_firsts.mp hmem)
    have haccepted := PassReport.countAccepted_of_missing (r := w.report.charge h.treatment) hpass
    rw [take, hbatch]
    simp only [hchanges, hstage, haccepted]
    refine ⟨by rw [hfirsts], ?_, ?_, hpass, hfile⟩
    · show w.report.generated + 1 = _
      rw [hfirsts, hgenerated, List.length_append, List.length_singleton]
    · show w.report.failed + _ = _
      rw [hfirsts, hcount, hmore, List.length_append, List.length_append, List.length_singleton]
      omega

/-- The invariant of a pass that adds comments. -/
theorem adds_foldl_take (hmade : ∀ h ∈ hs, h.MadeBy style .missing) :
    Adds file style hs ((hs.map Handled.treatment).foldl take (start file .missing)) := by
  induction hs using List.reverseRecOn with
  | nil => exact adds_start
  | append_singleton hs h ih =>
    have hw := ih fun x hx => hmade x (List.mem_append_left _ hx)
    rw [List.map_append, List.foldl_append]
    by_cases haccepted : ∃ batch, h.treatment.outcome = .accepted batch
    · obtain ⟨batch, hbatch⟩ := haccepted
      exact hw.take_of_accepted (hmade h (by simp)) hbatch
    · refine hw.take_of_not_accepted ?_
      unfold Handled.isAccepted
      split
      · next batch hbatch => exact absurd ⟨batch, hbatch⟩ haccepted
      · rfl

end Adds

end Staging

/-! ## Whole files -/

/-- An accepted declaration was planned for a selected node, and its comment is the one that the
reply makes. -/
theorem Handled.exists_of_mem_additions {style : CommentStyle} {hs : List Handled} {a : Addition}
    (ha : a ∈ additions style hs) : ∃ h ∈ hs, ∃ reply, h.reply = some reply ∧
      a = ⟨h.planned, Comment.ofReply style reply h.planned.anchor⟩ := by
  obtain ⟨h, hh, hsome⟩ := List.mem_filterMap.mp ha
  unfold addition? at hsome
  split at hsome
  · obtain ⟨reply, hreply, rfl⟩ := Option.map_eq_some_iff.mp hsome
    exact ⟨h, hh, reply, hreply, rfl⟩
  · cases hsome

/-- An accepted declaration was planned for a selected node, and its comment stands in front of the
node that this one is documented at. -/
theorem Treated.exists_point_of_mem_additions {σ : Type} {out : Outside σ} {c : Config}
    {style : CommentStyle} {source : Text} {budget : Budget} {t : Tree} {matched : List Node}
    {w : Staging} {s : Session σ} (hbegins : t.BeginsOnBoundaries source)
    (hmatched : ∀ n ∈ matched, Node.On t n) {a : Addition}
    (ha : a ∈ Handled.additions style (handled out c style source budget
      (matched.filterMap (Planned.ofNode? style .missing source)) w s)) :
    a.IsPlaced style source ∧ ∃ n ∈ matched, ∃ point reply,
      Planned.ofNode? style .missing source n = some a.planned ∧
      style.insertionPoint? source n = some point ∧ a.position = point.range.start ∧
      a.comment = Comment.ofReply style reply a.planned.anchor := by
  obtain ⟨h, hh, reply, -, rfl⟩ := Handled.exists_of_mem_additions ha
  have hplanned : h.planned ∈ matched.filterMap (Planned.ofNode? style .missing source) := by
    rw [← planned_handled (matched.filterMap (Planned.ofNode? style .missing source)) w s]
    exact List.mem_append_left _ (List.mem_map_of_mem hh)
  obtain ⟨n, hn, hof⟩ := List.mem_filterMap.mp hplanned
  obtain ⟨point, hpoint, hanchor⟩ := Planned.exists_point_of_ofNode?_eq_some hof
  have hon := CommentStyle.on_of_insertionPoint? (hmatched n hn) hpoint
  refine ⟨Addition.isPlaced_of_ofNode? hbegins (hmatched n hn) hof reply, n, hn, point, reply, hof,
    hpoint, ?_, rfl⟩
  rw [Addition.position, hanchor,
    Snapshot.start_ofNode (hbegins point (Node.mem_walk_root_iff.mpr hon))]

/-- The commit of the first insertions at their places. -/
theorem Addition.commit_map_edit {style : CommentStyle} {source : Text} {as : List Addition}
    (has : ∀ a ∈ as, a.IsPlaced style source)
    (hapart : as.Pairwise fun a b => a.position ≠ b.position) :
    ∃ (sorted : List Addition) (locations : List EditLocation), sorted.Perm as ∧
      (sorted.Pairwise fun a b => a.position < b.position) ∧
      (⟨as.map edit⟩ : Changeset).commit source =
        match Diff.unified? source (weave source 0 (sorted.map edit)) with
        | none => .error .noDiff
        | some diff => .ok ⟨source, weave source 0 (sorted.map edit), locations, diff⟩ := by
  obtain ⟨sorted, hperm, hsorted⟩ := exists_sorted hapart
  refine ⟨sorted, (sorted.map edit).map (Edit.location source), hperm, hsorted, ?_⟩
  refine Changeset.commit_of_inOrder (hperm.map edit) (inOrder_map_edit hsorted) fun e he => ?_
  obtain ⟨a, ha, rfl⟩ := List.mem_map.mp he
  exact (has a ha).fits_edit

section Missing

variable {σ : Type} (out : Outside σ) (c : Config) (file : Path) (budget : Budget) (s : Session σ)
  {lang : Language} {source : Text}

/-- A pass that adds comments to a file whose nodes begin on boundaries: of the accepted
declarations the first at each place is staged, as an insertion in front of its anchor, and each
other one counts as given up. The commit makes these insertions and nothing else, so that to delete
them brings back the source. Where only blanks stand in front of an anchor on its line, they are
insertions of whole lines that are blank or begin with these blanks. There is no commit if the diff
of the two texts has a reversed hunk, and only then. -/
theorem missing_only_inserts (hlang : Language.ofPath? file = some lang)
    (hsource : Source.ofEntry file c.maxFileSize (out.find file s.outside) = .ok source) :
    ∃ matched, (Pass.missing.rule lang.style c.request).search lang source (out.parse lang source)
        = .ok matched ∧
      ((out.parse lang source).BeginsOnBoundaries source →
        let planned := matched.filterMap (Planned.ofNode? lang.style .missing source)
        let treated :=
          Treated.ofPlanned out c lang.style source budget planned (.start file .missing) s
        let handled :=
          Treated.handled out c lang.style source budget planned (.start file .missing) s
        let accepted := Handled.additions lang.style handled
        let inserted := Addition.firsts accepted
        handled.map Handled.planned ++ treated.left = planned ∧
        accepted.length = handled.countP Handled.isAccepted ∧
        treated.staging.changes.edits = inserted.map Addition.edit ∧
        treated.staging.report.generated = inserted.length ∧
        treated.staging.report.failed + inserted.length
          = handled.countP Handled.isFailed + accepted.length ∧
        (∀ a ∈ accepted, ∃ n ∈ matched, ∃ point reply,
          Planned.ofNode? lang.style .missing source n = some a.planned ∧
          lang.style.insertionPoint? source n = some point ∧ a.position = point.range.start ∧
          a.comment = Comment.ofReply lang.style reply a.planned.anchor) ∧
        ∃ sorted : List Addition, sorted.Perm inserted ∧ InOrder (sorted.map Addition.edit) ∧
          let modified := weave source 0 (sorted.map Addition.edit)
          ((∃ r, treated.staging.changes.commit source = .ok r ∧ r.modified = modified) ↔
            ¬ Diff.HasReversedHunk source modified) ∧
          ((FilePass.ofPath out c .missing file budget s).result = .error (.noDiff file) ↔
            Diff.HasReversedHunk source modified) ∧
          (¬ Diff.HasReversedHunk source modified → c.dryRun = false → modified ≠ source →
            (FilePass.ofPath out c .missing file budget s).session =
              ((treated.session.note (.committed file treated.staging.changes.edits)).write out file
                modified).2) ∧
          weave modified 0 (Edit.removals 0 (sorted.map Addition.edit)) = source ∧
          modified = weave source 0 (sorted.map (Addition.lineEdit source)) ∧
          ∀ a ∈ sorted, Text.allBlank (a.lead source) = true → ∃ lines : List Text,
            a.lineEdit source = ⟨⟨Text.lineStart a.position source,
              Text.lineStart a.position source⟩, (lines.map (· ++ ['\n'])).flatten⟩ ∧
            ∀ line ∈ lines, '\n' ∉ line ∧
              (Text.allBlank line = true ∨ a.lead source <+: line)) := by
  obtain ⟨matched, hmatched⟩ : ∃ matched, (Pass.missing.rule lang.style c.request).search lang
      source (out.parse lang source) = .ok matched :=
    lang.style.exists_search_rule_eq_ok c.request false lang source _
  refine ⟨matched, hmatched, fun hbegins => ?_⟩
  intro planned treated handled accepted inserted
  have hplanned : handled.map Handled.planned ++ treated.left = planned :=
    Treated.planned_handled planned (.start file .missing) s
  have hmade : ∀ h ∈ handled, h.MadeBy lang.style .missing :=
    fun h hh => Treated.madeBy_of_mem_handled rfl hh
  have hadds : treated.staging.Adds file lang.style handled := by
    rw [show treated.staging = (handled.map Handled.treatment).foldl Staging.take
      (.start file .missing) from Treated.staging_ofPlanned planned _ s]
    exact Staging.adds_foldl_take hmade
  obtain ⟨hchanges, hgenerated, hfailed, -, hfile⟩ := hadds
  have hpoints := fun a (ha : a ∈ accepted) => Treated.exists_point_of_mem_additions hbegins
    (fun n hn => Rule.on_of_mem_search hmatched hn) ha
  have hinserted : ∀ a ∈ inserted, a.IsPlaced lang.style source :=
    fun a ha => (hpoints a ((Addition.firsts_sublist accepted).subset ha)).1
  obtain ⟨sorted, locations, hperm, hsorted, hcommit⟩ :=
    Addition.commit_map_edit hinserted (Addition.pairwise_firsts accepted)
  have hplaced : ∀ a ∈ sorted, a.IsPlaced lang.style source :=
    fun a ha => hinserted a (hperm.mem_iff.mp ha)
  rw [← hchanges] at hcommit
  have hpass : FilePass.ofPath out c .missing file budget s
      = FilePass.ofPlan out c .missing file ⟨lang.style, source, planned⟩ budget s :=
    FilePass.ofPath_of_search out c .missing file budget s hlang hsource hmatched
  obtain ⟨hmodified, hnoDiff, hwritten⟩ := FilePass.ofPlan_of_commit out c .missing file
    ⟨lang.style, source, planned⟩ budget s (show _ = treated from rfl) hfile hcommit
  refine ⟨hplanned, Handled.length_additions hmade, by rw [hchanges], hgenerated, hfailed,
    fun a ha => (hpoints a ha).2, sorted, hperm, Addition.inOrder_map_edit hsorted, ?_⟩
  rw [hpass]
  refine ⟨hmodified, hnoDiff, hwritten, Addition.weave_removals_map_edit hplaced hsorted,
    Addition.weave_map_lineEdit hplaced hsorted, fun a ha hblank => ?_⟩
  exact (hplaced a ha).exists_lines_of_lineEdit hblank

end Missing

/-! ## Classes without comments -/

namespace ClassFile

def leftBareRule : Rule :=
  .all [.all [.anyKind ["record_declaration", "class_declaration"],
      .inParent (.anyKind Declaration.slashContainers)],
    .not Declaration.slashDocumented]

theorem prune_bareRule :
    Rule.prune Language.csharp.knows (Pass.missing.rule .slashes config.request)
      = some leftBareRule := rfl

theorem patternsValid_leftBareRule : leftBareRule.patternsValid = true := by decide +kernel

theorem search_bare_of_filter {source : Text} {t : Tree} {found : List Node}
    (h : (Node.root t).walk.filter (Rule.matchesAt source leftBareRule) = found) :
    (Pass.missing.rule .slashes config.request).search .csharp source t = .ok found := by
  rw [Rule.search, Rule.compile, prune_bareRule]
  simp only [patternsValid_leftBareRule, if_true]
  rw [← h]
  rfl

def indented : ClassFile := ⟨"  class A {}\n".toList, [], 2⟩

/-- A class behind a comment on its own line, and the same class again with lines of comment in
front of it that the first one would get. -/
def repeated : Text :=
  "/**/class A {}\n/**////\n    ///\n    ///\n    ///\n    ///\n    ///\n    class A {}\n".toList

def firstClass : Tree := classTree ⟨repeated, [], 4⟩

def repeatedTree : Tree :=
  .node "compilation_unit" true ⟨0, 78⟩
    [comment 0 4, firstClass, comment 15 19, comment 19 22, comment 27 30, comment 35 38,
      comment 43 46, comment 51 54, comment 59 62, classTree ⟨repeated, [], 67⟩]

def sixMarks : Text := Text.joinLines (List.replicate 6 SlashComment.mark)

/-- The file with the two classes, and a model that always drafts the six lines. -/
def repeatedOutside : Outside Text :=
  { outside ⟨repeated, [], 4⟩ sixMarks with parse := fun _ _ => repeatedTree }

end ClassFile

open ClassFile

/-- A comment for a class behind two blanks is a line behind two blanks. -/
theorem missing_of_indented_class :
    indented.tree.BeginsOnBoundaries indented.source ∧
      (FilePass.ofPath (indented.outside "/// c".toList) config .missing path (.fresh none)
        (.start indented.source)).session.outside = "  /// c\n  class A {}\n".toList := by
  have hsource : Source.ofEntry path config.maxFileSize
      ((indented.outside "/// c".toList).find path indented.source) = .ok indented.source := by
    rfl
  have hmatched : (Pass.missing.rule .slashes config.request).search .csharp indented.source
      indented.tree = .ok [indented.node] := search_bare_of_filter rfl
  have hbegins : indented.tree.BeginsOnBoundaries indented.source := by
    intro n hn
    have hall : ((Node.root indented.tree).walk.all fun n =>
        Text.isBoundary n.range.start indented.source) = true := by decide
    exact List.all_eq_true.mp hall n hn
  obtain ⟨matched, hfound, hmissing⟩ :=
    missing_only_inserts (indented.outside "/// c".toList) config path (.fresh none)
      (.start indented.source) ofPath?_path hsource
  obtain rfl : [indented.node] = matched := Except.ok.inj (hmatched.symm.trans hfound)
  obtain ⟨-, -, -, -, -, -, sorted, hperm, -, -, -, hwritten, -⟩ := hmissing hbegins
  have hedits : sorted.map Addition.edit = [⟨⟨2, 2⟩, "/// c\n  ".toList⟩] :=
    List.perm_singleton.mp (hperm.map Addition.edit)
  have hweave : weave indented.source 0 [⟨⟨2, 2⟩, "/// c\n  ".toList⟩]
      = "  /// c\n  class A {}\n".toList := rfl
  have hdiff : (Diff.unified? indented.source "  /// c\n  class A {}\n".toList).isSome = true := by
    cbv
  have hshown : ¬ Diff.HasReversedHunk indented.source "  /// c\n  class A {}\n".toList := by
    rw [← Diff.unified?_eq_none_iff]
    exact Option.isSome_iff_ne_none.mp hdiff
  rw [hedits, hweave] at hwritten
  exact ⟨hbegins, congrArg Session.outside (hwritten hshown rfl (by decide))⟩

/-- The comment for the first class makes the file begin with a copy of what follows, and the diff
of the two texts has no text form. -/
theorem missing_without_text_form :
    repeatedTree.BeginsOnBoundaries repeated ∧
      (Pass.missing.rule .slashes config.request).search .csharp repeated repeatedTree
        = .ok [.child (.root repeatedTree) [comment 0 4] firstClass] ∧
      (Treated.handled repeatedOutside config .slashes repeated (.fresh none)
        ([.child (.root repeatedTree) [comment 0 4] firstClass].filterMap
          (Planned.ofNode? .slashes .missing repeated))
        (.start path .missing) (.start repeated)).countP Handled.isAccepted = 1 ∧
      (FilePass.ofPath repeatedOutside config .missing path (.fresh none)
        (.start repeated)).result = .error (.noDiff path) := by
  have hsource : Source.ofEntry path config.maxFileSize (repeatedOutside.find path repeated)
      = .ok repeated := by
    rfl
  have hmatched : (Pass.missing.rule .slashes config.request).search .csharp repeated repeatedTree
      = .ok [.child (.root repeatedTree) [comment 0 4] firstClass] := search_bare_of_filter rfl
  have hbegins : repeatedTree.BeginsOnBoundaries repeated := by
    intro n hn
    have hall : ((Node.root repeatedTree).walk.all fun n =>
        Text.isBoundary n.range.start repeated) = true := by decide
    exact List.all_eq_true.mp hall n hn
  have hcommit : (⟨[⟨⟨4, 4⟩, "///\n    ///\n    ///\n    ///\n    ///\n    ///\n    ".toList⟩]⟩ :
      Changeset).commit repeated = .error .noDiff := by
    have hdiff : Diff.unified? repeated ("/**/".toList ++
        "///\n    ///\n    ///\n    ///\n    ///\n    ///\n    ".toList ++ repeated.drop 4)
          = none := by
      cbv
    exact Changeset.commit_eq_noDiff_of_inOrder (by decide) (by decide) rfl hdiff
  refine ⟨hbegins, hmatched, rfl, ?_⟩
  rw [FilePass.ofPath_of_search repeatedOutside config .missing path (.fresh none)
    (.start repeated) ofPath?_path hsource hmatched, (FilePass.ofPlan_eq _ _ _ _ _ _ _ rfl).1]
  exact Staging.commit_eq_noDiff_iff.mpr ⟨rfl, hcommit⟩

end DocComments
