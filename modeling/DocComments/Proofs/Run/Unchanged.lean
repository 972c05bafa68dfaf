import DocComments.Proofs.Run.Account

/-!
# Updates that change nothing

The new comment of an update may be what stands in the file already, from the beginning of the first
comment node to the end of the last. Its edits then give the source back
(`Planned.IsCommented.weave_edits_of_eq`), and there is no need to make them. An update leaves them
out if the comment is a single node, or if the reply asks for no change; a comment of several nodes
is treated like any other (`update_skips_equal_comment_iff`).
-/

set_option autoImplicit false

namespace DocComments

open Edit (weave)

namespace Planned

variable {style : CommentStyle} {source : Text} {p : Planned} {comment : Comment}

theorem IsCommented.fits_commented (hp : p.IsCommented source) :
    p.commented.fits source = true := by
  obtain ⟨more, hmore⟩ := hp.exists_comments_eq
  have hlast : (p.anchor :: more).getLast? = some (more.getLastD p.anchor) := by
    rw [List.getLast?_cons, List.getLastD_eq_getLast?]
  have hfront := hp.fits p.anchor (hmore ▸ List.mem_cons_self)
  have hback := hp.fits _ (hmore ▸ List.mem_of_getLast? hlast)
  have hwide := hp.start_lt_stop
  rw [commented, hmore, List.getLastD_cons] at hwide ⊢
  exact ByteRange.fits_iff.mpr
    ⟨Nat.le_of_lt hwide, (ByteRange.fits_iff.mp hfront).2.1, (ByteRange.fits_iff.mp hback).2.2⟩

/-- The edits that bring in the comment that is there leave the source as it is. -/
theorem IsCommented.weave_edits_of_eq (hp : p.IsCommented source)
    (h : p.commented.slice source = comment.text) :
    weave source 0 (Pass.update.edits p comment) = source := by
  have hone : weave source 0 (Pass.update.edits p comment ++ [])
      = weave source 0 [⟨p.commented, comment.text⟩] := hp.weave_edits 0 []
  have hself : weave source 0 [⟨p.commented, comment.text⟩] = Text.dropBytes 0 source :=
    Edit.weave_self (Text.isBoundary_zero source) ⟨Nat.zero_le _, hp.fits_commented, trivial⟩
      fun e he => by rw [List.mem_singleton.mp he, ← h]
  rw [List.append_nil] at hone
  rw [hone, hself, Text.dropBytes_zero]

/-- A comment of one node has the text that stands in the source. -/
theorem slice_commented_of_length_eq_one {n : Node} (h : ofNode? style .update source n = some p)
    (hone : p.comments.length = 1) : p.commented.slice source = p.anchor.text := by
  obtain ⟨first, more, -, hanchor, hcomments⟩ := exists_of_ofNode?_eq_some h
  rw [hcomments, List.length_map] at hone
  obtain ⟨only, honly⟩ := List.length_eq_one_iff.mp hone
  obtain ⟨rfl, rfl⟩ := List.cons_eq_cons.mp honly
  rw [commented, hcomments, hanchor]
  rfl

end Planned

/-- An update keeps a comment that stands in the source already if it is a single node, or if the
reply asks for no change. -/
theorem Pass.comment?_eq_none_iff_of_slice_eq {style : CommentStyle} {source : Text} {p : Planned}
    {n : Node} (hof : Planned.ofNode? style .update source n = some p) {reply : Text}
    (h : p.commented.slice source = (Comment.ofReply style reply p.anchor).text) :
    Pass.update.comment? style p reply = none ↔
      p.comments.length = 1 ∨ Text.occursIn Prompt.noChange.toList reply = true := by
  unfold comment?
  cases hasked : Text.occursIn Prompt.noChange.toList reply with
  | true => simp
  | false =>
    -- only a comment of one node is compared with the new one
    by_cases hone : p.comments.length = 1
    · have htext := h.symm.trans (Planned.slice_commented_of_length_eq_one hof hone)
      simp [hone, htext]
    · simp [hone]

/-! ## Comments that stay -/

namespace PassReport

theorem skipped_countAccepted (r : PassReport) : r.countAccepted.skipped = r.skipped := by
  unfold countAccepted
  split <;> rfl

theorem skipped_countRefused (r : PassReport) : r.countRefused.skipped = r.skipped := by
  unfold countRefused
  split <;> rfl

end PassReport

/-- Only comments that stay are counted as skipped. -/
theorem Staging.skipped_take_of_ne {w : Staging} {t : Treatment} (h : t.outcome ≠ .unchanged) :
    (w.take t).report.skipped = w.report.skipped := by
  unfold take
  cases houtcome : t.outcome with
  | unchanged => exact absurd houtcome h
  | refused => exact PassReport.skipped_countRefused (w.report.charge t)
  | failed => rfl
  | accepted batch =>
    dsimp only
    cases w.changes.stage batch with
    | error e => rfl
    | ok changes => exact PassReport.skipped_countAccepted (w.report.charge t)

namespace Attempt

variable {c : Config} {found : FilePlan} {tk : Tokenizer} {a : Attempt}

/-- An update leaves the comment that is there: nothing is staged, the declaration is counted as
skipped and not as edited, and no judge is asked. -/
structure IsSkipped (tk : Tokenizer) (c : Config) (found : FilePlan) (a : Attempt) : Prop where
  changes : ∀ w : Staging, (w.take (a.treatment .update)).changes = w.changes
  skipped : ∀ w : Staging, (w.take (a.treatment .update)).report.skipped = w.report.skipped + 1
  edits : ∀ w : Staging, (w.take (a.treatment .update)).report.edits = w.report.edits
  unasked : ∀ q answer, .judged q answer ∉ a.events tk c .update found

theorem isSkipped_iff : a.IsSkipped tk c found ↔ ∃ d, a.course = .kept d := by
  constructor
  · intro h
    refine Course.outcome_eq_unchanged_iff.mp
      (Classical.not_not.mp fun (hne : (a.treatment .update).outcome ≠ .unchanged) => ?_)
    have hskipped := h.skipped (.start [] .update)
    rw [Staging.skipped_take_of_ne hne] at hskipped
    omega
  · rintro ⟨d, hcourse⟩
    have houtcome : a.treatment .update = ⟨.unchanged, d.usage, .zero⟩ := by
      rw [treatment, hcourse]
      rfl
    refine ⟨fun w => ?_, fun w => ?_, fun w => ?_, fun q answer hasked => ?_⟩
    · rw [houtcome]
      rfl
    · rw [houtcome]
      rfl
    · rw [houtcome]
      rfl
    · obtain ⟨d', comment, hjudged⟩ := course_of_judged_mem_events hasked
      cases hcourse.symm.trans hjudged

end Attempt

/-! ## Files -/

section Files

variable {σ : Type} {out : Outside σ} {c : Config} {file : Path} {budget : Budget} {s : Session σ}
  {found : FilePlan}

theorem FilePass.exists_node_of_mem_attempts {pass : Pass}
    (hfound : FilePlan.ofPath out c pass file s.outside = .ok found) {a : Attempt}
    (ha : a ∈ attempts out c pass file budget s found) :
    ∃ lang n, Node.On (out.parse lang found.source) n ∧
      Planned.ofNode? found.style pass found.source n = some a.planned := by
  have hplanned := planned_attempts_append_left out c pass file budget s found
  exact exists_node_of_mem_planned hfound
    (hplanned ▸ List.mem_append_left _ (List.mem_map_of_mem ha))

/-- A draft whose comment stands in the file already, from the first comment node to the last. The
update leaves the comment exactly if the draft is not blank and the comment is a single node or the
draft asks for no change. Otherwise a draft that is not blank is treated like any other: a judge is
asked if there is one, and else the edits are to be staged. In either case edits that are to be
staged leave the source as it is. -/
theorem update_skips_equal_comment_iff
    (hfound : FilePlan.ofPath out c .update file s.outside = .ok found) {a : Attempt}
    (ha : a ∈ FilePass.attempts out c .update file budget s found) {d : Draft}
    (hd : a.course.drafted = .ok d)
    (hequal : a.planned.commented.slice found.source
      = (Comment.ofReply found.style d.text a.planned.anchor).text) :
    let comment := Comment.ofReply found.style d.text a.planned.anchor
    (a.IsSkipped out.tokenizer c found ↔ Text.allBlank d.text = false ∧
      (a.planned.comments.length = 1 ∨ Text.occursIn Prompt.noChange.toList d.text = true)) ∧
    (Text.allBlank d.text = false → ¬ a.IsSkipped out.tokenizer c found →
      (c.judge = true → ∃ answer,
        .judged (Pass.update.question found.style out.tokenizer c a.planned comment) answer
          ∈ a.events out.tokenizer c .update found) ∧
      (c.judge = false → a.batch .update = Pass.update.edits a.planned comment)) ∧
    (a.planned.IsCommented found.source →
      weave found.source 0 (a.batch .update) = found.source) := by
  intro comment
  have hfits := FilePass.fits_of_mem_attempts out c .update file budget s found ha
  obtain ⟨lang, n, -, hof⟩ := FilePass.exists_node_of_mem_attempts hfound ha
  have hkept : a.IsSkipped out.tokenizer c found ↔ a.course = .kept d := by
    refine Attempt.isSkipped_iff.trans ⟨?_, fun hcourse => ⟨d, hcourse⟩⟩
    rintro ⟨d', hcourse⟩
    rw [hcourse] at hd ⊢
    exact congrArg Course.kept (Except.ok.inj hd)
  have hnone := Pass.comment?_eq_none_iff_of_slice_eq hof hequal
  refine ⟨?_, fun hblank hskipped => ?_, fun hcommented => ?_⟩
  · rw [hkept, Course.eq_kept_iff hfits hd, hnone]
  · rw [hkept, Course.eq_kept_iff hfits hd, and_iff_right hblank] at hskipped
    obtain ⟨made, hmade⟩ := Option.ne_none_iff_exists'.mp hskipped
    obtain rfl := Pass.eq_ofReply_of_comment?_eq_some hmade
    exact Attempt.asked_or_batch hfits hd hblank hmade
  · by_cases hbatch : a.batch .update = []
    · rw [hbatch]
      exact Text.dropBytes_zero found.source
    · rw [Course.batch_eq_edits hfits hd (Attempt.outcome_of_batch_ne_nil hbatch)]
      exact hcommented.weave_edits_of_eq hequal

end Files

/-! ## A class behind one line, and behind two -/

namespace ClassFile

def oneLine : ClassFile := ⟨"/// a\nclass A {}\n".toList, [comment 0 5], 6⟩

def plan (f : ClassFile) (pass : Pass) : FilePlan :=
  ⟨.slashes, f.source, [f.node].filterMap (Planned.ofNode? .slashes pass f.source)⟩

theorem ofPath_plan {f : ClassFile} {pass : Pass} {reply : Text}
    (hsource : Source.ofEntry path config.maxFileSize ((f.outside reply).find path f.source)
      = .ok f.source)
    (hmatched : (pass.rule .slashes config.request).search .csharp f.source f.tree
      = .ok [f.node]) :
    FilePlan.ofPath (f.outside reply) config pass path f.source = .ok (f.plan pass) := by
  exact FilePass.plan_of_search (f.outside reply) config pass path f.source ofPath?_path hsource
    hmatched

end ClassFile

open ClassFile

/-- A reply with the line that is there is skipped. -/
theorem update_skips_equal_comment_of_one_line :
    FilePlan.ofPath (oneLine.outside "/// a".toList) config .update path oneLine.source
        = .ok (oneLine.plan .update) ∧
      ∃ a ∈ FilePass.attempts (oneLine.outside "/// a".toList) config .update path (.fresh none)
          (.start oneLine.source) (oneLine.plan .update),
        a.course.drafted = .ok ⟨"/// a".toList, .zero⟩ ∧
        a.planned.commented.slice oneLine.source
          = (Comment.ofReply .slashes "/// a".toList a.planned.anchor).text ∧
        a.IsSkipped .estimate config (oneLine.plan .update) := by
  have hfound : FilePlan.ofPath (oneLine.outside "/// a".toList) config .update path oneLine.source
      = .ok (oneLine.plan .update) := ofPath_plan rfl (search_of_filter rfl)
  obtain ⟨a, ha⟩ : ∃ a, FilePass.attempts (oneLine.outside "/// a".toList) config .update path
      (.fresh none) (.start oneLine.source) (oneLine.plan .update) = [a] := ⟨_, rfl⟩
  have hmem := List.mem_singleton_self a
  rw [← ha] at hmem
  have hdrafted : a.course.drafted = .ok ⟨"/// a".toList, .zero⟩ := by
    cases ha
    rfl
  have hequal : a.planned.commented.slice oneLine.source
      = (Comment.ofReply .slashes "/// a".toList a.planned.anchor).text := by
    cases ha
    rfl
  have hone : a.planned.comments.length = 1 := by
    cases ha
    rfl
  obtain ⟨hskipped, -⟩ := update_skips_equal_comment_iff hfound hmem hdrafted hequal
  exact ⟨hfound, a, hmem, hdrafted, hequal, hskipped.mpr ⟨by decide, .inl hone⟩⟩

/-- A reply with the two lines that are there is an edit, and charged. -/
theorem update_edits_equal_comment :
    FilePlan.ofPath (twoLines.outside "/// a\n/// b".toList) config .update path twoLines.source
        = .ok (twoLines.plan .update) ∧
      (∃ a, FilePass.attempts (twoLines.outside "/// a\n/// b".toList) config .update path
          (.fresh none) (.start twoLines.source) (twoLines.plan .update) = [a] ∧
        a.planned.commented.slice twoLines.source
          = (Comment.ofReply .slashes "/// a\n/// b".toList a.planned.anchor).text ∧
        ¬ a.IsSkipped .estimate config (twoLines.plan .update)) ∧
      (∃ r, (twoLines.update "/// a\n/// b".toList).result = .ok r ∧ r.updated = 1 ∧
        r.skipped = 0) ∧
      (twoLines.update "/// a\n/// b".toList).budget.used = 1 := by
  have hfound : FilePlan.ofPath (twoLines.outside "/// a\n/// b".toList) config .update path
      twoLines.source = .ok (twoLines.plan .update) := ofPath_plan rfl (search_of_filter rfl)
  have hdiff : (Diff.unified? twoLines.source twoLines.source).isSome = true := by cbv
  have hshown : ((⟨[⟨⟨0, 5⟩, "/// a\n/// b".toList⟩, ⟨⟨5, 11⟩, []⟩]⟩ : Changeset).commit
      twoLines.source).toOption.isSome = true :=
    Changeset.isSome_commit_of_inOrder (by decide) (by decide) rfl hdiff
  obtain ⟨diff, hresult, hused⟩ := FilePass.exists_result_of_shown _ _ _ _ (.fresh none)
    (.start twoLines.source) hfound hshown fun _ _ _ => rfl
  refine ⟨hfound, ⟨_, rfl, rfl, fun hskipped => ?_⟩, ⟨_, hresult, rfl, rfl⟩, hused⟩
  obtain ⟨d, hkept⟩ := Attempt.isSkipped_iff.mp hskipped
  cases hkept

end DocComments
