import DocComments.Proofs.Comment.Fence
import DocComments.Proofs.Run.Unchanged

/-!
# Replies with nothing behind the fence

A pass gives a declaration up when the reply is blank. A fence around blanks is no blank reply: it
is made into the comment without a text that the style has, and that comment is treated like any
other (`hollow_reply_given_up_iff`).
-/

set_option autoImplicit false

namespace DocComments

namespace PassReport

theorem failed_countRefused (r : PassReport) : r.countRefused.failed = r.failed := by
  unfold countRefused
  split <;> rfl

end PassReport

namespace Attempt

variable {c : Config} {pass : Pass} {found : FilePlan} {tk : Tokenizer} {a : Attempt}

/-- The declaration is given up: there are no edits for it, what is staged stays as it is, and it is
counted as failed. -/
structure IsGivenUp (pass : Pass) (a : Attempt) : Prop where
  batch : a.batch pass = []
  changes : ∀ w : Staging, (w.take (a.treatment pass)).changes = w.changes
  failed : ∀ w : Staging, (w.take (a.treatment pass)).report.failed = w.report.failed + 1

theorem isGivenUp_iff : a.IsGivenUp pass ↔ (a.treatment pass).outcome = .failed := by
  constructor
  · intro h
    -- any staging shows what is counted, an empty one does
    have hfailed := h.failed (.start [] pass)
    unfold Staging.take at hfailed
    cases houtcome : (a.treatment pass).outcome with
    | accepted batch => exact absurd h.batch (batch_ne_nil houtcome)
    | refused =>
      simp only [houtcome, PassReport.failed_countRefused] at hfailed
      exact absurd hfailed (Nat.ne_of_lt (Nat.lt_succ_self _))
    | unchanged =>
      simp only [houtcome] at hfailed
      exact absurd hfailed (Nat.ne_of_lt (Nat.lt_succ_self _))
    | failed => rfl
  · intro h
    refine ⟨by rw [Attempt.batch, h], fun w => ?_, fun w => ?_⟩
    · rw [Staging.take, h]
    · rw [Staging.take, h]
      rfl

/-- Where there is a draft, a declaration is given up if the draft is blank or the judge does not
answer. -/
theorem isGivenUp_iff_of_drafted {d : Draft} (hfits : a.course.Fits found.style c pass a.planned)
    (hd : a.course.drafted = .ok d) :
    a.IsGivenUp pass ↔ Text.allBlank d.text = true ∨
      ∃ q e, .judged q (.error e) ∈ a.events tk c pass found := by
  rw [isGivenUp_iff, treatment, Course.outcome_eq_failed_iff]
  constructor
  · rintro (⟨e, hcourse⟩ | ⟨d', hcourse⟩ | ⟨d', comment, e, hcourse⟩)
    · rw [hcourse] at hd
      cases hd
    · rw [hcourse] at hd hfits
      obtain rfl := Except.ok.inj hd
      exact .inl hfits
    · refine .inr ⟨pass.question found.style tk c a.planned comment, e, ?_⟩
      rw [events, hcourse]
      exact List.mem_cons_of_mem _ (List.mem_singleton_self _)
  · rintro (hblank | ⟨q, e, hasked⟩)
    · exact .inr (.inl ⟨d, (Course.eq_blank_iff hfits hd).mpr hblank⟩)
    · obtain ⟨d', comment, hcourse⟩ := course_of_judged_mem_events hasked
      exact .inr (.inr ⟨d', comment, e, hcourse⟩)

end Attempt

section Files

variable {σ : Type} {out : Outside σ} {c : Config} {pass : Pass} {file : Path} {budget : Budget}
  {s : Session σ} {found : FilePlan}

/-- A draft that is blank once it is trimmed and its fence taken away: it is blank itself, or it is
a fence around blanks. The declaration is given up for a blank draft, about which no judge is asked,
or because a judge does not answer. In all other cases the comment without a text is treated like
any other: a judge is asked about it if there is one, and else its edits are to be staged. -/
theorem hollow_reply_given_up_iff {a : Attempt}
    (ha : a ∈ FilePass.attempts out c pass file budget s found) {d : Draft}
    (hd : a.course.drafted = .ok d) (hstrip : Text.allBlank (Fence.strip d.text) = true) :
    let comment := Comment.ofReply found.style d.text a.planned.anchor
    comment.text = found.style.emptyComment a.planned.anchor.indent ∧
    (Text.allBlank d.text = true ∨ Fence.IsHollow (Text.trim d.text)) ∧
    (a.IsGivenUp pass ↔ Text.allBlank d.text = true ∨
      ∃ q e, .judged q (.error e) ∈ a.events out.tokenizer c pass found) ∧
    (Text.allBlank d.text = true → ∀ q answer,
      .judged q answer ∉ a.events out.tokenizer c pass found) ∧
    (Text.allBlank d.text = false → pass.comment? found.style a.planned d.text = some comment →
      (c.judge = true → ∃ answer,
        .judged (pass.question found.style out.tokenizer c a.planned comment) answer
          ∈ a.events out.tokenizer c pass found) ∧
      (c.judge = false → a.batch pass = pass.edits a.planned comment)) := by
  intro comment
  have hfits := FilePass.fits_of_mem_attempts out c pass file budget s found ha
  have hnil := Fence.strip_eq_nil_iff_allBlank.mpr hstrip
  refine ⟨Comment.text_ofReply_of_strip_eq_nil hnil found.style a.planned.anchor,
    Fence.strip_eq_nil_iff.mp hnil, Attempt.isGivenUp_iff_of_drafted hfits hd, ?_,
    fun hblank hcomment => Attempt.asked_or_batch hfits hd hblank hcomment⟩
  intro hblank q answer hasked
  obtain ⟨d', made, hjudged⟩ := Attempt.course_of_judged_mem_events hasked
  cases ((Course.eq_blank_iff hfits hd).mpr hblank).symm.trans hjudged

end Files

/-! ## A class and an empty fence -/

namespace ClassFile

def bare : ClassFile := ⟨"class A {}\n".toList, [], 0⟩

def emptyFence : Text := Fence.mark ++ ['\n'] ++ Fence.mark

theorem ofPath_bare :
    FilePlan.ofPath (bare.outside emptyFence) config .missing path bare.source
      = .ok (bare.plan .missing) := ofPath_plan rfl (search_bare_of_filter rfl)

end ClassFile

open ClassFile

/-- The fence makes a comment without a text, which is not given up. -/
theorem hollow_reply_given_up_iff_of_bare :
    ∃ a ∈ FilePass.attempts (bare.outside emptyFence) config .missing path (.fresh none)
        (.start bare.source) (bare.plan .missing),
      a.course.drafted = .ok ⟨emptyFence, .zero⟩ ∧
      Text.allBlank (Fence.strip emptyFence) = true ∧ ¬ a.IsGivenUp .missing := by
  obtain ⟨a, ha⟩ : ∃ a, FilePass.attempts (bare.outside emptyFence) config .missing path
      (.fresh none) (.start bare.source) (bare.plan .missing) = [a] := ⟨_, rfl⟩
  have hmem := List.mem_singleton_self a
  rw [← ha] at hmem
  have hdrafted : a.course.drafted = .ok ⟨emptyFence, .zero⟩ := by
    cases ha
    rfl
  have hstrip : Text.allBlank (Fence.strip emptyFence) = true := by decide
  obtain ⟨-, -, hgivenUp, -, -⟩ := hollow_reply_given_up_iff hmem hdrafted hstrip
  refine ⟨a, hmem, hdrafted, hstrip, fun h => ?_⟩
  rcases hgivenUp.mp h with hblank | ⟨q, e, hasked⟩
  · exact absurd hblank (by decide)
  · cases ha
    obtain ⟨d, comment, hcourse⟩ := Attempt.course_of_judged_mem_events hasked
    cases hcourse

/-- The fence brings an empty line into the file. -/
theorem hollow_reply_is_edit :
    Text.allBlank (Fence.strip emptyFence) = true ∧
      FilePlan.ofPath (bare.outside emptyFence) config .missing path bare.source
        = .ok (bare.plan .missing) ∧
      (∃ a, FilePass.attempts (bare.outside emptyFence) config .missing path (.fresh none)
          (.start bare.source) (bare.plan .missing) = [a] ∧
        a.course.drafted = .ok ⟨emptyFence, .zero⟩ ∧
        a.batch .missing = [⟨⟨0, 0⟩, ['\n']⟩]) ∧
      ∃ r, (FilePass.ofPath (bare.outside emptyFence) config .missing path (.fresh none)
        (.start bare.source)).result = .ok r ∧ r.generated = 1 ∧ r.failed = 0 := by
  have hdiff : (Diff.unified? bare.source "\nclass A {}\n".toList).isSome = true := by cbv
  have hshown : ((⟨[⟨⟨0, 0⟩, ['\n']⟩]⟩ : Changeset).commit bare.source).toOption.isSome = true :=
    Changeset.isSome_commit_of_inOrder (by decide) (by decide) rfl hdiff
  obtain ⟨diff, hresult, -⟩ := FilePass.exists_result_of_shown _ _ _ _ (.fresh none)
    (.start bare.source) ofPath_bare hshown fun _ _ _ => rfl
  exact ⟨by decide, ofPath_bare, ⟨_, rfl, rfl, rfl⟩, _, hresult, rfl, rfl⟩

end DocComments
