import DocComments.Proofs.Prompt.Fixed
import DocComments.Proofs.Run.Course
import DocComments.Proofs.Run.Staged

/-!
# What a report accounts for

Each declaration that a pass treats is counted once, by one of the counters of the pass
(`PassReport.Accounts`): every outcome adds one, also where the edits collide with those that are
staged (`Staging.accounts_take`). `FilePass.pass_accounts_for_attempts` puts the counters beside the
journal of the pass and ties what is staged to the verdicts in it: where a judge is asked, the edits
of an attempt are staged only if the judge was shown the comment that they bring in and let it
through.
-/

set_option autoImplicit false

namespace DocComments

/-! ## Counters -/

namespace PassReport

/-- The counters of the pass count so many declarations, and the other counters of outcomes none. -/
def Accounts (r : PassReport) (number : Nat) : Prop :=
  match r.pass with
  | .missing =>
    r.generated + r.refused + r.failed = number ∧ r.updated = 0 ∧ r.nits = 0 ∧ r.skipped = 0
  | .update =>
    r.updated + r.nits + r.skipped + r.failed = number ∧ r.generated = 0 ∧ r.refused = 0

namespace Accounts

theorem start (file : Path) (pass : Pass) : (PassReport.start file pass).Accounts 0 := by
  cases pass with
  | missing => exact ⟨rfl, rfl, rfl, rfl⟩
  | update => exact ⟨rfl, rfl, rfl⟩

variable {r : PassReport} {number : Nat} (h : r.Accounts number)

include h

theorem charge (t : Treatment) : (r.charge t).Accounts number := h

theorem countAccepted : r.countAccepted.Accounts (number + 1) := by
  cases hpass : r.pass <;>
    simp only [Accounts, PassReport.countAccepted, hpass] at h ⊢ <;> omega

theorem countRefused : r.countRefused.Accounts (number + 1) := by
  cases hpass : r.pass <;>
    simp only [Accounts, PassReport.countRefused, hpass] at h ⊢ <;> omega

theorem countFailed : r.countFailed.Accounts (number + 1) := by
  cases hpass : r.pass <;>
    simp only [Accounts, PassReport.countFailed, hpass] at h ⊢ <;> omega

/-- Only an update counts comments that stay. -/
theorem countUnchanged (hpass : r.pass = .update) : r.countUnchanged.Accounts (number + 1) := by
  simp only [Accounts, PassReport.countUnchanged, hpass] at h ⊢
  omega

end Accounts

end PassReport

namespace Staging

/-- One more declaration is counted, whatever became of it. -/
theorem accounts_take {w : Staging} {number : Nat} (h : w.report.Accounts number) {t : Treatment}
    (hkept : t.outcome = .unchanged → w.report.pass = .update) :
    (w.take t).report.Accounts (number + 1) := by
  unfold take
  cases houtcome : t.outcome with
  | refused => exact (h.charge t).countRefused
  | unchanged => exact (h.charge t).countUnchanged (hkept houtcome)
  | failed => exact (h.charge t).countFailed
  | accepted batch =>
    dsimp only
    cases w.changes.stage batch with
    | ok changes => exact (h.charge t).countAccepted
    | error e => exact (h.charge t).countFailed

theorem accounts_foldl_take {w : Staging} {number : Nat} (h : w.report.Accounts number)
    {ts : List Treatment} (hkept : ∀ t ∈ ts, t.outcome = .unchanged → w.report.pass = .update) :
    (ts.foldl take w).report.Accounts (number + ts.length) := by
  induction ts generalizing w number with
  | nil => exact h
  | cons t ts ih =>
    have hsame := (take_same w t).1
    rw [List.foldl_cons, List.length_cons, Nat.add_comm ts.length, ← Nat.add_assoc]
    refine ih (accounts_take h (hkept t List.mem_cons_self)) fun x hx hunchanged => ?_
    rw [hsame]
    exact hkept x (List.mem_cons_of_mem t hx) hunchanged

theorem pass_foldl_take (w : Staging) (ts : List Treatment) :
    (ts.foldl take w).report.pass = w.report.pass := by
  induction ts generalizing w with
  | nil => rfl
  | cons t ts ih => rw [List.foldl_cons, ih, (take_same w t).1]

end Staging

/-! ## Verdicts -/

def Pass.shown (pass : Pass) (style : CommentStyle) (comment : Comment) : Excerpt :=
  match pass with
  | .missing => ⟨"COMMENT", style.fence, comment.text⟩
  | .update => ⟨"NEW_COMMENT", style.fence, comment.text⟩

/-- A question holds the whole comment, however few tokens there are. -/
theorem Pass.infix_question (pass : Pass) (style : CommentStyle) (tk : Tokenizer) (c : Config)
    (p : Planned) (comment : Comment) :
    (pass.shown style comment).render <:+: (pass.question style tk c p comment).prompt := by
  have hmem : Section.excerpt (pass.shown style comment) .high
      ∈ pass.judgePrompt style p comment := by
    cases pass with
    | missing => exact List.mem_cons_of_mem _ List.mem_cons_self
    | update => exact List.mem_cons_of_mem _ (List.mem_cons_of_mem _ List.mem_cons_self)
  simpa only [question, Section.render] using
    Prompt.infix_render_of_mem tk c.maxContextTokens hmem rfl

namespace Attempt

variable {c : Config} {pass : Pass} {found : FilePlan} {tk : Tokenizer} {a : Attempt}

/-- The edits that are to be staged, if there are some. -/
def batch (pass : Pass) (a : Attempt) : List Edit :=
  match (a.treatment pass).outcome with
  | .accepted batch => batch
  | _ => []

/-- A judge was shown a comment and let it through, and the edits are those that bring it in. -/
def IsApproved (tk : Tokenizer) (c : Config) (pass : Pass) (found : FilePlan) (a : Attempt) :
    Prop :=
  ∃ comment v,
    .judged (pass.question found.style tk c a.planned comment) (.ok v) ∈ a.events tk c pass found ∧
    (pass.shown found.style comment).render
      <:+: (pass.question found.style tk c a.planned comment).prompt ∧
    v.label = some pass.labels.accepting ∧ a.batch pass = pass.edits a.planned comment

theorem edits_ne_nil (pass : Pass) (p : Planned) (comment : Comment) :
    pass.edits p comment ≠ [] := by
  cases pass <;> simp [Pass.edits]

theorem batch_of_outcome {batch : List Edit} (h : (a.treatment pass).outcome = .accepted batch) :
    a.batch pass = batch := by
  rw [Attempt.batch, h]

/-- A comment that passes comes with edits. -/
theorem batch_ne_nil {edits : List Edit} (h : (a.treatment pass).outcome = .accepted edits) :
    a.batch pass ≠ [] := by
  obtain ⟨d, comment, rfl, -⟩ := Course.outcome_eq_accepted_iff.mp h
  rw [batch_of_outcome h]
  exact edits_ne_nil pass a.planned comment

theorem outcome_of_batch_ne_nil (h : a.batch pass ≠ []) :
    (a.treatment pass).outcome = .accepted (a.batch pass) := by
  unfold batch at h ⊢
  split at h
  · assumption
  · exact absurd rfl h

/-- Where a judge is asked, only what it lets through has edits. -/
theorem isApproved_iff (hjudge : c.judge = true)
    (hfits : a.course.Fits found.style c pass a.planned) :
    a.IsApproved tk c pass found ↔ a.batch pass ≠ [] := by
  constructor
  · rintro ⟨comment, v, -, -, -, hbatch⟩
    rw [hbatch]
    exact edits_ne_nil pass a.planned comment
  · intro h
    obtain ⟨d, comment, hbatch, hcourse | ⟨v, hcourse, hlabel⟩⟩ :=
      Course.outcome_eq_accepted_iff.mp (outcome_of_batch_ne_nil h)
    · rw [hcourse] at hfits
      cases hjudge.symm.trans hfits.2.2
    · refine ⟨comment, v, ?_, pass.infix_question found.style tk c a.planned comment, hlabel,
        hbatch⟩
      rw [events, hcourse]
      exact List.mem_cons_of_mem _ (List.mem_singleton_self _)

/-- A judge is asked about the comment that a draft makes; without a judge its edits are to be
staged. -/
theorem asked_or_batch {d : Draft} {comment : Comment}
    (hfits : a.course.Fits found.style c pass a.planned) (hd : a.course.drafted = .ok d)
    (hblank : Text.allBlank d.text = false)
    (hcomment : pass.comment? found.style a.planned d.text = some comment) :
    (c.judge = true → ∃ answer, .judged (pass.question found.style tk c a.planned comment) answer
      ∈ a.events tk c pass found) ∧
    (c.judge = false → a.batch pass = pass.edits a.planned comment) := by
  rcases Course.unjudged_or_judged hfits hd hblank hcomment with
    ⟨hjudge, hcourse⟩ | ⟨hjudge, answer, hcourse⟩
  · refine ⟨fun hyes => (by cases hjudge.symm.trans hyes), fun _ => batch_of_outcome ?_⟩
    rw [treatment, hcourse]
    rfl
  · refine ⟨fun _ => ⟨answer, ?_⟩, fun hno => (by cases hjudge.symm.trans hno)⟩
    rw [events, hcourse]
    exact List.mem_cons_of_mem _ (List.mem_singleton_self _)

theorem course_of_judged_mem_events {q : Question} {answer : Except ModelError Verdict}
    (h : .judged q answer ∈ a.events tk c pass found) :
    ∃ d comment, a.course = .judged d comment answer := by
  rw [events, Course.events, List.mem_cons] at h
  rcases h with h | h
  · cases h
  · cases hcourse : a.course with
    | judged d comment given =>
      rw [hcourse, Course.verdicts, List.mem_singleton] at h
      cases h
      exact ⟨d, comment, rfl⟩
    | _ => simp [hcourse, Course.verdicts] at h

/-- An answer that is no verdict, has no label or another label leaves nothing to stage. -/
theorem batch_eq_nil_of_refused {q : Question} {answer : Except ModelError Verdict}
    (h : .judged q answer ∈ a.events tk c pass found)
    (hrefused : ∀ v, answer = .ok v → v.label ≠ some pass.labels.accepting) :
    a.batch pass = [] := by
  obtain ⟨d, comment, hcourse⟩ := course_of_judged_mem_events h
  rw [batch, treatment, hcourse]
  cases answer with
  | error e => rfl
  | ok v => rw [Course.treatment, if_neg (hrefused v rfl)]

/-- The pass that adds comments keeps none. -/
theorem pass_eq_update_of_unchanged (hfits : a.course.Fits found.style c pass a.planned)
    (h : (a.treatment pass).outcome = .unchanged) : pass = .update := by
  obtain ⟨d, hcourse⟩ := Course.outcome_eq_unchanged_iff.mp h
  rw [hcourse] at hfits
  cases pass with
  | missing => cases hfits.2
  | update => rfl

/-- What is staged are the edits of some attempts, in order. -/
theorem exists_staged (pass : Pass) (attempts : List Attempt) (w : Staging) :
    ∃ staged : List Attempt, staged.Sublist attempts ∧
      w.staged (attempts.map (treatment pass)) = staged.map (batch pass) ∧
      ∀ a ∈ staged, a.batch pass ≠ [] := by
  induction attempts generalizing w with
  | nil => exact ⟨[], .slnil, rfl, by simp⟩
  | cons a attempts ih =>
    obtain ⟨staged, hsublist, hbatches, hedits⟩ := ih (w.take (a.treatment pass))
    rw [List.map_cons, Staging.staged, hbatches]
    cases hbatch : w.batch? (a.treatment pass) with
    | none => exact ⟨staged, hsublist.cons a, rfl, hedits⟩
    | some batch =>
      have houtcome := Staging.outcome_of_batch?_eq_some hbatch
      refine ⟨a :: staged, hsublist.cons_cons a, ?_,
        List.forall_mem_cons.mpr ⟨batch_ne_nil houtcome, hedits⟩⟩
      rw [List.map_cons, batch_of_outcome houtcome]
      rfl

end Attempt

/-! ## Files -/

namespace Staging

variable {σ : Type} (out : Outside σ) (c : Config) (source : Text) (w : Staging) (s : Session σ)

/-- What a commit notes are the edits that it carries out. -/
theorem journal_commit :
    (w.commit out c source s).2.journal
      = s.journal ++ (w.committed source).map fun batch => .committed batch.1 batch.2 := by
  have hnone : s.journal = s.journal ++ [] := (List.append_nil _).symm
  unfold Staging.commit committed
  split
  · exact hnone
  · cases w.changes.commit source with
    | error e => cases e <;> exact hnone
    | ok r =>
      dsimp only
      split
      · rfl
      · split
        · split <;> next heq => exact congrArg (fun x => x.2.journal) heq.symm
        · rfl

end Staging

namespace FilePass

variable {σ : Type} (out : Outside σ) (c : Config) (pass : Pass) (file : Path) (budget : Budget)
  (s : Session σ)

def attempts (found : FilePlan) : List Attempt :=
  Treated.attempts out c found budget pass found.planned (.start file pass) s

section Planned

variable (found : FilePlan)

def treated : Treated σ :=
  Treated.ofPlanned out c found.style found.source budget found.planned (.start file pass) s

theorem fits_of_mem_attempts {a : Attempt} (ha : a ∈ attempts out c pass file budget s found) :
    a.course.Fits found.style c pass a.planned :=
  Treated.fits_of_mem_attempts out c found budget found.planned (w := .start file pass) rfl s ha

theorem planned_handled_start_eq :
    (Treated.handled out c found.style found.source budget found.planned (.start file pass) s).map
        Handled.planned
      = (attempts out c pass file budget s found).map Attempt.planned :=
  Treated.planned_handled_eq_attempts out c found budget found.planned rfl s

theorem planned_attempts_append_left :
    (attempts out c pass file budget s found).map Attempt.planned
      ++ (treated out c pass file budget s found).left = found.planned := by
  rw [← planned_handled_start_eq]
  exact planned_handled_start out c pass file budget s found

theorem staging_treated :
    (treated out c pass file budget s found).staging
      = ((attempts out c pass file budget s found).map (Attempt.treatment pass)).foldl Staging.take
          (.start file pass) := by
  have htreatments : _ = (attempts out c pass file budget s found).map (Attempt.treatment pass) :=
    Treated.treatments_handled out c found budget found.planned (w := .start file pass) rfl s
  rw [← htreatments]
  exact Treated.staging_ofPlanned found.planned (.start file pass) s

theorem accounts_treated :
    (treated out c pass file budget s found).staging.report.Accounts
      (attempts out c pass file budget s found).length := by
  have hkept : ∀ t ∈ (attempts out c pass file budget s found).map (Attempt.treatment pass),
      t.outcome = .unchanged → (Staging.start file pass).report.pass = .update := by
    intro t ht hunchanged
    obtain ⟨a, ha, rfl⟩ := List.mem_map.mp ht
    exact Attempt.pass_eq_update_of_unchanged
      (fits_of_mem_attempts out c pass file budget s found ha) hunchanged
  have h := Staging.accounts_foldl_take (PassReport.Accounts.start file pass) hkept
  rwa [← staging_treated, List.length_map, Nat.zero_add] at h

theorem pass_treated : (treated out c pass file budget s found).staging.report.pass = pass := by
  rw [staging_treated, Staging.pass_foldl_take]
  rfl

/-- What a pass leaves to be committed are the edits of some attempts, and it counts these
attempts. -/
theorem exists_staged_treated :
    ∃ staged : List Attempt, staged.Sublist (attempts out c pass file budget s found) ∧
      (treated out c pass file budget s found).staging.changes.edits
        = staged.flatMap (Attempt.batch pass) ∧
      (treated out c pass file budget s found).staging.report.edits = staged.length ∧
      ∀ a ∈ staged, a.batch pass ≠ [] := by
  obtain ⟨staged, hsublist, hbatches, hedits⟩ := Attempt.exists_staged pass
    (attempts out c pass file budget s found) (.start file pass)
  rw [staging_treated]
  refine ⟨staged, hsublist, ?_, ?_, hedits⟩
  · rw [Staging.edits_changes_foldl_take, hbatches, List.flatMap_def]
    rfl
  · rw [Staging.edits_foldl_take, ← Staging.length_staged, hbatches, List.length_map]
    exact Nat.zero_add _

variable {found} (h : FilePlan.ofPath out c pass file s.outside = .ok found)

include h

theorem since_ofPath :
    (ofPath out c pass file budget s).session.since s
      = (attempts out c pass file budget s found).flatMap
          (Attempt.events out.tokenizer c pass found)
        ++ ((treated out c pass file budget s found).staging.committed found.source).map
            fun batch => .committed batch.1 batch.2 := by
  rw [Session.since, ofPath_of_plan h, (ofPlan_eq out c pass file found budget s rfl).2,
    Staging.journal_commit, Treated.journal_ofPlanned out c found budget found.planned rfl s,
    List.append_assoc, List.drop_left]
  rfl

theorem requests_since_ofPath :
    ((ofPath out c pass file budget s).session.since s).filterMap Event.request?
      = (attempts out c pass file budget s found).map fun a =>
          pass.draftRequest found.style c found.source a.planned := by
  have hplanned := planned_handled_start_eq out c pass file budget s found
  have hrequests := congrArg (List.map (pass.draftRequest found.style c found.source)) hplanned
  rw [List.map_map, List.map_map] at hrequests
  rw [(adds_ofPath out c pass file budget s).asked, asked, h]
  exact hrequests

/-- No declaration is left out unless the budget says so. -/
theorem planned_attempts_of_hit
    (hhit : (ofPath out c pass file budget s).budget.hit = false) :
    (attempts out c pass file budget s found).map Attempt.planned = found.planned := by
  have hleft : (treated out c pass file budget s found).left = [] := by
    -- a declaration that is left over was not asked about, and that sets the flag
    by_contra hleft
    have hasked := (asked_lt_iff out c pass file budget s h).mpr hleft
    rw [(hit_ofPath out c pass file budget s).mpr (.inr hasked)] at hhit
    cases hhit
  have hplanned := planned_attempts_append_left out c pass file budget s found
  rwa [hleft, List.append_nil] at hplanned

/-- A report that comes out of the commit has the numbers that it had before. -/
theorem exists_diff_of_ofPath_eq_ok {r : PassReport}
    (hr : (ofPath out c pass file budget s).result = .ok r) :
    ∃ diff, r = { (treated out c pass file budget s found).staging.report with diff := diff } := by
  rw [ofPath_of_plan h, (ofPlan_eq out c pass file found budget s rfl).1] at hr
  exact Staging.exists_diff_of_commit_eq_ok hr

/-- What is staged and can be shown is committed and charged, if the file can be written. -/
theorem exists_result_of_shown
    (hshown : ((treated out c pass file budget s found).staging.changes.commit
      found.source).toOption.isSome = true)
    (hwrites : ∀ file t s, (out.write file t s).1 = .ok ()) :
    ∃ diff, (ofPath out c pass file budget s).result
        = .ok { (treated out c pass file budget s found).staging.report with diff := diff } ∧
      (ofPath out c pass file budget s).budget.used
        = budget.used + (treated out c pass file budget s found).staging.report.edits := by
  cases hresult : (ofPath out c pass file budget s).result with
  | error e =>
    rw [ofPath_of_plan h, (ofPlan_eq out c pass file found budget s rfl).1] at hresult
    rcases Staging.commit_eq_error hresult with ⟨x, hbad, -⟩ | ⟨hnone, -⟩ | ⟨r, x, -, hunwritten, -⟩
    · simp [treated, hbad, Except.toOption] at hshown
    · simp [treated, hnone, Except.toOption] at hshown
    · rw [hwrites] at hunwritten
      cases hunwritten
  | ok r =>
    obtain ⟨diff, rfl⟩ := exists_diff_of_ofPath_eq_ok out c pass file budget s h hresult
    obtain ⟨hedits, hused⟩ := (charges_ofPath out c pass file budget s).used_of_ok _ hresult
    exact ⟨diff, rfl, hused.trans (congrArg _ hedits.symm)⟩

end Planned

/-- A pass asks for a draft for each attempt that it makes, and makes one for each planned
declaration in order until the budget ends. If it comes to a report, every attempt is counted in it
once, by a counter of the pass. What is staged are the edits of attempts, as many as the report has
edits; if a judge is asked, it was shown the comments that they bring in and let them through, and
there are no edits for an attempt with another answer. -/
theorem pass_accounts_for_attempts :
    (∃ e, FilePlan.ofPath out c pass file s.outside = .error e ∧
      ofPath out c pass file budget s = ⟨.error e, budget, s⟩) ∨
    ∃ found, FilePlan.ofPath out c pass file s.outside = .ok found ∧
      let done := ofPath out c pass file budget s
      let staging := (treated out c pass file budget s found).staging
      let attempts := attempts out c pass file budget s found
      let sent := (done.session.since s).filterMap Event.request?
      done.session.since s
        = attempts.flatMap (Attempt.events out.tokenizer c pass found)
          ++ (staging.committed found.source).map (fun batch => .committed batch.1 batch.2) ∧
      sent = attempts.map (fun a => pass.draftRequest found.style c found.source a.planned) ∧
      attempts.map Attempt.planned <+: found.planned ∧
      (done.budget.hit = false → attempts.map Attempt.planned = found.planned) ∧
      (∀ r, done.result = .ok r → r.pass = pass ∧ r.Accounts sent.length) ∧
      ∃ staged : List Attempt, staged.Sublist attempts ∧
        staging.changes.edits = staged.flatMap (Attempt.batch pass) ∧
        (∀ r, done.result = .ok r → r.edits = staged.length) ∧
        (c.judge = true → ∀ a ∈ staged, a.IsApproved out.tokenizer c pass found) ∧
        ∀ a ∈ attempts, ∀ q answer, .judged q answer ∈ a.events out.tokenizer c pass found →
          (∀ v, answer = .ok v → v.label ≠ some pass.labels.accepting) →
          a.batch pass = [] ∧ a ∉ staged := by
  cases h : FilePlan.ofPath out c pass file s.outside with
  | error e => exact .inl ⟨e, rfl, by rw [ofPath, h]⟩
  | ok found =>
    refine .inr ⟨found, rfl, ?_⟩
    obtain ⟨staged, hsublist, hstaged, hnumber, hedits⟩ :=
      exists_staged_treated out c pass file budget s found
    refine ⟨since_ofPath out c pass file budget s h,
      requests_since_ofPath out c pass file budget s h, ?_,
      planned_attempts_of_hit out c pass file budget s h, ?_, staged, hsublist, hstaged, ?_, ?_, ?_⟩
    · rw [← planned_attempts_append_left out c pass file budget s found]
      exact List.prefix_append _ _
    · intro r hr
      obtain ⟨diff, rfl⟩ := exists_diff_of_ofPath_eq_ok out c pass file budget s h hr
      refine ⟨pass_treated out c pass file budget s found, ?_⟩
      rw [requests_since_ofPath out c pass file budget s h, List.length_map]
      exact accounts_treated out c pass file budget s found
    · intro r hr
      obtain ⟨diff, rfl⟩ := exists_diff_of_ofPath_eq_ok out c pass file budget s h hr
      exact hnumber
    · intro hjudge a ha
      have hfits := fits_of_mem_attempts out c pass file budget s found (hsublist.subset ha)
      exact (Attempt.isApproved_iff hjudge hfits).mpr (hedits a ha)
    · intro a ha q answer hasked hrefused
      have hnone := Attempt.batch_eq_nil_of_refused hasked hrefused
      exact ⟨hnone, fun hstaged => hedits a hstaged hnone⟩

end FilePass

/-! ## A class behind two lines, and a judge without an opinion -/

namespace ClassFile

/-- The file with a model that answers no question with a label. -/
def undecided (f : ClassFile) (reply : Text) : Outside Text :=
  { f.outside reply with
    models := { (f.outside reply).models with
      judge := fun _ content => (.ok ⟨none, [], .zero⟩, content) } }

def judging : Config := { config with judge := true }

end ClassFile

open ClassFile

/-- The class is counted once, although nothing is staged for it. -/
theorem pass_accounts_for_attempts_of_two_lines :
    judging.judge = true ∧ ∃ r, (FilePass.ofPath (twoLines.undecided "/// c".toList) judging .update
      path (.fresh none) (.start twoLines.source)).result = .ok r ∧ r.Accounts 1 ∧ r.nits = 1 := by
  have hsource : Source.ofEntry path judging.maxFileSize
      ((twoLines.undecided "/// c".toList).find path twoLines.source) = .ok twoLines.source := by
    rfl
  have hmatched : (Pass.update.rule .slashes judging.request).search .csharp twoLines.source
      twoLines.tree = .ok [twoLines.node] := search_of_filter rfl
  have hplan := FilePass.plan_of_search (twoLines.undecided "/// c".toList) judging .update path
    twoLines.source ofPath?_path hsource hmatched
  have hpass := FilePass.ofPath_of_search (twoLines.undecided "/// c".toList) judging .update path
    (.fresh none) (.start twoLines.source) ofPath?_path hsource hmatched
  obtain ⟨e, herror, -⟩ | ⟨found, hfound, -, hsent, -, hall, hreport, -⟩ :=
    FilePass.pass_accounts_for_attempts (twoLines.undecided "/// c".toList) judging .update path
      (.fresh none) (.start twoLines.source)
  · cases hplan.symm.trans herror
  · obtain rfl := Except.ok.inj (hplan.symm.trans hfound)
    have hhit := congrArg (fun done => done.budget.hit) hpass
    have hresult := congrArg FilePass.result hpass
    have hlength := congrArg List.length hsent
    rw [List.length_map, ← List.length_map (f := Attempt.planned), hall hhit] at hlength
    obtain ⟨-, hcounts⟩ := hreport _ hresult
    rw [hlength] at hcounts
    exact ⟨rfl, _, hresult, hcounts, rfl⟩

end DocComments
