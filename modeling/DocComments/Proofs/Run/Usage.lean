import DocComments.Proofs.Run.Account
import DocComments.Proofs.Run.Exhaustion
import DocComments.Proofs.Run.Hollow
import Mathlib.Algebra.Order.BigOperators.Group.List
import Mathlib.Algebra.Order.Monoid.Prod
import Mathlib.Algebra.Order.Ring.Nat

/-!
# The tokens of a run

The journal of a run holds every answer of a model with its tokens (`Event.spent`). The report of a
pass has the tokens of all its calls, whatever became of the drafts
(`FilePass.tokens_eq_spent`). A pass that comes to nothing leaves no report: its tokens are in the
journal and in no total (`Progress.tokens_work`). `run_tokens_eq_iff` says what the totals of a run
miss, and when they miss nothing.
-/

set_option autoImplicit false

namespace DocComments

/-! ## Calls -/

namespace Event

/-- The tokens of a draft that came, and those of a verdict that came. -/
def tokens : Event → Nat × Nat
  | .drafted _ (.ok d) => (d.usage.tokens, 0)
  | .judged _ (.ok v) => (0, v.usage.tokens)
  | _ => 0

def spent (events : List Event) : Nat × Nat := (events.map tokens).sum

theorem spent_append (events more : List Event) :
    spent (events ++ more) = spent events + spent more := by
  rw [spent, List.map_append, List.sum_append]
  rfl

theorem spent_flatMap {α : Type} (f : α → List Event) (as : List α) :
    spent (as.flatMap f) = (as.map fun a => spent (f a)).sum := by
  induction as with
  | nil => rfl
  | cons a as ih => rw [List.flatMap_cons, spent_append, ih, List.map_cons, List.sum_cons]

/-- A commit asks no model. -/
theorem spent_committed (batches : List (Path × List Edit)) :
    spent (batches.map fun batch => .committed batch.1 batch.2) = 0 := by
  induction batches with
  | nil => rfl
  | cons batch batches ih =>
    rw [List.map_cons, spent, List.map_cons, List.sum_cons]
    exact (zero_add _).trans ih

end Event

def Treatment.tokens (t : Treatment) : Nat × Nat := (t.drafting.tokens, t.judging.tokens)

/-- What became of a declaration comes with the tokens of its calls, also where nothing comes of
them. -/
theorem Course.tokens_treatment (pass : Pass) (p : Planned) (request : DraftRequest)
    (question : Comment → Question) (k : Course) :
    (k.treatment pass p).tokens = Event.spent (k.events request question) := by
  have hdrafted : ∀ d : Draft, (d.usage.tokens, 0) = Event.spent [.drafted request (.ok d)] :=
    fun d => (add_zero _).symm
  cases k with
  | undrafted e => rfl
  | blank d => exact hdrafted d
  | kept d => exact hdrafted d
  | unjudged d comment => exact hdrafted d
  | judged d comment answer =>
    cases answer with
    | error e => exact hdrafted d
    | ok v =>
      -- the label decides about the comment, not about the tokens
      have hboth : (d.usage.tokens, v.usage.tokens) = Event.spent
          [.drafted request (.ok d), .judged (question comment) (.ok v)] := by
        simp [Event.spent, Event.tokens]
      rw [treatment]
      split
      · exact hboth
      · exact hboth

/-! ## Passes -/

namespace PassReport

def tokens (r : PassReport) : Nat × Nat := (r.drafting.tokens, r.judging.tokens)

theorem tokens_charge (r : PassReport) (t : Treatment) :
    (r.charge t).tokens = r.tokens + t.tokens := rfl

theorem tokens_countAccepted (r : PassReport) : r.countAccepted.tokens = r.tokens := by
  unfold countAccepted
  split <;> rfl

theorem tokens_countRefused (r : PassReport) : r.countRefused.tokens = r.tokens := by
  unfold countRefused
  split <;> rfl

theorem tokens_absorb (r other : PassReport) : (r.absorb other).tokens = r.tokens + other.tokens :=
  rfl

end PassReport

namespace Staging

/-- The tokens of a declaration are counted, whatever became of it. -/
theorem tokens_take (w : Staging) (t : Treatment) :
    (w.take t).report.tokens = w.report.tokens + t.tokens := by
  unfold take
  cases t.outcome with
  | refused => exact (PassReport.tokens_countRefused _).trans (PassReport.tokens_charge _ t)
  | unchanged => exact PassReport.tokens_charge _ t
  | failed => exact PassReport.tokens_charge _ t
  | accepted batch =>
    dsimp only
    cases w.changes.stage batch with
    | ok changes => exact (PassReport.tokens_countAccepted _).trans (PassReport.tokens_charge _ t)
    | error e => exact PassReport.tokens_charge _ t

theorem tokens_foldl_take (w : Staging) (ts : List Treatment) :
    (ts.foldl take w).report.tokens = w.report.tokens + (ts.map Treatment.tokens).sum := by
  induction ts generalizing w with
  | nil => rfl
  | cons t ts ih => rw [List.foldl_cons, ih, tokens_take, List.map_cons, List.sum_cons, add_assoc]

end Staging

namespace FilePass

variable {σ : Type} (out : Outside σ) (c : Config) (pass : Pass) (file : Path) (budget : Budget)
  (s : Session σ)

theorem tokens_treated (found : FilePlan) :
    (treated out c pass file budget s found).staging.report.tokens
      = Event.spent ((attempts out c pass file budget s found).flatMap
          (Attempt.events out.tokenizer c pass found)) := by
  have hone : ∀ a : Attempt,
      (a.treatment pass).tokens = Event.spent (a.events out.tokenizer c pass found) :=
    fun a => Course.tokens_treatment pass a.planned _ _ a.course
  rw [staging_treated, Staging.tokens_foldl_take, List.map_map, Event.spent_flatMap]
  simp only [Function.comp_def, hone]
  exact zero_add _

/-- A file that cannot be planned costs nothing. -/
theorem spent_of_plan_eq_error {e : PassError}
    (h : FilePlan.ofPath out c pass file s.outside = .error e) :
    Event.spent ((ofPath out c pass file budget s).session.since s) = 0 := by
  have hnone : (ofPath out c pass file budget s).session.since s = [] := by
    rw [ofPath, h]
    exact List.drop_length
  rw [hnone]
  rfl

/-- A pass that comes to a report has reported the tokens of all its calls. -/
theorem tokens_eq_spent {r : PassReport} (hr : (ofPath out c pass file budget s).result = .ok r) :
    r.tokens = Event.spent ((ofPath out c pass file budget s).session.since s) := by
  cases h : FilePlan.ofPath out c pass file s.outside with
  | error e =>
    rw [ofPath, h] at hr
    cases hr
  | ok found =>
    obtain ⟨diff, rfl⟩ := exists_diff_of_ofPath_eq_ok out c pass file budget s h hr
    rw [since_ofPath out c pass file budget s h, Event.spent_append, Event.spent_committed,
      add_zero]
    exact tokens_treated out c pass file budget s found

end FilePass

/-! ## Runs -/

namespace RunReport

theorem tokens_foldl_absorb (r : PassReport) (passes : List PassReport) :
    (passes.foldl PassReport.absorb r).tokens
      = r.tokens + (passes.map PassReport.tokens).sum := by
  induction passes generalizing r with
  | nil => rfl
  | cons pass passes ih =>
    rw [List.foldl_cons, ih, PassReport.tokens_absorb, List.map_cons, List.sum_cons, add_assoc]

/-- The totals have the tokens of all reports. -/
theorem tokens_totals (r : RunReport) : r.totals.tokens = (r.passes.map PassReport.tokens).sum :=
  (tokens_foldl_absorb _ r.passes).trans (zero_add _)

end RunReport

namespace Visit

variable {σ : Type}

def tokens (v : Visit σ) : Nat × Nat := Event.spent v.events

/-- The tokens of the calls in a pass that comes to nothing. -/
def lost (v : Visit σ) : Nat × Nat := if v.failed then v.tokens else 0

theorem lost_eq_zero_iff {v : Visit σ} : v.lost = 0 ↔ (v.failed = true → v.tokens = 0) := by
  unfold lost
  split <;> simp [*]

end Visit

namespace Progress

variable {σ : Type} {out : Outside σ} {c : Config}

/-- What a pass spends is reported, or it is lost. -/
theorem tokens_take {job : Job} {p : Progress σ} {done : FilePass σ}
    (hdone : FilePass.ofPath out c job.pass job.file p.budget p.session = done) :
    (p.take job.file done).report.totals.tokens + Visit.lost ⟨job, p, .passed done⟩
      = p.report.totals.tokens + Visit.tokens ⟨job, p, .passed done⟩ := by
  rw [RunReport.tokens_totals, RunReport.tokens_totals]
  cases hresult : done.result with
  | error e =>
    have hfailed : Visit.failed ⟨job, p, .passed done⟩ = true := by
      simp [Visit.failed, hresult, Except.toBool]
    rw [Visit.lost, if_pos hfailed, take, hresult]
  | ok r =>
    have hreported : r.tokens = Visit.tokens ⟨job, p, .passed done⟩ := by
      subst hdone
      exact FilePass.tokens_eq_spent out c job.pass job.file p.budget p.session hresult
    have hfailed : ¬ Visit.failed ⟨job, p, .passed done⟩ = true := by
      simp [Visit.failed, hresult, Except.toBool]
    rw [Visit.lost, if_neg hfailed, take, hresult, List.map_append, List.sum_append, add_zero]
    exact congrArg _ ((add_zero _).trans hreported)

variable (out c) (failed : Option Path) (jobs : List Job) (p : Progress σ)

/-- What the passes of a run spend is reported, or it is lost. -/
theorem tokens_work :
    (work out c failed jobs p).report.totals.tokens
        + ((visits out c failed jobs p).map Visit.lost).sum
      = p.report.totals.tokens + ((visits out c failed jobs p).map Visit.tokens).sum := by
  refine induction_visits (motive := fun _ p vs q => q.report.totals.tokens
    + (vs.map Visit.lost).sum = p.report.totals.tokens + (vs.map Visit.tokens).sum) failed jobs p
      ?_ ?_ ?_ ?_ ?_
  · exact fun _ => rfl
  · intro job jobs p vs q ih
    rw [List.map_cons, List.map_cons, List.sum_cons, List.sum_cons]
    exact (congrArg _ (zero_add _)).trans (ih.trans (congrArg _ (zero_add _).symm))
  · intro jobs p _
    -- jobs in front of which the run stops have no calls
    have hnone : ∀ f : Visit σ → Nat × Nat, (∀ job, f ⟨job, p, .stopped⟩ = 0) →
        ((jobs.map fun job => (⟨job, p, .stopped⟩ : Visit σ)).map f).sum = 0 := by
      intro f hf
      rw [List.map_map]
      exact List.sum_eq_zero fun n hn => by
        obtain ⟨job, -, rfl⟩ := List.mem_map.mp hn
        exact hf job
    rw [hnone _ fun _ => rfl, hnone _ fun _ => rfl, stop]
    split <;> rfl
  · intro job jobs p done hdone _
    rw [List.map_singleton, List.map_singleton, List.sum_singleton, List.sum_singleton]
    exact tokens_take hdone
  · intro job jobs p done vs q hdone _ ih
    rw [List.map_cons, List.map_cons, List.sum_cons, List.sum_cons]
    calc q.report.totals.tokens + (Visit.lost ⟨job, p, .passed done⟩ + (vs.map Visit.lost).sum)
        = (p.take job.file done).report.totals.tokens + Visit.lost ⟨job, p, .passed done⟩
            + (vs.map Visit.tokens).sum := by rw [add_left_comm, ih, add_left_comm, add_assoc]
      _ = p.report.totals.tokens
            + (Visit.tokens ⟨job, p, .passed done⟩ + (vs.map Visit.tokens).sum) := by
        rw [tokens_take hdone, add_assoc]

end Progress

/-- The totals of a run have the tokens of all answers of the models but those that were given in
passes that came to nothing; such a pass had planned its file, which is reported as failed. So the
totals are those of all calls exactly if no pass with an answered call came to nothing. -/
theorem run_tokens_eq_iff {σ : Type} (out : Outside σ) (c : Config) (files : List Path) (s : σ)
    {r : Run σ} (hr : run out c files s = .ok r) :
    let visits := Progress.visits out c none (c.jobs files) (.start c s)
    r.report.totals.tokens + (visits.map Visit.lost).sum = Event.spent r.session.journal ∧
    (∀ v ∈ visits, v.lost ≠ 0 → v.job.file ∈ r.report.failedFiles ∧
      ∃ found, FilePlan.ofPath out c v.job.pass v.job.file v.before.session.outside = .ok found) ∧
    (r.report.totals.tokens = Event.spent r.session.journal ↔
      ∀ v ∈ visits, v.failed = true → v.tokens = 0) := by
  intro visits
  have hrun := run_eq_ok hr
  have hspent : r.report.totals.tokens + (visits.map Visit.lost).sum
      = Event.spent r.session.journal := by
    have hjournal := Progress.journal_work out c none (c.jobs files) (.start c s)
    have htokens := Progress.tokens_work out c none (c.jobs files) (.start c s)
    rw [hrun, hjournal, Event.spent_append, Event.spent_flatMap]
    exact htokens
  refine ⟨hspent, fun v hv hlost => ?_, ?_⟩
  · have hfailed : v.failed = true := by
      by_contra h
      exact hlost (if_neg h)
    constructor
    · have hfiles := Progress.failedFiles_work out c none (c.jobs files) (.start c s)
      rw [hrun, hfiles]
      exact List.mem_append_right _ (List.mem_map_of_mem (List.mem_filter.mpr ⟨hv, hfailed⟩))
    · cases hfate : v.fate with
      | passed done =>
        cases hplan : FilePlan.ofPath out c v.job.pass v.job.file v.before.session.outside with
        | ok found => exact ⟨found, rfl⟩
        | error e =>
          have hzero : v.tokens = 0 := by
            rw [Visit.tokens, Visit.events, hfate, Progress.eq_ofPath_of_mem_visits hv hfate]
            exact FilePass.spent_of_plan_eq_error out c _ _ _ _ hplan
          exact absurd (Visit.lost_eq_zero_iff.mpr fun _ => hzero) hlost
      | skipped =>
        rw [Visit.failed, hfate] at hfailed
        cases hfailed
      | stopped =>
        rw [Visit.failed, hfate] at hfailed
        cases hfailed
  · rw [← hspent, left_eq_add, List.sum_eq_zero_iff, List.forall_mem_map]
    exact forall₂_congr fun _ _ => Visit.lost_eq_zero_iff

/-! ## A draft that is paid for and not written -/

namespace ClassFile

/-- A class without a comment, a model whose drafts take ten tokens, and no directory to write
into. -/
def paid : Outside Text :=
  { bare.outside "/// c".toList with
    write := fun _ _ t => (.error .notFound, t)
    models := { Models.placeholder with
      draft := fun _ t => (.ok ⟨"/// c".toList, ⟨10, 0⟩⟩, t) } }

def paidPass : FilePass Text :=
  FilePass.ofPath paid config .missing path (.fresh config.maxEdits) (.start bare.source)

theorem ofPath_paid :
    FilePlan.ofPath paid config .missing path bare.source = .ok (bare.plan .missing) := by
  have hplan : FilePlan.ofPath (bare.outside "/// c".toList) config .missing path bare.source
      = .ok (bare.plan .missing) := ofPath_plan rfl (search_bare_of_filter rfl)
  exact hplan

/-- The comment cannot be written. -/
theorem result_paidPass : paidPass.result = .error (.unwritten path .notFound) := by
  have hshown : (Diff.unified? bare.source "/// c\nclass A {}\n".toList).isSome = true := by cbv
  obtain ⟨r, hcommit, hrmodified⟩ : ∃ r,
      (⟨[⟨⟨0, 0⟩, "/// c\n".toList⟩]⟩ : Changeset).commit bare.source = .ok r ∧
        r.modified = "/// c\nclass A {}\n".toList :=
    Changeset.exists_commit_of_inOrder (by decide) (by decide) rfl hshown
  rw [paidPass, FilePass.ofPath_of_plan ofPath_paid, (FilePass.ofPlan_eq _ _ _ _ _ _ _ rfl).1]
  exact Staging.commit_of_unwritten hcommit (by rw [hrmodified]; decide) rfl rfl

/-- The draft is paid for. -/
theorem spent_paidPass : Event.spent (paidPass.session.since (.start bare.source)) = (10, 0) := by
  rw [paidPass, FilePass.since_ofPath _ _ _ _ _ _ ofPath_paid, Event.spent_append,
    Event.spent_committed]
  rfl

theorem isExhausted_start_bare :
    (Progress.start config bare.source).budget.isExhausted = false := rfl

/-- The run over the file is the pass. -/
theorem visits_paid : Progress.visits paid config none [⟨path, .missing⟩]
    (.start config bare.source)
      = [⟨⟨path, .missing⟩, .start config bare.source, .passed paidPass⟩] :=
  Progress.visits_singleton isExhausted_start_bare

theorem work_paid : Progress.work paid config none [⟨path, .missing⟩] (.start config bare.source)
    = (Progress.start config bare.source).take path paidPass :=
  Progress.work_singleton isExhausted_start_bare

theorem exists_run_paid : ∃ r, run paid config [path] bare.source = .ok r := ⟨_, rfl⟩

end ClassFile

open ClassFile

/-- The tokens of the draft are those that no total has. -/
theorem run_tokens_eq_iff_of_paid :
    ∃ r, run paid config [path] bare.source = .ok r ∧
      r.report.totals.tokens + (10, 0) = Event.spent r.session.journal ∧
      path ∈ r.report.failedFiles := by
  obtain ⟨r, hr⟩ := exists_run_paid
  obtain ⟨hspent, hlost, -⟩ := run_tokens_eq_iff paid config [path] bare.source hr
  have hjobs : config.jobs [path] = [⟨path, .missing⟩] := rfl
  rw [hjobs, visits_paid] at hspent hlost
  have hfailed : Visit.lost ⟨⟨path, .missing⟩, .start config bare.source, .passed paidPass⟩
      = (10, 0) := by
    rw [Visit.lost, if_pos (by simp [Visit.failed, result_paidPass, Except.toBool])]
    exact spent_paidPass
  rw [List.map_singleton, List.sum_singleton, hfailed] at hspent
  refine ⟨r, hr, hspent, (hlost _ (List.mem_singleton_self _) ?_).1⟩
  rw [hfailed]
  decide

/-- The model is asked and answers with ten tokens, and the totals have none. -/
theorem run_loses_tokens :
    ∃ r, run paid config [path] bare.source = .ok r ∧ r.report.failedFiles = [path] ∧
      r.report.totals.tokens = 0 ∧ Event.spent r.session.journal = (10, 0) := by
  have hjobs : config.jobs [path] = [⟨path, .missing⟩] := rfl
  obtain ⟨r, hr⟩ := exists_run_paid
  have hrun := run_eq_ok hr
  have hjournal := Progress.journal_work paid config none [⟨path, .missing⟩]
    (.start config bare.source)
  rw [hjobs] at hrun
  refine ⟨r, hr, ?_, ?_, ?_⟩
  · rw [hrun, work_paid, Progress.take, result_paidPass]
    rfl
  · rw [hrun, work_paid, Progress.take, result_paidPass]
    rfl
  · rw [hrun, hjournal, visits_paid, List.flatMap_singleton]
    exact spent_paidPass

end DocComments
