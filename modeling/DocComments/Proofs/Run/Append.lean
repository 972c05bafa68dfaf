import DocComments.Proofs.Run.Visit

/-!
# Runs one after the other

A run remembers the file that failed last, so that its other jobs are left out. Where files stand
only once the memory does not reach beyond the jobs of a file, and a run over the jobs of some files
is a run over those of the first ones, followed by a run over those of the others
(`Progress.work_append`). What was reported before does not matter either
(`Progress.work_behind`).
-/

set_option autoImplicit false

namespace DocComments

/-! ## The jobs of a file -/

def Config.jobsOf (c : Config) (file : Path) : List Job := c.passes.map (Job.mk file)

namespace Config

variable (c : Config)

theorem jobs_append (front back : List Path) :
    c.jobs (front ++ back) = c.jobs front ++ c.jobs back := List.flatMap_append

theorem jobs_cons (file : Path) (files : List Path) :
    c.jobs (file :: files) = c.jobsOf file ++ c.jobs files := List.flatMap_cons

variable {c}

theorem file_mem_of_mem_jobs {files : List Path} {job : Job} (h : job ∈ c.jobs files) :
    job.file ∈ files := by
  obtain ⟨file, hfile, hmem⟩ := List.mem_flatMap.mp h
  obtain ⟨pass, -, rfl⟩ := List.mem_map.mp hmem
  exact hfile

theorem file_eq_of_mem_jobsOf {file : Path} {job : Job} (h : job ∈ c.jobsOf file) :
    job.file = file := by
  obtain ⟨pass, -, rfl⟩ := List.mem_map.mp h
  rfl

theorem passes_ne_nil (h : c.isValid = true) : c.passes ≠ [] := by
  simp only [isValid, Bool.or_eq_true] at h
  rcases h with h | h <;> simp [passes, h]

end Config

section Run

variable {σ : Type} (out : Outside σ) (c : Config) (s : σ)

/-- A run over files for which a pass is asked reports what its work comes to. -/
theorem run_of_isValid {files : List Path} (hfiles : files ≠ []) (hvalid : c.isValid = true) :
    let last := Progress.work out c none (c.jobs files) (.start c s)
    run out c files s = .ok ⟨{ last.report with budgetExhausted := last.budget.hit }, last.session,
      last.isBroken⟩ := by
  unfold run
  rw [if_neg (by simpa using hfiles), if_pos hvalid]

end Run

/-! ## One job -/

/-- The file that is remembered as failed behind a pass. -/
def FilePass.remembered {σ : Type} (done : FilePass σ) (file : Path) (failed : Option Path) :
    Option Path :=
  match done.result with
  | .ok _ => failed
  | .error _ => some file

namespace Progress

variable {σ : Type} (out : Outside σ) (c : Config)

section Cons

variable {out c} {failed : Option Path} {job : Job} {jobs : List Job} {p : Progress σ}

theorem work_of_skipped (h : failed.any (Path.same job.file) = true) :
    work out c failed (job :: jobs) p = work out c failed jobs p := by
  rw [work, if_pos h]

theorem work_of_stopped (hskip : failed.any (Path.same job.file) = false)
    (hstop : p.budget.isExhausted = true) :
    work out c failed (job :: jobs) p = stop out c (job :: jobs) p := by
  rw [work, if_neg (by simp [hskip]), if_pos hstop]

theorem work_of_passed {done : FilePass σ} (hskip : failed.any (Path.same job.file) = false)
    (hleft : p.budget.isExhausted = false)
    (hdone : FilePass.ofPath out c job.pass job.file p.budget p.session = done) :
    work out c failed (job :: jobs) p
      = if done.endsRun then p.take job.file done
        else work out c (done.remembered job.file failed) jobs (p.take job.file done) := by
  rw [work, if_neg (by simp [hskip]), if_neg (by simp [hleft]), hdone]
  rfl

theorem visits_of_skipped (h : failed.any (Path.same job.file) = true) :
    visits out c failed (job :: jobs) p = ⟨job, p, .skipped⟩ :: visits out c failed jobs p := by
  rw [visits, if_pos h]

theorem visits_of_passed {done : FilePass σ} (hskip : failed.any (Path.same job.file) = false)
    (hleft : p.budget.isExhausted = false)
    (hdone : FilePass.ofPath out c job.pass job.file p.budget p.session = done) :
    visits out c failed (job :: jobs) p
      = ⟨job, p, .passed done⟩ :: if done.endsRun then [] else
          visits out c (done.remembered job.file failed) jobs (p.take job.file done) := by
  rw [visits, if_neg (by simp [hskip]), if_neg (by simp [hleft]), hdone]
  dsimp only
  split <;> rfl

end Cons

/-- A file that failed before and has no job left is as good as forgotten. -/
theorem work_eq_of_not_same {failed : Option Path} {jobs : List Job}
    (h : ∀ job ∈ jobs, failed.any (Path.same job.file) = false) (p : Progress σ) :
    work out c failed jobs p = work out c none jobs p := by
  induction jobs generalizing p with
  | nil => rfl
  | cons job jobs ih =>
    obtain ⟨hjob, hjobs⟩ := List.forall_mem_cons.mp h
    cases hstop : p.budget.isExhausted with
    | true => rw [work_of_stopped hjob hstop, work_of_stopped rfl hstop]
    | false =>
      rw [work_of_passed hjob hstop rfl, work_of_passed rfl hstop rfl]
      split
      · rfl
      · -- after a pass that came to nothing both remember the same file
        unfold FilePass.remembered
        cases (FilePass.ofPath out c job.pass job.file p.budget p.session).result with
        | ok r => exact ih hjobs _
        | error e => rfl

/-! ## Stopping -/

section Stop

variable {jobs : List Job} {p : Progress σ}

@[simp] theorem session_stop : (stop out c jobs p).session = p.session := by
  unfold stop
  split <;> rfl

@[simp] theorem report_stop : (stop out c jobs p).report = p.report := by
  unfold stop
  split <;> rfl

@[simp] theorem isBroken_stop : (stop out c jobs p).isBroken = p.isBroken := by
  unfold stop
  split <;> rfl

@[simp] theorem isExhausted_stop :
    (stop out c jobs p).budget.isExhausted = p.budget.isExhausted := by
  unfold stop
  split <;> rfl

theorem stop_append (more : List Job) :
    stop out c (jobs ++ more) p = stop out c more (stop out c jobs p) := by
  have hsession : (stop out c jobs p).session = p.session := session_stop out c
  rw [stop, List.any_append, stop, hsession, stop]
  cases jobs.any (wouldTreat out c p.session.outside) <;>
    cases more.any (wouldTreat out c p.session.outside) <;> rfl

/-- Nothing is done when the budget is used up. -/
theorem work_of_isExhausted (h : p.budget.isExhausted = true) :
    work out c none jobs p = stop out c jobs p := by
  cases jobs with
  | nil => rfl
  | cons job jobs => exact work_of_stopped rfl h

end Stop

/-! ## Jobs behind jobs -/

theorem isBroken_take (p : Progress σ) (file : Path) (done : FilePass σ) :
    (p.take file done).isBroken = done.endsRun := rfl

/-- A run over jobs of some files and of others is a run over the first jobs, followed by one over
the others unless it broke off. -/
theorem work_append {failed : Option Path} {first second : List Job} {p : Progress σ}
    (hp : p.isBroken = false)
    (hfailed : ∀ job ∈ second, failed.any (Path.same job.file) = false)
    (hfirst : ∀ job ∈ second, ∀ other ∈ first, Path.same job.file other.file = false) :
    work out c failed (first ++ second) p
      = if (work out c failed first p).isBroken then work out c failed first p
        else work out c none second (work out c failed first p) := by
  -- all along, the file that is remembered as failed has no job among the second ones
  induction first generalizing failed p with
  | nil =>
    have hnil : work out c failed [] p = p := rfl
    rw [List.nil_append, hnil, if_neg (by simp [hp]), work_eq_of_not_same out c hfailed]
  | cons job jobs ih =>
    have hjobs : ∀ later ∈ second, ∀ other ∈ jobs, Path.same later.file other.file = false :=
      fun later hlater other hother => hfirst later hlater other (List.mem_cons_of_mem _ hother)
    rw [List.cons_append]
    cases hskip : failed.any (Path.same job.file) with
    | true =>
      rw [work_of_skipped hskip, work_of_skipped hskip]
      exact ih hp hfailed hjobs
    | false =>
      cases hstop : p.budget.isExhausted with
      | true =>
        -- the jobs that are left are looked through in one go or in two
        rw [work_of_stopped hskip hstop, work_of_stopped hskip hstop, isBroken_stop,
          if_neg (by simp [hp]), ← List.cons_append, stop_append,
          work_of_isExhausted out c ((isExhausted_stop out c).trans hstop)]
      | false =>
        rw [work_of_passed hskip hstop rfl, work_of_passed hskip hstop rfl]
        generalize FilePass.ofPath out c job.pass job.file p.budget p.session = done
        cases hends : done.endsRun with
        | true => rw [if_pos rfl, if_pos rfl, isBroken_take, if_pos hends]
        | false =>
          rw [if_neg Bool.false_ne_true, if_neg Bool.false_ne_true]
          refine ih hends (fun later hlater => ?_) hjobs
          unfold FilePass.remembered
          cases done.result with
          | ok r => exact hfailed later hlater
          | error e => exact hfirst later hlater job List.mem_cons_self

end Progress

/-! ## Reports behind reports -/

/-- A report with what was reported before in front of it. -/
def RunReport.behind (report earlier : RunReport) : RunReport :=
  { earlier with
    passes := earlier.passes ++ report.passes
    failedFiles := earlier.failedFiles ++ report.failedFiles }

namespace Progress

variable {σ : Type}

def behind (p : Progress σ) (earlier : RunReport) : Progress σ :=
  { p with report := p.report.behind earlier }

def unreported (p : Progress σ) : Progress σ := { p with report := .start }

section Behind

variable (out : Outside σ) (c : Config) (earlier : RunReport)

theorem take_behind (p : Progress σ) (file : Path) (done : FilePass σ) :
    (p.behind earlier).take file done = (p.take file done).behind earlier := by
  unfold take behind RunReport.behind
  cases done.result <;> simp

theorem stop_behind (jobs : List Job) (p : Progress σ) :
    stop out c jobs (p.behind earlier) = (stop out c jobs p).behind earlier := by
  unfold stop behind
  dsimp only
  split <;> rfl

/-- What was reported before does not change what is done. -/
theorem work_behind (failed : Option Path) (jobs : List Job) (p : Progress σ) :
    work out c failed jobs (p.behind earlier) = (work out c failed jobs p).behind earlier := by
  -- the work reads the budget and the session, and it only adds to the report
  induction jobs generalizing failed p with
  | nil => rfl
  | cons job jobs ih =>
    cases hskip : failed.any (Path.same job.file) with
    | true =>
      rw [work_of_skipped hskip, work_of_skipped hskip]
      exact ih failed p
    | false =>
      cases hstop : p.budget.isExhausted with
      | true =>
        rw [work_of_stopped hskip hstop, work_of_stopped (p := p.behind earlier) hskip hstop]
        exact stop_behind out c earlier _ p
      | false =>
        rw [work_of_passed hskip hstop rfl,
          work_of_passed (p := p.behind earlier) hskip hstop rfl, take_behind, ih]
        exact (apply_ite (behind · earlier) _ _ _).symm

/-- A run that goes on is one that has reported nothing, put behind what was reported. -/
theorem work_eq_behind (failed : Option Path) (jobs : List Job) (p : Progress σ) :
    work out c failed jobs p = (work out c failed jobs p.unreported).behind p.report := by
  rw [← work_behind]
  refine congrArg (work out c failed jobs) ?_
  unfold behind unreported RunReport.behind RunReport.start
  simp

end Behind

end Progress

end DocComments
