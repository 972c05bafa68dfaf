import DocComments.Proofs.Run.Journal
import Mathlib.Data.List.Infix

/-!
# The jobs of a run

A run comes to its jobs one after the other. It makes the pass, leaves the job out because the file
failed before, or stops in front of it because the budget is used up. `Progress.visits` lists the
jobs with what becomes of them. The drafts that are asked for in a run, the edits that it commits,
the files that fail and the note that declarations were missed are those of the visits
(`Progress.journal_work`, `Progress.hit_work_iff`).
-/

set_option autoImplicit false

namespace DocComments

inductive Fate (σ : Type) where
  /-- the file failed before -/
  | skipped
  /-- the budget is used up -/
  | stopped
  /-- the pass is made -/
  | passed (done : FilePass σ)

/-- A job that a run comes to. -/
structure Visit (σ : Type) where
  job : Job
  /-- how far the run is when it comes to the job, or stops in front of it -/
  before : Progress σ
  fate : Fate σ

theorem Path.same_comm (p q : Path) : Path.same p q = Path.same q p := Bool.beq_comm

namespace Visit

variable {σ : Type}

/-- The drafts that are needed for all declarations that are planned then. -/
def wanted (out : Outside σ) (c : Config) (v : Visit σ) : List DraftRequest :=
  FilePass.wanted out c v.job.pass v.job.file v.before.session.outside

def events (v : Visit σ) : List Event :=
  match v.fate with
  | .passed done => done.session.since v.before.session
  | _ => []

def asked (v : Visit σ) : List DraftRequest := v.events.filterMap Event.request?

def committed (v : Visit σ) : List (Path × List Edit) := v.events.filterMap Event.commit?

/-- The pass is made and comes to nothing. -/
def failed (v : Visit σ) : Bool :=
  match v.fate with
  | .passed done => !done.result.toBool
  | _ => false

def isSkipped (v : Visit σ) : Bool :=
  match v.fate with
  | .skipped => true
  | _ => false

/-- A declaration is planned, and no draft is asked for it. -/
def Misses (out : Outside σ) (c : Config) (v : Visit σ) : Prop :=
  v.asked.length < (v.wanted out c).length

end Visit

namespace Progress

variable {σ : Type}

/-- The jobs of a run with what becomes of them. -/
def visits (out : Outside σ) (c : Config) :
    Option Path → List Job → Progress σ → List (Visit σ)
  | _, [], _ => []
  | failed, job :: jobs, p =>
    if failed.any (Path.same job.file) then ⟨job, p, .skipped⟩ :: visits out c failed jobs p
    else if p.budget.isExhausted then (job :: jobs).map (⟨·, p, .stopped⟩)
    else
      let done := FilePass.ofPath out c job.pass job.file p.budget p.session
      let failed := match done.result with
        | .ok _ => failed
        | .error _ => some job.file
      if done.endsRun then [⟨job, p, .passed done⟩]
      else ⟨job, p, .passed done⟩ :: visits out c failed jobs (p.take job.file done)

section One

variable {out : Outside σ} {c : Config} {job : Job} {p : Progress σ}

/-- One job is one pass. -/
theorem work_singleton (hleft : p.budget.isExhausted = false) :
    work out c none [job] p
      = p.take job.file (FilePass.ofPath out c job.pass job.file p.budget p.session) := by
  rw [work, if_neg (by simp), if_neg (by simp [hleft])]
  dsimp only [work]
  split <;> rfl

theorem visits_singleton (hleft : p.budget.isExhausted = false) :
    visits out c none [job] p
      = [⟨job, p, .passed (FilePass.ofPath out c job.pass job.file p.budget p.session)⟩] := by
  rw [visits, if_neg (by simp), if_neg (by simp [hleft])]
  dsimp only [visits]
  split <;> rfl

end One

section Visits

variable (out : Outside σ) (c : Config) (failed : Option Path) (jobs : List Job) (p : Progress σ)

variable {out c} in
/-- The jobs of a run and what its work comes to are built up together: a job is left out, or the
run stops in front of it, or its pass ends the run, or the run goes on behind its pass. -/
theorem induction_visits {motive : List Job → Progress σ → List (Visit σ) → Progress σ → Prop}
    (nil : ∀ p, motive [] p [] p)
    (skipped : ∀ job jobs p vs q, motive jobs p vs q →
      motive (job :: jobs) p (⟨job, p, .skipped⟩ :: vs) q)
    (stopped : ∀ jobs p, p.budget.isExhausted = true →
      motive jobs p (jobs.map (⟨·, p, .stopped⟩)) (stop out c jobs p))
    (ended : ∀ job jobs p done, FilePass.ofPath out c job.pass job.file p.budget p.session = done →
      done.endsRun = true →
      motive (job :: jobs) p [⟨job, p, .passed done⟩] (p.take job.file done))
    (passed : ∀ job jobs p done vs q,
      FilePass.ofPath out c job.pass job.file p.budget p.session = done → done.endsRun = false →
      motive jobs (p.take job.file done) vs q →
      motive (job :: jobs) p (⟨job, p, .passed done⟩ :: vs) q) :
    motive jobs p (visits out c failed jobs p) (work out c failed jobs p) := by
  induction jobs generalizing failed p with
  | nil => exact nil p
  | cons job jobs ih =>
    unfold visits work
    by_cases hskip : failed.any (Path.same job.file) = true
    · rw [if_pos hskip, if_pos hskip]
      exact skipped job jobs p _ _ (ih failed p)
    by_cases hstop : p.budget.isExhausted = true
    · rw [if_neg hskip, if_neg hskip, if_pos hstop, if_pos hstop]
      exact stopped (job :: jobs) p hstop
    rw [if_neg hskip, if_neg hskip, if_neg hstop, if_neg hstop]
    generalize hdone : FilePass.ofPath out c job.pass job.file p.budget p.session = done
    dsimp only
    by_cases hends : done.endsRun = true
    · rw [if_pos hends, if_pos hends]
      exact ended job jobs p done hdone hends
    · rw [if_neg hends, if_neg hends]
      exact passed job jobs p done _ _ hdone (Bool.eq_false_iff.mpr hends) (ih _ _)

/-- A run that does not break off comes to every job. -/
theorem map_job_visits (h : (work out c failed jobs p).isBroken = false) :
    (visits out c failed jobs p).map Visit.job = jobs := by
  revert h
  refine induction_visits (motive := fun jobs _ vs q => q.isBroken = false →
    vs.map Visit.job = jobs) failed jobs p ?_ ?_ ?_ ?_ ?_
  · exact fun _ _ => rfl
  · intro job jobs p vs q ih h
    rw [List.map_cons, ih h]
  · intro jobs p _ _
    rw [List.map_map]
    exact List.map_id' _
  · intro job jobs p done _ hends h
    exact absurd (h.symm.trans hends) Bool.false_ne_true
  · intro job jobs p done vs q _ _ ih h
    rw [List.map_cons, ih h]

/-- The jobs that a run comes to are the first ones, in order. -/
theorem prefix_map_job_visits : (visits out c failed jobs p).map Visit.job <+: jobs := by
  refine induction_visits (motive := fun jobs _ vs _ => vs.map Visit.job <+: jobs) failed jobs p
    ?_ ?_ ?_ ?_ ?_
  · exact fun _ => List.prefix_rfl
  · exact fun job jobs p vs q ih => List.cons_prefix_cons.mpr ⟨rfl, ih⟩
  · intro jobs p _
    rw [List.map_map, Function.comp_def, List.map_id']
  · exact fun job jobs p done _ _ => List.prefix_append [job] jobs
  · exact fun job jobs p done vs q _ _ ih => List.cons_prefix_cons.mpr ⟨rfl, ih⟩

variable {out c failed jobs p} in
theorem job_mem_of_mem_visits {v : Visit σ} (hv : v ∈ visits out c failed jobs p) : v.job ∈ jobs :=
  (prefix_map_job_visits out c failed jobs p).subset (List.mem_map_of_mem hv)

variable {out c} in
theorem journal_take {job : Job} {p : Progress σ} {done : FilePass σ}
    (hdone : FilePass.ofPath out c job.pass job.file p.budget p.session = done) :
    (p.take job.file done).session.journal
      = p.session.journal ++ Visit.events ⟨job, p, .passed done⟩ := by
  subst hdone
  exact (FilePass.adds_ofPath out c job.pass job.file p.budget p.session).journal

/-- What happens in a run is what happens in its passes. -/
theorem journal_work :
    (work out c failed jobs p).session.journal
      = p.session.journal ++ (visits out c failed jobs p).flatMap Visit.events := by
  refine induction_visits (motive := fun _ p vs q => q.session.journal
    = p.session.journal ++ vs.flatMap Visit.events) failed jobs p ?_ ?_ ?_ ?_ ?_
  · exact fun p => (List.append_nil _).symm
  · exact fun job jobs p vs q ih => ih
  · intro jobs p _
    have hnone : jobs.flatMap (fun job => Visit.events ⟨job, p, .stopped⟩) = [] :=
      List.flatMap_eq_nil_iff.mpr fun _ _ => rfl
    rw [List.flatMap_map, hnone, List.append_nil, stop]
    split <;> rfl
  · intro job jobs p done hdone _
    rw [List.flatMap_singleton, journal_take hdone]
  · intro job jobs p done vs q hdone _ ih
    rw [ih, journal_take hdone, List.flatMap_cons, List.append_assoc]

/-- The files that fail are those of the passes that come to nothing. -/
theorem failedFiles_work :
    (work out c failed jobs p).report.failedFiles
      = p.report.failedFiles
        ++ ((visits out c failed jobs p).filter Visit.failed).map fun v => v.job.file := by
  have hpass : ∀ (job : Job) (p : Progress σ) (done : FilePass σ),
      (p.take job.file done).report.failedFiles = p.report.failedFiles ++
        (([⟨job, p, .passed done⟩] : List (Visit σ)).filter Visit.failed).map
          fun v => v.job.file := by
    intro job p done
    cases h : done.result <;> simp [take, Visit.failed, h, Except.toBool]
  refine induction_visits (motive := fun _ p vs q => q.report.failedFiles
    = p.report.failedFiles ++ (vs.filter Visit.failed).map fun v => v.job.file) failed jobs p
      ?_ ?_ ?_ ?_ ?_
  · exact fun p => (List.append_nil _).symm
  · exact fun job jobs p vs q ih => ih
  · intro jobs p _
    have hnone : (jobs.map fun job => (⟨job, p, .stopped⟩ : Visit σ)).filter Visit.failed = [] := by
      simp [List.filter_eq_nil_iff, Visit.failed]
    rw [hnone, List.map_nil, List.append_nil, stop]
    split <;> rfl
  · exact fun job jobs p done _ _ => hpass job p done
  · intro job jobs p done vs q _ _ ih
    rw [ih, hpass, List.append_assoc, ← List.map_append, ← List.filter_append,
      List.singleton_append]

variable {out c} in
/-- A pass notes that declarations were missed if it missed some. -/
theorem hit_take_iff {job : Job} {p : Progress σ} {done : FilePass σ}
    (hdone : FilePass.ofPath out c job.pass job.file p.budget p.session = done) :
    (p.take job.file done).budget.hit = true ↔
      p.budget.hit = true ∨ Visit.Misses out c ⟨job, p, .passed done⟩ := by
  subst hdone
  have hasked := (FilePass.adds_ofPath out c job.pass job.file p.budget p.session).asked
  refine (FilePass.hit_ofPath out c job.pass job.file p.budget p.session).trans ?_
  rw [← hasked]
  rfl

/-- In front of the jobs that are left it is looked at once more whether they miss something. -/
theorem wouldTreat_iff_misses (job : Job) (p : Progress σ) :
    wouldTreat out c p.session.outside job = true ↔ Visit.Misses out c ⟨job, p, .stopped⟩ := by
  unfold wouldTreat Visit.Misses Visit.wanted FilePass.wanted
  dsimp only
  cases FilePlan.ofPath out c job.pass job.file p.session.outside with
  | error e => simp
  | ok found => simp [Visit.asked, Visit.events, FilePlan.requests, List.length_pos_iff]

/-- A run notes that declarations were missed if they were in one of its jobs, unless the file of
the job failed before. -/
theorem hit_work_iff :
    (work out c failed jobs p).budget.hit = true ↔ p.budget.hit = true ∨
      ∃ v ∈ visits out c failed jobs p, v.isSkipped = false ∧ v.Misses out c := by
  refine induction_visits (motive := fun _ p vs q => q.budget.hit = true ↔ p.budget.hit = true ∨
    ∃ v ∈ vs, v.isSkipped = false ∧ v.Misses out c) failed jobs p ?_ ?_ ?_ ?_ ?_
  · simp
  · intro job jobs p vs q ih
    rw [ih, List.exists_mem_cons_iff]
    simp [Visit.isSkipped]
  · intro jobs p _
    have hany : jobs.any (wouldTreat out c p.session.outside) = true ↔
        ∃ v ∈ jobs.map fun job => (⟨job, p, .stopped⟩ : Visit σ),
          v.isSkipped = false ∧ v.Misses out c := by
      simp only [List.any_eq_true, List.mem_map, exists_exists_and_eq_and]
      refine exists_congr fun other => and_congr_right fun _ => ?_
      rw [wouldTreat_iff_misses out c other p]
      exact (and_iff_right rfl).symm
    rw [← hany, stop]
    split
    · next h => simp [Budget.markHit, h]
    · next h => simp [h]
  · intro job jobs p done hdone _
    rw [hit_take_iff hdone]
    simp [Visit.isSkipped]
  · intro job jobs p done vs q hdone _ ih
    rw [ih, hit_take_iff hdone, List.exists_mem_cons_iff, or_assoc]
    simp [Visit.isSkipped]

variable {out c failed jobs p} in
/-- Why a run comes to what becomes of a job: it stops because the budget is used up; the pass is
the one over the file, with the budget and the session that the run has come to, and if it ends the
run then the run breaks off. -/
theorem fate_of_mem_visits {v : Visit σ} (hv : v ∈ visits out c failed jobs p) :
    match v.fate with
    | .skipped => True
    | .stopped => v.before.budget.isExhausted = true
    | .passed done =>
      FilePass.ofPath out c v.job.pass v.job.file v.before.budget v.before.session = done ∧
        (done.endsRun = true → (work out c failed jobs p).isBroken = true) := by
  revert hv
  refine induction_visits (motive := fun _ _ vs q => v ∈ vs → match v.fate with
    | .skipped => True
    | .stopped => v.before.budget.isExhausted = true
    | .passed done =>
      FilePass.ofPath out c v.job.pass v.job.file v.before.budget v.before.session = done ∧
        (done.endsRun = true → q.isBroken = true)) failed jobs p ?_ ?_ ?_ ?_ ?_
  · exact fun _ hv => absurd hv List.not_mem_nil
  · intro job jobs p vs q ih hv
    rcases List.mem_cons.mp hv with rfl | hv
    · trivial
    · exact ih hv
  · intro jobs p hstop hv
    obtain ⟨other, -, rfl⟩ := List.mem_map.mp hv
    exact hstop
  · intro job jobs p done hdone hends hv
    obtain rfl := List.mem_singleton.mp hv
    exact ⟨hdone, fun _ => hends⟩
  · intro job jobs p done vs q hdone hends ih hv
    rcases List.mem_cons.mp hv with rfl | hv
    · exact ⟨hdone, fun h => absurd (hends.symm.trans h) Bool.false_ne_true⟩
    · exact ih hv

variable {out c failed jobs p} in
theorem eq_ofPath_of_mem_visits {v : Visit σ} (hv : v ∈ visits out c failed jobs p)
    {done : FilePass σ} (hdone : v.fate = .passed done) :
    done = FilePass.ofPath out c v.job.pass v.job.file v.before.budget v.before.session := by
  have hfate := fate_of_mem_visits hv
  rw [hdone] at hfate
  exact hfate.1.symm

variable {out c failed jobs p} in
/-- The drafts are asked for in the order of the declarations. -/
theorem asked_prefix_wanted {v : Visit σ} (hv : v ∈ visits out c failed jobs p) :
    v.asked <+: v.wanted out c := by
  cases hfate : v.fate with
  | passed done =>
    have hasked : v.asked
        = FilePass.asked out c v.job.pass v.job.file v.before.budget v.before.session := by
      rw [Visit.asked, Visit.events, hfate, eq_ofPath_of_mem_visits hv hfate]
      exact (FilePass.adds_ofPath out c _ _ _ _).asked
    rw [hasked]
    exact FilePass.asked_prefix_wanted out c _ _ _ _
  | skipped =>
    rw [Visit.asked, Visit.events, hfate]
    exact List.nil_prefix
  | stopped =>
    rw [Visit.asked, Visit.events, hfate]
    exact List.nil_prefix

end Visits

/-! ## Files that fail -/

/-- The paths that name the same file stand together. -/
def Together : List Path → Prop
  | [] => True
  | a :: paths => (∀ b ∈ paths.dropWhile (Path.same a), Path.same a b = false) ∧ Together paths

theorem together_replicate_append {file : Path} {paths : List Path} (h : Together paths)
    (hfile : ∀ b ∈ paths, Path.same file b = false) (n : Nat) :
    Together (List.replicate n file ++ paths) := by
  induction n with
  | zero => exact h
  | succ n ih =>
    have hself : ∀ a ∈ List.replicate n file, Path.same file a = true := by
      intro a ha
      rw [List.eq_of_mem_replicate ha]
      exact beq_self_eq_true _
    refine ⟨fun b hb => hfile b ?_, ih⟩
    change b ∈ (List.replicate n file ++ paths).dropWhile (Path.same file) at hb
    rw [List.dropWhile_append_of_pos hself] at hb
    exact (List.dropWhile_suffix _).subset hb

/-- Behind a path that names another file there is none for the file. -/
theorem Together.same_eq_false {a b : Path} {paths : List Path} (h : Together (a :: b :: paths))
    (hab : Path.same a b = false) : ∀ d ∈ b :: paths, Path.same a d = false := by
  have hdrop := h.1
  rwa [List.dropWhile_cons_of_neg (by simp [hab])] at hdrop

theorem Together.of_cons_cons {a b : Path} {paths : List Path} (h : Together (a :: b :: paths)) :
    Together (a :: paths) := by
  refine ⟨fun d hd => h.1 d ?_, h.2.2⟩
  by_cases hab : Path.same a b = true
  · rwa [List.dropWhile_cons_of_pos hab]
  · rw [List.dropWhile_cons_of_neg hab]
    exact List.mem_cons_of_mem _ ((List.dropWhile_suffix _).subset hd)

theorem together_jobs (c : Config) {files : List Path}
    (h : files.Pairwise fun a b => Path.same a b = false) :
    Together ((c.jobs files).map Job.file) := by
  induction files with
  | nil => trivial
  | cons file files ih =>
    obtain ⟨hfile, hrest⟩ := List.pairwise_cons.mp h
    have hjobs : (c.jobs (file :: files)).map Job.file
        = List.replicate c.passes.length file ++ (c.jobs files).map Job.file := by
      rw [Config.jobs, List.flatMap_cons, List.map_append, List.map_map]
      exact congrArg (· ++ _) List.map_const'
    rw [hjobs]
    refine together_replicate_append (ih hrest) (fun b hb => ?_) _
    obtain ⟨job, hjob, rfl⟩ := List.mem_map.mp hb
    obtain ⟨other, hother, hmem⟩ := List.mem_flatMap.mp hjob
    obtain ⟨pass, -, rfl⟩ := List.mem_map.mp hmem
    exact hfile other hother

section Skipped

variable {out : Outside σ} {c : Config} {failed : Option Path} {job : Job} {jobs : List Job}
  {p : Progress σ} {front back : List (Visit σ)} {v : Visit σ}

theorem Together.of_failed_cons (h : Together (failed.toList ++ (job :: jobs).map Job.file)) :
    Together (failed.toList ++ jobs.map Job.file) := by
  cases failed with
  | none => exact h.2
  | some f => exact h.of_cons_cons

theorem Together.of_failed (h : Together (failed.toList ++ (job :: jobs).map Job.file)) :
    Together ((some job.file).toList ++ jobs.map Job.file) := by
  cases failed with
  | none => exact h
  | some f => exact h.2

/-- Behind the jobs of the file that failed last there is none of it. -/
theorem Together.any_same_eq_false (h : Together (failed.toList ++ (job :: jobs).map Job.file))
    (hskip : ¬ failed.any (Path.same job.file) = true) :
    ∀ other ∈ job :: jobs, failed.any (Path.same other.file) = false := by
  intro other hmem
  cases failed with
  | none => rfl
  | some f =>
    have hfirst : Path.same f job.file = false := by
      rw [Path.same_comm]
      exact eq_false_of_ne_true hskip
    have hrest := h.same_eq_false hfirst other.file (List.mem_map_of_mem hmem)
    rwa [Path.same_comm] at hrest

/-- Where the run stops nothing is left out for a failure. -/
theorem isSkipped_iff_of_stopped
    (hv : jobs.map (fun job => (⟨job, p, .stopped⟩ : Visit σ)) = front ++ v :: back)
    (hnone : ∀ job ∈ jobs, failed.any (Path.same job.file) = false) :
    v.isSkipped = true ↔ failed.any (Path.same v.job.file) = true ∨
      ∃ u ∈ front, u.failed = true ∧ Path.same v.job.file u.job.file = true := by
  have hstopped : ∀ u ∈ front ++ v :: back, u.fate = .stopped ∧ u.job ∈ jobs := by
    intro u hu
    rw [← hv] at hu
    obtain ⟨other, hmem, rfl⟩ := List.mem_map.mp hu
    exact ⟨rfl, hmem⟩
  obtain ⟨hfate, hmem⟩ := hstopped v (by simp)
  rw [Visit.isSkipped, hfate, hnone _ hmem]
  refine iff_of_false Bool.false_ne_true ?_
  rintro (h | ⟨u, hu, hfailed, -⟩)
  · cases h
  · rw [Visit.failed, (hstopped u (List.mem_append_left _ hu)).1] at hfailed
    cases hfailed

/-- A job is left out if a pass over its file failed before, and only then. -/
theorem isSkipped_iff (h : Together (failed.toList ++ jobs.map Job.file))
    (hv : visits out c failed jobs p = front ++ v :: back) :
    v.isSkipped = true ↔ failed.any (Path.same v.job.file) = true ∨
      ∃ u ∈ front, u.failed = true ∧ Path.same v.job.file u.job.file = true := by
  induction jobs generalizing failed p front with
  | nil => simp [visits] at hv
  | cons job jobs ih =>
    unfold visits at hv
    split at hv
    · next hskip =>
      cases front with
      | nil =>
        obtain ⟨rfl, -⟩ := List.cons.inj hv
        exact iff_of_true rfl (.inl hskip)
      | cons u front =>
        rw [List.cons_append] at hv
        obtain ⟨rfl, hrest⟩ := List.cons.inj hv
        refine (ih h.of_failed_cons hrest).trans ?_
        rw [List.exists_mem_cons_iff]
        simp [Visit.failed]
    · next hskip =>
      have hnone := h.any_same_eq_false hskip
      split at hv
      · exact isSkipped_iff_of_stopped hv hnone
      generalize FilePass.ofPath out c job.pass job.file p.budget p.session = done at hv
      cases front with
      | nil =>
        obtain rfl : ⟨job, p, .passed done⟩ = v := by
          dsimp only at hv
          split at hv <;> exact (List.cons.inj hv).1
        refine iff_of_false Bool.false_ne_true ?_
        rintro (hsame | ⟨u, hu, -⟩)
        · exact hskip hsame
        · cases hu
      | cons u front =>
        obtain ⟨rfl, hrest⟩ : ⟨job, p, .passed done⟩ = u ∧ visits out c
            (match done.result with | .ok _ => failed | .error _ => some job.file) jobs
            (p.take job.file done) = front ++ v :: back := by
          dsimp only at hv
          split at hv
          · simp at hv
          · exact List.cons.inj hv
        have hpast := hnone v.job
          (List.mem_cons_of_mem _ (job_mem_of_mem_visits (by rw [hrest]; simp)))
        rw [List.exists_mem_cons_iff, hpast]
        -- a failure is noted, and no job of a file that failed earlier is left
        cases hresult : done.result with
        | ok r =>
          rw [hresult] at hrest
          refine (ih h.of_failed_cons hrest).trans ?_
          rw [hpast]
          simp [Visit.failed, hresult, Except.toBool]
        | error e =>
          rw [hresult] at hrest
          refine (ih h.of_failed hrest).trans ?_
          simp [Visit.failed, hresult, Except.toBool]

end Skipped

end Progress

end DocComments
