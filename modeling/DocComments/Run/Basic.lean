import DocComments.Run.FilePass

/-!
# Runs

A run goes over files one after the other, each with the passes that are asked for: comments that are
there are brought up to date first, then those that are missing are added. A file that cannot be
treated is reported and left alone. A run ends early when its budget is used up, and breaks off at a
file whose changes cannot be shown.
-/

set_option autoImplicit false

namespace DocComments

inductive RunError where
  | noFiles
  | noPass
  deriving DecidableEq, Repr

def RunError.message : RunError → String
  | noFiles => "No files to process"
  | noPass => "No mode selected: enable --missing or --update"

/-- A pass over a file that is to be done. -/
structure Job where
  file : Path
  pass : Pass
  deriving DecidableEq, Repr

namespace Config

/-- The passes that are asked for, in the order in which a file gets them. -/
def passes (c : Config) : List Pass :=
  (if c.update then [.update] else []) ++ (if c.missing then [.missing] else [])

def jobs (c : Config) (files : List Path) : List Job :=
  files.flatMap fun file => c.passes.map (Job.mk file)

end Config

/-- How far a run has come. -/
structure Progress (σ : Type) where
  report : RunReport
  budget : Budget
  session : Session σ
  /-- the run has broken off -/
  isBroken : Bool

namespace Progress

variable {σ : Type}

def start (c : Config) (s : σ) : Progress σ := ⟨.start, .fresh c.maxEdits, .start s, false⟩

def wouldTreat (out : Outside σ) (c : Config) (s : σ) (job : Job) : Bool :=
  match FilePlan.ofPath out c job.pass job.file s with
  | .ok found => !found.planned.isEmpty
  | .error _ => false

/-- Stops in front of some jobs. They are missed if one of them would treat something. -/
def stop (out : Outside σ) (c : Config) (jobs : List Job) (p : Progress σ) : Progress σ :=
  if jobs.any (wouldTreat out c p.session.outside) then { p with budget := p.budget.markHit } else p

def take (p : Progress σ) (file : Path) (done : FilePass σ) : Progress σ :=
  let report := match done.result with
    | .ok r => { p.report with passes := p.report.passes ++ [r] }
    | .error _ => { p.report with failedFiles := p.report.failedFiles ++ [file] }
  ⟨report, done.budget, done.session, done.endsRun⟩

/-- Does jobs in order. After a failure the file that failed gets no further pass, and a pass that
ends the run leaves all other jobs undone. -/
def work (out : Outside σ) (c : Config) : Option Path → List Job → Progress σ → Progress σ
  | _, [], p => p
  | failed, job :: jobs, p =>
    if failed.any (Path.same job.file) then work out c failed jobs p
    else if p.budget.isExhausted then stop out c (job :: jobs) p
    else
      let done := FilePass.ofPath out c job.pass job.file p.budget p.session
      let failed := match done.result with
        | .ok _ => failed
        | .error _ => some job.file
      if done.endsRun then p.take job.file done else work out c failed jobs (p.take job.file done)

end Progress

structure Run (σ : Type) where
  report : RunReport
  session : Session σ
  /-- the run broke off -/
  isBroken : Bool

def run {σ : Type} (out : Outside σ) (c : Config) (files : List Path) (s : σ) :
    Except RunError (Run σ) :=
  if files.isEmpty then .error .noFiles
  else if c.isValid then
    let p := Progress.work out c none (c.jobs files) (.start c s)
    .ok ⟨{ p.report with budgetExhausted := p.budget.hit }, p.session, p.isBroken⟩
  else .error .noPass

end DocComments
