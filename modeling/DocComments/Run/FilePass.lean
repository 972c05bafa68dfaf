import DocComments.Edit.Commit
import DocComments.Files.Source
import DocComments.Run.Budget
import DocComments.Run.Treatment

/-!
# A pass over a file

The declarations that a pass treats are planned on the text of the file. They are treated one after
the other as long as the budget allows it; the edits that are accepted wait in a changeset and are
committed together at the end.
-/

set_option autoImplicit false

namespace DocComments

inductive PassError where
  /-- the file is written in no known language -/
  | unsupported (file : Path)
  | unread (error : ReadError)
  | badRule (error : Rule.Invalid)
  | badEdit (error : EditError)
  /-- the changes of the file cannot be shown, at which the whole run breaks off -/
  | noDiff (file : Path)
  | unwritten (file : Path) (error : FileError)
  deriving DecidableEq, Repr

def PassError.message : PassError → String
  | unsupported file => "Unsupported file type: " ++ String.ofList file
  | unread error => error.message
  | badRule error => error.message
  | badEdit error => error.message
  | noDiff file => "Failed to process " ++ String.ofList file ++ ": the changes cannot be shown"
  | unwritten file error => "Failed to write " ++ String.ofList file ++ ": " ++ error.message

/-- A file as a pass finds it. -/
structure FilePlan where
  style : CommentStyle
  source : Text
  planned : List Planned
  deriving DecidableEq, Repr

def Config.request (c : Config) : Request := ⟨c.kinds, c.exportsOnly⟩

/-- Reads a file and plans the declarations that a pass treats in it. -/
def FilePlan.ofPath {σ : Type} (out : Outside σ) (c : Config) (pass : Pass) (file : Path) (s : σ) :
    Except PassError FilePlan :=
  match Language.ofPath? file with
  | none => .error (.unsupported file)
  | some lang =>
    match Source.ofEntry file c.maxFileSize (out.find file s) with
    | .error e => .error (.unread e)
    | .ok source =>
      match plan lang c.request pass source (out.parse lang source) with
      | .error e => .error (.badRule e)
      | .ok planned => .ok ⟨lang.style, source, planned⟩

/-! ## Staging -/

/-- The edits that wait to be committed, and the report so far. -/
structure Staging where
  changes : Changeset
  report : PassReport

namespace Staging

def start (file : Path) (pass : Pass) : Staging := ⟨.empty, .start file pass⟩

end Staging

namespace PassReport

def countAccepted (r : PassReport) : PassReport :=
  match r.pass with
  | .missing => { r with generated := r.generated + 1 }
  | .update => { r with updated := r.updated + 1 }

def countRefused (r : PassReport) : PassReport :=
  match r.pass with
  | .missing => { r with refused := r.refused + 1 }
  | .update => { r with nits := r.nits + 1 }

def countUnchanged (r : PassReport) : PassReport := { r with skipped := r.skipped + 1 }

def countFailed (r : PassReport) : PassReport := { r with failed := r.failed + 1 }

def charge (r : PassReport) (t : Treatment) : PassReport :=
  { r with drafting := r.drafting + t.drafting, judging := r.judging + t.judging }

@[simp] theorem edits_charge (r : PassReport) (t : Treatment) : (r.charge t).edits = r.edits := rfl

@[simp] theorem edits_countAccepted (r : PassReport) : r.countAccepted.edits = r.edits + 1 := by
  unfold countAccepted
  split <;> simp only [edits] <;> omega

@[simp] theorem edits_countRefused (r : PassReport) : r.countRefused.edits = r.edits := by
  unfold countRefused
  split <;> rfl

@[simp] theorem edits_countUnchanged (r : PassReport) : r.countUnchanged.edits = r.edits := rfl

@[simp] theorem edits_countFailed (r : PassReport) : r.countFailed.edits = r.edits := rfl

end PassReport

/-- Takes up what became of a declaration. Edits that collide with staged ones are given up. -/
def Staging.take (w : Staging) (t : Treatment) : Staging :=
  let report := w.report.charge t
  match t.outcome with
  | .refused => ⟨w.changes, report.countRefused⟩
  | .unchanged => ⟨w.changes, report.countUnchanged⟩
  | .failed => ⟨w.changes, report.countFailed⟩
  | .accepted batch =>
    match w.changes.stage batch with
    | .ok changes => ⟨changes, report.countAccepted⟩
    | .error _ => ⟨w.changes, report.countFailed⟩

/-- What is staged after some declarations, those that the budget left out, and the session. -/
structure Treated (σ : Type) where
  staging : Staging
  left : List Planned
  session : Session σ

/-- Treats declarations in order while the budget has something left for them. -/
def Treated.ofPlanned {σ : Type} (out : Outside σ) (c : Config) (style : CommentStyle) (source : Text)
    (budget : Budget) : List Planned → Staging → Session σ → Treated σ
  | [], w, s => ⟨w, [], s⟩
  | p :: ps, w, s =>
    if budget.allows w.report.edits then
      let (t, s) := Treatment.ofPlanned out c style w.report.pass source p s
      ofPlanned out c style source budget ps (w.take t) s
    else ⟨w, p :: ps, s⟩

/-! ## Committing -/

/-- Carries out what is staged. A run that writes nothing reports the difference instead. Nothing is
noted or written if the changes cannot be shown. -/
def Staging.commit {σ : Type} (out : Outside σ) (c : Config) (source : Text) (w : Staging)
    (s : Session σ) : Except PassError PassReport × Session σ :=
  let file := w.report.file
  if w.changes.isEmpty then (.ok w.report, s)
  else
    match w.changes.commit source with
    | .error (.badEdit e) => (.error (.badEdit e), s)
    | .error .noDiff => (.error (.noDiff file), s)
    | .ok r =>
      let s := s.note (.committed file w.changes.edits)
      if c.dryRun then
        (.ok { w.report with diff := some (Diff.underName (String.ofList file) r.diff) }, s)
      else if r.isChanged then
        match s.write out file r.modified with
        | (.ok _, s) => (.ok w.report, s)
        | (.error e, s) => (.error (.unwritten file e), s)
      else (.ok w.report, s)

/-- The result of a pass over a file: its report, the budget after it, and the session. -/
structure FilePass (σ : Type) where
  result : Except PassError PassReport
  budget : Budget
  session : Session σ

namespace FilePass

variable {σ : Type}

def endsRun (done : FilePass σ) : Bool :=
  match done.result with
  | .error (.noDiff _) => true
  | _ => false

/-- The pass over a file that was planned. Edits count when they are committed; a declaration that
was left out is noted in any case. -/
def ofPlan (out : Outside σ) (c : Config) (pass : Pass) (file : Path) (found : FilePlan)
    (budget : Budget) (s : Session σ) : FilePass σ :=
  let treated :=
    Treated.ofPlanned out c found.style found.source budget found.planned (.start file pass) s
  -- noted before anything is committed, so that a pass that fails keeps the note
  let budget := if treated.left.isEmpty then budget else budget.markHit
  match treated.staging.commit out c found.source treated.session with
  | (.ok report, s) => ⟨.ok report, budget.record report.edits, s⟩
  | (.error e, s) => ⟨.error e, budget, s⟩

def ofPath (out : Outside σ) (c : Config) (pass : Pass) (file : Path) (budget : Budget)
    (s : Session σ) : FilePass σ :=
  match FilePlan.ofPath out c pass file s.outside with
  | .ok found => ofPlan out c pass file found budget s
  | .error e => ⟨.error e, budget, s⟩

end FilePass

end DocComments
