import DocComments.CommandLine.Configure
import DocComments.CommandLine.Reader
import DocComments.Files.Discover
import DocComments.Model.Chat
import DocComments.Report.Table
import DocComments.Rule.Written
import DocComments.Run.Basic

/-!
# The program

A command line is read, settings are looked up, and files are found and gone over. What the program
prints is a value, so that it can be spoken about.
-/

set_option autoImplicit false

namespace DocComments

/-- Where the program is started, over a state `σ` with the files. -/
structure Host (σ : Type) where
  environment : Environment
  /-- the working directory, as it is named in paths -/
  working : Path
  /-- what is below the working directory -/
  tree : σ → FileEntry
  write : Path → Text → σ → Except FileError Unit × σ
  tokenizer : Tokenizer
  parse : Language → Text → Tree
  send : Transport σ

/-- What a run under a configuration has to do with on a host. -/
def Host.outside {σ : Type} (h : Host σ) (c : Config) : Outside σ where
  tokenizer := h.tokenizer
  parse := h.parse
  find p s := (h.tree s).find p
  write := h.write
  models := Models.ofConfig h.tokenizer h.send h.environment c

structure Exit where
  code : Nat
  stdout : Text
  stderr : Text
  deriving DecidableEq, Repr

namespace Exit

def success (stdout : Text) : Exit := ⟨0, stdout, []⟩

def failure (message : String) : Exit := ⟨1, [], ("Error: " ++ message ++ "\n").toList⟩

/-- The end of a program that broke off. -/
def breakdown (message : String) : Exit := ⟨101, [], ("Error: " ++ message ++ "\n").toList⟩

def misuse : Exit := ⟨2, [], "usage: PATH... [--FLAG] [--NAME VALUE]\n".toList⟩

end Exit

namespace Program

def line (t : String) : Text := (t ++ "\n").toList

def titledRule (lang : Language) (c : Config) (pass : Pass) : Text :=
  line ("# " ++ lang.style.name ++ " (" ++ pass.name ++ ")") ++
    line (pass.rule lang.style c.request).display

/-- Shows the rules of a language. Dots in front of its name do not count. -/
def showRules (given : Text) (c : Config) : Exit :=
  match Language.ofName (String.ofList (Text.trimStartOf '.' given)) with
  | .error e => .failure e.message
  | .ok lang => .success (titledRule lang c .missing ++ titledRule lang c .update)

def failures (files : List Path) : Text :=
  if files.isEmpty then []
  else line (toString files.length ++ " file(s) skipped:") ++
    files.flatMap fun file => line ("  " ++ String.ofList file)

def exhaustion (r : RunReport) : Text :=
  if r.budgetExhausted then
    line ("edit budget exhausted after " ++ toString r.totalEdits ++ " edits")
  else []

def summary (c : Config) (r : RunReport) : Text :=
  (if c.dryRun then r.diffs.flatMap (· ++ ['\n']) else []) ++ r.table ++ failures r.failedFiles ++
    exhaustion r

def config {σ : Type} (h : Host σ) (a : Arguments) (s : σ) : Config :=
  a.configure (.ofSettings (Settings.load (h.tree s).read
    (Settings.sources h.environment h.working a.conf)))

/-- Goes over the files that arguments name. -/
def work {σ : Type} (h : Host σ) (a : Arguments) (c : Config) (s : σ) : Exit × σ :=
  if c.isValid then
    match discover (h.tree s) a.paths a.glob with
    | .error e => (if e.isTooDeep then .breakdown e.message else .failure e.message, s)
    | .ok files =>
      match run (h.outside c) c files s with
      | .ok done =>
        (if done.isBroken then .breakdown "documentation run broke off"
          else .success (summary c done.report), done.session.outside)
      | .error e =>
        (.failure ("documentation run failed\n\nCaused by:\n    " ++ e.message), s)
  else (.failure RunError.noPass.message, s)

def obey {σ : Type} (h : Host σ) (a : Arguments) (s : σ) : Exit × σ :=
  let c := config h a s
  match a.printRule with
  | some given => (showRules given c, s)
  | none => work h a c s

def start {σ : Type} (h : Host σ) (words : List Text) (s : σ) : Exit × σ :=
  match Arguments.read words with
  | .ok a => obey h a s
  | .error .help => (.success Exit.misuse.stderr, s)
  | .error _ => (.misuse, s)

end Program

end DocComments
