import DocComments.Edit.Changeset
import DocComments.Files.Entry
import DocComments.Model.Call
import DocComments.Syntax.Language
import DocComments.Syntax.Tree

/-!
# Sessions

A run reads and writes files and calls models. `Outside` holds how it does so, over a state `σ` of
everything that may change by it. A session is that state with a journal of what was asked,
answered and committed so far; each call adds one event to it (`journal_draft`, `journal_judge`).
-/

set_option autoImplicit false

namespace DocComments

/-- What a run has to do with outside of itself. -/
structure Outside (σ : Type) where
  tokenizer : Tokenizer
  parse : Language → Text → Tree
  /-- what a path denotes -/
  find : Path → σ → Except FileError FileEntry
  /-- puts a text into a file; it may fail half way -/
  write : Path → Text → σ → Except FileError Unit × σ
  models : Models σ

inductive Event where
  /-- a model was asked for a draft -/
  | drafted (request : DraftRequest) (answer : Except ModelError Draft)
  /-- a model was asked for a verdict -/
  | judged (question : Question) (answer : Except ModelError Verdict)
  /-- edits of a file were carried out, or shown in a run that writes nothing -/
  | committed (file : Path) (edits : List Edit)

/-- The state outside of a run and what happened so far, in order. -/
structure Session (σ : Type) where
  outside : σ
  journal : List Event

namespace Session

variable {σ : Type}

def start (s : σ) : Session σ := ⟨s, []⟩

def note (s : Session σ) (e : Event) : Session σ := { s with journal := s.journal ++ [e] }

def draft (out : Outside σ) (r : DraftRequest) (s : Session σ) :
    Except ModelError Draft × Session σ :=
  let answer := out.models.draft r s.outside
  (answer.1, ⟨answer.2, s.journal ++ [.drafted r answer.1]⟩)

def judge (out : Outside σ) (q : Question) (s : Session σ) :
    Except ModelError Verdict × Session σ :=
  let answer := out.models.judge q s.outside
  (answer.1, ⟨answer.2, s.journal ++ [.judged q answer.1]⟩)

def write (out : Outside σ) (p : Path) (t : Text) (s : Session σ) :
    Except FileError Unit × Session σ :=
  let result := out.write p t s.outside
  (result.1, { s with outside := result.2 })

theorem journal_draft (out : Outside σ) (r : DraftRequest) (s : Session σ) :
    (s.draft out r).2.journal = s.journal ++ [.drafted r (s.draft out r).1] := rfl

theorem journal_judge (out : Outside σ) (q : Question) (s : Session σ) :
    (s.judge out q).2.journal = s.journal ++ [.judged q (s.judge out q).1] := rfl

@[simp] theorem journal_write (out : Outside σ) (p : Path) (t : Text) (s : Session σ) :
    (s.write out p t).2.journal = s.journal := rfl

end Session

end DocComments
