import DocComments.Declaration.Plan
import DocComments.Prompt.Wording
import DocComments.Report.Basic
import DocComments.Run.Session
import DocComments.Settings.Config

/-!
# The treatment of a declaration

A draft of a comment is asked for, made into a comment in the style of the file and, if so
configured, judged. What comes out is a batch of edits or a reason for none.
-/

set_option autoImplicit false

namespace DocComments

inductive Outcome where
  /-- the comment passed; these edits bring it into the file -/
  | accepted (batch : List Edit)
  /-- the judge did not let the comment through -/
  | refused
  /-- the comment that is there stays -/
  | unchanged
  /-- a call failed or brought nothing -/
  | failed
  deriving DecidableEq, Repr

/-- What became of a declaration, and what it cost to find out. -/
structure Treatment where
  outcome : Outcome
  /-- the usage of the draft -/
  drafting : Usage
  /-- the usage of the verdict -/
  judging : Usage

namespace Planned

/-- The comment that is there, its nodes on lines of their own. -/
def existing (p : Planned) : Text := Text.joinLines (p.comments.map (·.text))

/-- What prompts say about the declaration. -/
def subject (p : Planned) (c : Config) (source : Text) : Subject :=
  ⟨source, p.matched.text, p.label, c.instructions⟩

/-- The removal of every comment node behind the first, with what stands in front of it. -/
def clearings : List Snapshot → List Edit
  | first :: second :: more =>
    ⟨⟨first.range.stop, second.range.stop⟩, []⟩ :: clearings (second :: more)
  | _ => []

end Planned

namespace Pass

def prompt (pass : Pass) (style : CommentStyle) (c : Config) (source : Text) (p : Planned) : Prompt :=
  match pass with
  | .missing => .forNew style (p.subject c source)
  | .update => .forUpdate style (p.subject c source) p.existing

/-- The comment that a reply asks for, or none if the one that is there stays. -/
def comment? (pass : Pass) (style : CommentStyle) (p : Planned) (reply : Text) : Option Comment :=
  let comment := Comment.ofReply style reply p.anchor
  match pass with
  | .missing => some comment
  | .update =>
    if Text.occursIn Prompt.noChange.toList reply then none
    else if p.comments.length = 1 ∧ comment.text = p.anchor.text then none
    else some comment

def labels : Pass → LabelSet
  | missing => .reviewNew
  | update => .reviewUpdate

def judgePrompt (pass : Pass) (style : CommentStyle) (p : Planned) (comment : Comment) : Prompt :=
  match pass with
  | .missing => .judgeNew style.fence p.matched.text comment.text
  | .update => .judgeUpdate style.fence p.matched.text p.existing comment.text

/-- The edits that bring a comment into the file: an insertion in front of the anchor, or the
replacement of the first comment node and the removal of the others. -/
def edits (pass : Pass) (p : Planned) (comment : Comment) : List Edit :=
  match pass with
  | .missing => [⟨⟨p.anchor.range.start, p.anchor.range.start⟩, comment.insertion⟩]
  | .update => ⟨p.anchor.range, comment.text⟩ :: Planned.clearings p.comments

def draftSystem : Text :=
  ("You are an expert software engineer writing documentation comments for source code. " ++
    "Be accurate and concise.").toList

def draftRequest (pass : Pass) (style : CommentStyle) (c : Config) (source : Text) (p : Planned) :
    DraftRequest :=
  { prompt := pass.prompt style c source p
    system := some draftSystem
    model := c.model
    temperature := c.temperature
    maxContextTokens := c.maxContextTokens }

def question (pass : Pass) (style : CommentStyle) (tk : Tokenizer) (c : Config) (p : Planned)
    (comment : Comment) : Question :=
  ⟨(pass.judgePrompt style p comment).render tk c.maxContextTokens, pass.labels⟩

end Pass

namespace Treatment

variable {σ : Type}

/-- What becomes of a comment when the judge is asked. -/
def judged (out : Outside σ) (c : Config) (style : CommentStyle) (pass : Pass) (p : Planned)
    (drafting : Usage) (comment : Comment) (s : Session σ) : Treatment × Session σ :=
  match s.judge out (pass.question style out.tokenizer c p comment) with
  | (.error _, s) => (⟨.failed, drafting, .zero⟩, s)
  | (.ok v, s) =>
    if v.accepts pass.labels then (⟨.accepted (pass.edits p comment), drafting, v.usage⟩, s)
    else (⟨.refused, drafting, v.usage⟩, s)

/-- What becomes of a draft. A blank one is worth nothing. -/
def ofDraft (out : Outside σ) (c : Config) (style : CommentStyle) (pass : Pass) (p : Planned)
    (d : Draft) (s : Session σ) : Treatment × Session σ :=
  if Text.allBlank d.text then (⟨.failed, d.usage, .zero⟩, s)
  else
    match pass.comment? style p d.text with
    | none => (⟨.unchanged, d.usage, .zero⟩, s)
    | some comment =>
      if c.judge then judged out c style pass p d.usage comment s
      else (⟨.accepted (pass.edits p comment), d.usage, .zero⟩, s)

def ofPlanned (out : Outside σ) (c : Config) (style : CommentStyle) (pass : Pass) (source : Text)
    (p : Planned) (s : Session σ) : Treatment × Session σ :=
  match s.draft out (pass.draftRequest style c source p) with
  | (.error _, s) => (⟨.failed, .zero, .zero⟩, s)
  | (.ok d, s) => ofDraft out c style pass p d s

end Treatment

end DocComments
