import DocComments.Proofs.Run.Journal

/-!
# The calls for a declaration

For a declaration a draft is asked for, and perhaps a verdict. `Course` lists the ways in which this
can go; what becomes of the declaration and what is left in the journal can be read off it
(`Course.treatment_ofPlanned`, `Course.journal_ofPlanned`). The attempts of a pass are the
declarations that it treats, each with the course that its calls took: they hold all that the pass
asks (`Treated.journal_ofPlanned`) and decide what it stages (`Treated.treatments_handled`).
-/

set_option autoImplicit false

namespace DocComments

/-- How the calls for a declaration went. -/
inductive Course where
  /-- no draft came -/
  | undrafted (e : ModelError)
  /-- the draft is blank -/
  | blank (d : Draft)
  /-- the draft leaves the comment that is there -/
  | kept (d : Draft)
  /-- the draft makes a comment, and no verdict is asked for -/
  | unjudged (d : Draft) (comment : Comment)
  /-- the draft makes a comment, and a verdict on it is asked for -/
  | judged (d : Draft) (comment : Comment) (answer : Except ModelError Verdict)

namespace Course

def treatment (pass : Pass) (p : Planned) : Course → Treatment
  | undrafted _ => ⟨.failed, .zero, .zero⟩
  | blank d => ⟨.failed, d.usage, .zero⟩
  | kept d => ⟨.unchanged, d.usage, .zero⟩
  | unjudged d comment => ⟨.accepted (pass.edits p comment), d.usage, .zero⟩
  | judged d _ (.error _) => ⟨.failed, d.usage, .zero⟩
  | judged d comment (.ok v) =>
    if v.label = some pass.labels.accepting then
      ⟨.accepted (pass.edits p comment), d.usage, v.usage⟩
    else ⟨.refused, d.usage, v.usage⟩

def drafted : Course → Except ModelError Draft
  | undrafted e => .error e
  | blank d => .ok d
  | kept d => .ok d
  | unjudged d _ => .ok d
  | judged d _ _ => .ok d

/-- The question about the comment with the answer to it, if it was asked. -/
def verdicts (question : Comment → Question) : Course → List Event
  | judged _ comment answer => [.judged (question comment) answer]
  | _ => []

def events (request : DraftRequest) (question : Comment → Question) (k : Course) : List Event :=
  .drafted request k.drafted :: k.verdicts question

/-- The calls can go like this for a declaration. -/
def Fits (style : CommentStyle) (c : Config) (pass : Pass) (p : Planned) : Course → Prop
  | undrafted _ => True
  | blank d => Text.allBlank d.text = true
  | kept d => Text.allBlank d.text = false ∧ pass.comment? style p d.text = none
  | unjudged d comment => Text.allBlank d.text = false ∧
    pass.comment? style p d.text = some comment ∧ c.judge = false
  | judged d comment _ => Text.allBlank d.text = false ∧
    pass.comment? style p d.text = some comment ∧ c.judge = true

variable {σ : Type} (out : Outside σ) (c : Config) (style : CommentStyle) (pass : Pass)
  (source : Text) (p : Planned) (s : Session σ)

def ofDraft (d : Draft) : Course :=
  if Text.allBlank d.text then blank d
  else
    match pass.comment? style p d.text with
    | none => kept d
    | some comment =>
      if c.judge then
        judged d comment (s.judge out (pass.question style out.tokenizer c p comment)).1
      else unjudged d comment

def ofPlanned : Course :=
  match s.draft out (pass.draftRequest style c source p) with
  | (.error e, _) => undrafted e
  | (.ok d, s) => ofDraft out c style pass p s d

/-! ## What can be read off a course -/

theorem fits_ofDraft (d : Draft) : (ofDraft out c style pass p s d).Fits style c pass p := by
  unfold ofDraft
  cases hblank : Text.allBlank d.text with
  | true => exact hblank
  | false =>
    cases hcomment : pass.comment? style p d.text with
    | none => exact ⟨hblank, hcomment⟩
    | some comment =>
      cases hjudge : c.judge with
      | true => exact ⟨hblank, hcomment, hjudge⟩
      | false => exact ⟨hblank, hcomment, hjudge⟩

theorem drafted_ofDraft (d : Draft) : (ofDraft out c style pass p s d).drafted = .ok d := by
  unfold ofDraft
  split
  · rfl
  · split
    · rfl
    · split <;> rfl

/-- What the answer of the judge comes to. -/
theorem judged_eq (d : Draft) (comment : Comment) :
    Treatment.judged out c style pass p d.usage comment s
      = ((judged d comment
            (s.judge out (pass.question style out.tokenizer c p comment)).1).treatment pass p,
          (s.judge out (pass.question style out.tokenizer c p comment)).2) := by
  unfold Treatment.judged treatment
  rcases s.judge out (pass.question style out.tokenizer c p comment) with ⟨answer, s'⟩
  cases answer with
  | error e => rfl
  | ok v =>
    by_cases hlabel : v.label = some pass.labels.accepting
    · have haccepts : v.accepts pass.labels = true := beq_iff_eq.mpr hlabel
      simp only [haccepts, hlabel, if_true]
    · have haccepts : v.accepts pass.labels = false := beq_eq_false_iff_ne.mpr hlabel
      simp only [haccepts, hlabel, if_false, Bool.false_eq_true]

theorem treatment_ofDraft (d : Draft) :
    (Treatment.ofDraft out c style pass p d s).1
      = (ofDraft out c style pass p s d).treatment pass p := by
  unfold Treatment.ofDraft ofDraft
  cases Text.allBlank d.text with
  | true => rfl
  | false =>
    cases pass.comment? style p d.text with
    | none => rfl
    | some comment =>
      cases c.judge with
      | true => exact congrArg Prod.fst (judged_eq out c style pass p s d comment)
      | false => rfl

theorem journal_ofDraft (d : Draft) :
    (Treatment.ofDraft out c style pass p d s).2.journal
      = s.journal ++ (ofDraft out c style pass p s d).verdicts
          (pass.question style out.tokenizer c p) := by
  have hnone : s.journal = s.journal ++ [] := (List.append_nil _).symm
  unfold Treatment.ofDraft ofDraft
  cases Text.allBlank d.text with
  | true => exact hnone
  | false =>
    cases pass.comment? style p d.text with
    | none => exact hnone
    | some comment =>
      cases c.judge with
      | true =>
        have hasked := congrArg Prod.snd (judged_eq out c style pass p s d comment)
        exact (congrArg Session.journal hasked).trans (s.journal_judge out _)
      | false => exact hnone

theorem fits_ofPlanned : (ofPlanned out c style pass source p s).Fits style c pass p := by
  unfold ofPlanned
  split
  · trivial
  · exact fits_ofDraft out c style pass p _ _

theorem drafted_ofPlanned :
    (ofPlanned out c style pass source p s).drafted
      = (s.draft out (pass.draftRequest style c source p)).1 := by
  unfold ofPlanned
  split
  · next heq => rw [heq]; rfl
  · next heq => rw [heq]; exact drafted_ofDraft out c style pass p _ _

/-- The course decides what becomes of the declaration. -/
theorem treatment_ofPlanned :
    (Treatment.ofPlanned out c style pass source p s).1
      = (ofPlanned out c style pass source p s).treatment pass p := by
  unfold Treatment.ofPlanned ofPlanned
  rcases s.draft out (pass.draftRequest style c source p) with ⟨answer, s'⟩
  cases answer with
  | error e => rfl
  | ok d => exact treatment_ofDraft out c style pass p s' d

/-- The calls are noted, and nothing else. -/
theorem journal_ofPlanned :
    (Treatment.ofPlanned out c style pass source p s).2.journal
      = s.journal ++ (ofPlanned out c style pass source p s).events
          (pass.draftRequest style c source p) (pass.question style out.tokenizer c p) := by
  have hdraft := s.journal_draft out (pass.draftRequest style c source p)
  unfold events
  rw [drafted_ofPlanned]
  unfold Treatment.ofPlanned ofPlanned
  split
  · next heq =>
    rw [heq] at hdraft ⊢
    exact hdraft
  · next heq =>
    rw [heq] at hdraft ⊢
    dsimp only at hdraft ⊢
    rw [journal_ofDraft, hdraft, List.append_assoc]
    rfl

variable {c style pass p} {k : Course}

/-- A comment stays exactly where the draft keeps it. -/
theorem outcome_eq_unchanged_iff :
    (k.treatment pass p).outcome = .unchanged ↔ ∃ d, k = .kept d := by
  constructor
  · intro h
    cases k with
    | kept d => exact ⟨d, rfl⟩
    | judged d comment answer =>
      cases answer with
      | error e => cases h
      | ok v =>
        rw [treatment] at h
        split at h <;> cases h
    | _ => cases h
  · rintro ⟨d, rfl⟩
    rfl

/-- A comment passes if no judge is asked or the judge lets it through. -/
theorem outcome_eq_accepted_iff {batch : List Edit} :
    (k.treatment pass p).outcome = .accepted batch ↔
      ∃ d comment, batch = pass.edits p comment ∧ (k = .unjudged d comment ∨
        ∃ v, k = .judged d comment (.ok v) ∧ v.label = some pass.labels.accepting) := by
  constructor
  · intro h
    cases k with
    | unjudged d comment =>
      cases h
      exact ⟨d, comment, rfl, .inl rfl⟩
    | judged d comment answer =>
      cases answer with
      | error e => cases h
      | ok v =>
        rw [treatment] at h
        split at h
        · next hlabel =>
          cases h
          exact ⟨d, comment, rfl, .inr ⟨v, rfl, hlabel⟩⟩
        · cases h
    | _ => cases h
  · rintro ⟨d, comment, rfl, rfl | ⟨v, rfl, hlabel⟩⟩
    · rfl
    · rw [treatment, if_pos hlabel]

/-- A declaration is given up if there is no draft, or a blank one, or no verdict. -/
theorem outcome_eq_failed_iff :
    (k.treatment pass p).outcome = .failed ↔ (∃ e, k = .undrafted e) ∨ (∃ d, k = .blank d) ∨
      ∃ d comment e, k = .judged d comment (.error e) := by
  constructor
  · intro h
    cases k with
    | undrafted e => exact .inl ⟨e, rfl⟩
    | blank d => exact .inr (.inl ⟨d, rfl⟩)
    | kept d => cases h
    | unjudged d comment => cases h
    | judged d comment answer =>
      cases answer with
      | error e => exact .inr (.inr ⟨d, comment, e, rfl⟩)
      | ok v =>
        rw [treatment] at h
        split at h <;> cases h
  · rintro (⟨e, rfl⟩ | ⟨d, rfl⟩ | ⟨d, comment, e, rfl⟩) <;> rfl

/-- What the course behind a draft hangs on. -/
theorem cases_of_drafted {d : Draft} (hfits : k.Fits style c pass p) (hd : k.drafted = .ok d) :
    Text.allBlank d.text = true ∧ k = .blank d ∨
    Text.allBlank d.text = false ∧ pass.comment? style p d.text = none ∧ k = .kept d ∨
    ∃ comment, Text.allBlank d.text = false ∧ pass.comment? style p d.text = some comment ∧
      (c.judge = false ∧ k = .unjudged d comment ∨
        c.judge = true ∧ ∃ answer, k = .judged d comment answer) := by
  cases k with
  | undrafted e => cases hd
  | blank d' =>
    obtain rfl := Except.ok.inj hd
    exact .inl ⟨hfits, rfl⟩
  | kept d' =>
    obtain rfl := Except.ok.inj hd
    exact .inr (.inl ⟨hfits.1, hfits.2, rfl⟩)
  | unjudged d' comment =>
    obtain rfl := Except.ok.inj hd
    exact .inr (.inr ⟨comment, hfits.1, hfits.2.1, .inl ⟨hfits.2.2, rfl⟩⟩)
  | judged d' comment answer =>
    obtain rfl := Except.ok.inj hd
    exact .inr (.inr ⟨comment, hfits.1, hfits.2.1, .inr ⟨hfits.2.2, answer, rfl⟩⟩)

section Drafted

variable {d : Draft} {comment : Comment} (hfits : k.Fits style c pass p) (hd : k.drafted = .ok d)

include hfits hd

/-- A draft is worth nothing if it is blank, and only then. -/
theorem eq_blank_iff : k = .blank d ↔ Text.allBlank d.text = true := by
  rcases cases_of_drafted hfits hd with
    ⟨hblank, rfl⟩ | ⟨hblank, -, rfl⟩ | ⟨comment, hblank, -, ⟨-, rfl⟩ | ⟨-, answer, rfl⟩⟩ <;>
  simp [hblank]

/-- A draft keeps the comment if it is not blank and makes no other one. -/
theorem eq_kept_iff :
    k = .kept d ↔ Text.allBlank d.text = false ∧ pass.comment? style p d.text = none := by
  rcases cases_of_drafted hfits hd with
    ⟨hblank, rfl⟩ | ⟨hblank, hnone, rfl⟩ | ⟨comment, -, hsome, ⟨-, rfl⟩ | ⟨-, answer, rfl⟩⟩ <;>
  simp [*]

/-- A draft that makes a comment is judged if there is a judge. -/
theorem unjudged_or_judged (hblank : Text.allBlank d.text = false)
    (hcomment : pass.comment? style p d.text = some comment) :
    c.judge = false ∧ k = .unjudged d comment ∨
      c.judge = true ∧ ∃ answer, k = .judged d comment answer := by
  rcases cases_of_drafted hfits hd with ⟨hyes, -⟩ | ⟨-, hnone, -⟩ | ⟨made, -, hmade, hcourse⟩
  · cases hblank.symm.trans hyes
  · cases hcomment.symm.trans hnone
  · obtain rfl := Option.some.inj (hcomment.symm.trans hmade)
    exact hcourse

/-- What passes is the comment that the draft makes. -/
theorem batch_eq_edits {batch : List Edit} (h : (k.treatment pass p).outcome = .accepted batch) :
    batch = pass.edits p (Comment.ofReply style d.text p.anchor) := by
  obtain ⟨d', comment, rfl, rfl | ⟨v, rfl, -⟩⟩ := outcome_eq_accepted_iff.mp h
  · obtain rfl := Except.ok.inj hd
    rw [Pass.eq_ofReply_of_comment?_eq_some hfits.2.1]
  · obtain rfl := Except.ok.inj hd
    rw [Pass.eq_ofReply_of_comment?_eq_some hfits.2.1]

end Drafted

end Course

/-! ## The calls of a pass -/

/-- A declaration that a pass treats, with the course that its calls took. -/
structure Attempt where
  planned : Planned
  course : Course

namespace Attempt

def treatment (pass : Pass) (a : Attempt) : Treatment := a.course.treatment pass a.planned

def events (tk : Tokenizer) (c : Config) (pass : Pass) (found : FilePlan) (a : Attempt) :
    List Event :=
  a.course.events (pass.draftRequest found.style c found.source a.planned)
    (pass.question found.style tk c a.planned)

end Attempt

namespace Treated

variable {σ : Type} (out : Outside σ) (c : Config) (found : FilePlan) (budget : Budget)

/-- The declarations that a pass treats in a file, with the course of the calls for each. -/
def attempts (pass : Pass) : List Planned → Staging → Session σ → List Attempt
  | [], _, _ => []
  | p :: ps, w, s =>
    if budget.allows w.report.edits then
      let a : Attempt := ⟨p, Course.ofPlanned out c found.style pass found.source p s⟩
      a :: attempts pass ps (w.take (a.treatment pass))
        (Treatment.ofPlanned out c found.style pass found.source p s).2
    else []

variable {pass : Pass} (planned : List Planned) {w : Staging} (hw : w.report.pass = pass)
  (s : Session σ)

include hw

/-- An attempt is made for each declaration that is treated, and decides what becomes of it. -/
theorem map_handled :
    (handled out c found.style found.source budget planned w s).map
        (fun h => (h.planned, h.treatment))
      = (attempts out c found budget pass planned w s).map
          fun a => (a.planned, a.treatment pass) := by
  -- a staging takes any treatment without a change of its pass, so the pass stays in the induction
  induction planned generalizing w s with
  | nil => rfl
  | cons p ps ih =>
    unfold attempts handled
    by_cases hbudget : budget.allows w.report.edits = true
    · have hone : (Handled.ofPlanned out c found.style pass found.source p s).treatment
          = (⟨p, Course.ofPlanned out c found.style pass found.source p s⟩ : Attempt).treatment
              pass :=
        Course.treatment_ofPlanned out c found.style pass found.source p s
      have hnext : ∀ t, (w.take t).report.pass = pass :=
        fun t => (Staging.take_same w t).1.trans hw
      simp only [hbudget, if_true, List.map_cons, hw]
      rw [hone, ih (hnext _)]
      rfl
    · simp [hbudget]

theorem planned_handled_eq_attempts :
    (handled out c found.style found.source budget planned w s).map Handled.planned
      = (attempts out c found budget pass planned w s).map Attempt.planned := by
  have h := congrArg (List.map Prod.fst) (map_handled out c found budget planned hw s)
  rwa [List.map_map, List.map_map] at h

theorem treatments_handled :
    (handled out c found.style found.source budget planned w s).map Handled.treatment
      = (attempts out c found budget pass planned w s).map (Attempt.treatment pass) := by
  have h := congrArg (List.map Prod.snd) (map_handled out c found budget planned hw s)
  rwa [List.map_map, List.map_map] at h

/-- What is noted while declarations are treated are the calls of the attempts. -/
theorem journal_ofPlanned :
    (ofPlanned out c found.style found.source budget planned w s).session.journal
      = s.journal ++ (attempts out c found budget pass planned w s).flatMap
          (Attempt.events out.tokenizer c pass found) := by
  induction planned generalizing w s with
  | nil => exact (List.append_nil _).symm
  | cons p ps ih =>
    unfold attempts ofPlanned
    by_cases hbudget : budget.allows w.report.edits = true
    · have hnext : ∀ t, (w.take t).report.pass = pass :=
        fun t => (Staging.take_same w t).1.trans hw
      have hone := Course.journal_ofPlanned out c found.style pass found.source p s
      simp only [hbudget, if_true, hw]
      rw [ih (hnext _), hone, Course.treatment_ofPlanned, List.flatMap_cons, List.append_assoc]
      rfl
    · simp [hbudget]

theorem fits_of_mem_attempts {a : Attempt}
    (ha : a ∈ attempts out c found budget pass planned w s) :
    a.course.Fits found.style c pass a.planned := by
  induction planned generalizing w s with
  | nil => cases ha
  | cons p ps ih =>
    unfold attempts at ha
    by_cases hbudget : budget.allows w.report.edits = true
    · simp only [hbudget, if_true] at ha
      rcases List.mem_cons.mp ha with rfl | ha
      · exact Course.fits_ofPlanned out c found.style pass found.source p s
      · exact ih ((Staging.take_same w _).1.trans hw) _ ha
    · simp [hbudget] at ha

end Treated

end DocComments
