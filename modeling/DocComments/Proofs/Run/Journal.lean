import DocComments.Proofs.Run.Budget

/-!
# What a pass leaves in the journal

A pass asks for a draft of each declaration that it treats, in the order in which they are planned,
and commits at most once, at its end. `Session.Adds` says what was asked and committed between two
sessions; what two parts of a run add is put together by `Session.Adds.trans`. A pass that asks for
fewer drafts than it planned was cut short by the budget (`FilePass.allows_of_asked_lt`).
-/

set_option autoImplicit false

namespace DocComments

namespace Budget

variable {b : Budget} {waiting : Nat}

theorem allows_eq_false_iff :
    b.allows waiting = false ↔ ∃ n, b.limit = some n ∧ n ≤ b.used + waiting := by
  rw [← Bool.not_eq_true, allows_iff]
  push Not
  rfl

theorem allows_of_limit_eq_none (h : b.limit = none) (waiting : Nat) : b.allows waiting = true := by
  rw [allows_iff]
  intro n hn
  rw [h] at hn
  cases hn

theorem not_isExhausted_of_limit_eq_none (h : b.limit = none) : ¬ b.isExhausted = true := by
  rw [isExhausted_iff]
  rintro ⟨n, hn, -⟩
  rw [h] at hn
  cases hn

end Budget

def Event.request? : Event → Option DraftRequest
  | .drafted request _ => some request
  | _ => none

def Event.commit? : Event → Option (Path × List Edit)
  | .committed file edits => some (file, edits)
  | _ => none

namespace Session

variable {σ : Type} {s t u : Session σ} {asked asked' : List DraftRequest}
  {committed committed' : List (Path × List Edit)}

/-- The events behind those of another session. -/
def since (after before : Session σ) : List Event := after.journal.drop before.journal.length

/-- A session goes on from another one; these drafts are asked for and these edits committed. -/
structure Adds (before after : Session σ) (asked : List DraftRequest)
    (committed : List (Path × List Edit)) : Prop where
  journal : after.journal = before.journal ++ after.since before
  asked : (after.since before).filterMap Event.request? = asked
  committed : (after.since before).filterMap Event.commit? = committed

theorem adds_of_journal (events : List Event) (h : t.journal = s.journal ++ events)
    (hasked : events.filterMap Event.request? = asked)
    (hcommitted : events.filterMap Event.commit? = committed) : s.Adds t asked committed := by
  have hsince : t.since s = events := by rw [since, h, List.drop_left]
  exact ⟨by rw [hsince, h], by rw [hsince, hasked], by rw [hsince, hcommitted]⟩

theorem Adds.refl (s : Session σ) : s.Adds s [] [] :=
  adds_of_journal [] (List.append_nil _).symm rfl rfl

theorem Adds.trans (hst : s.Adds t asked committed) (htu : t.Adds u asked' committed') :
    s.Adds u (asked ++ asked') (committed ++ committed') := by
  refine adds_of_journal (t.since s ++ u.since t) ?_ ?_ ?_
  · rw [htu.journal, hst.journal, List.append_assoc]
  · rw [List.filterMap_append, hst.asked, htu.asked]
  · rw [List.filterMap_append, hst.committed, htu.committed]

variable (out : Outside σ) (s : Session σ)

theorem adds_draft (r : DraftRequest) : s.Adds (s.draft out r).2 [r] [] :=
  adds_of_journal _ (s.journal_draft out r) rfl rfl

theorem adds_judge (q : Question) : s.Adds (s.judge out q).2 [] [] :=
  adds_of_journal _ (s.journal_judge out q) rfl rfl

theorem adds_write (p : Path) (t : Text) : s.Adds (s.write out p t).2 [] [] :=
  adds_of_journal [] ((s.journal_write out p t).trans (List.append_nil _).symm) rfl rfl

end Session

/-! ## Declarations -/

namespace Treatment

variable {σ : Type} (out : Outside σ) (c : Config) (style : CommentStyle) (pass : Pass)
  (source : Text) (p : Planned) (s : Session σ)

theorem adds_judged (drafting : Usage) (comment : Comment) :
    s.Adds (judged out c style pass p drafting comment s).2 [] [] := by
  have h := s.adds_judge out (pass.question style out.tokenizer c p comment)
  unfold judged
  split
  · next heq => rwa [heq] at h
  · next heq =>
    rw [heq] at h
    split
    · exact h
    · exact h

theorem adds_ofDraft (d : Draft) : s.Adds (ofDraft out c style pass p d s).2 [] [] := by
  unfold ofDraft
  split
  · exact .refl s
  · split
    · exact .refl s
    · split
      · exact adds_judged out c style pass p s d.usage _
      · exact .refl s

/-- One draft is asked for, whatever comes of it. -/
theorem adds_ofPlanned :
    s.Adds (ofPlanned out c style pass source p s).2 [pass.draftRequest style c source p] [] := by
  have h := s.adds_draft out (pass.draftRequest style c source p)
  unfold ofPlanned
  split
  · next heq => rwa [heq] at h
  · next d s' heq =>
    rw [heq] at h
    exact h.trans (adds_ofDraft out c style pass p s' d)

end Treatment

namespace Treated

variable {σ : Type} {out : Outside σ} {c : Config} {style : CommentStyle} {source : Text}
  {budget : Budget}

/-- A draft is asked for for each declaration that is treated. -/
theorem adds_ofPlanned {pass : Pass} (planned : List Planned) {w : Staging}
    (hw : w.report.pass = pass) (s : Session σ) :
    s.Adds (ofPlanned out c style source budget planned w s).session
      ((handled out c style source budget planned w s).map fun h =>
        pass.draftRequest style c source h.planned) [] := by
  induction planned generalizing w s with
  | nil => exact .refl s
  | cons p ps ih =>
    unfold ofPlanned handled
    by_cases hbudget : budget.allows w.report.edits = true
    · simp only [hbudget, if_true, List.map_cons]
      have hone := Treatment.adds_ofPlanned out c style w.report.pass source p s
      rw [hw] at hone ⊢
      exact hone.trans (ih (by rw [(Staging.take_same _ _).1, hw]) _)
    · simp only [hbudget]
      exact .refl s

/-- Declarations are left out if the budget has nothing left for the next one behind those that
wait, and only then. -/
theorem left_eq_nil_of_allows (planned : List Planned) (w : Staging) (s : Session σ)
    (h : budget.allows
      (ofPlanned out c style source budget planned w s).staging.report.edits = true) :
    (ofPlanned out c style source budget planned w s).left = [] := by
  induction planned generalizing w s with
  | nil => rfl
  | cons p ps ih =>
    unfold ofPlanned at h ⊢
    by_cases hbudget : budget.allows w.report.edits = true
    · simp only [hbudget, if_true] at h ⊢
      exact ih _ _ h
    · simp only [hbudget] at h
      exact absurd h hbudget

end Treated

/-! ## Files -/

namespace Staging

variable {σ : Type} {out : Outside σ} {c : Config} {source : Text} {w : Staging} {s : Session σ}

/-- The edits that a commit notes: all together, or none of them. -/
def committed (source : Text) (w : Staging) : List (Path × List Edit) :=
  if w.changes.isEmpty then []
  else
    match w.changes.commit source with
    | .ok _ => [(w.report.file, w.changes.edits)]
    | .error _ => []

theorem adds_commit : s.Adds (w.commit out c source s).2 [] (w.committed source) := by
  unfold Staging.commit committed
  split
  · exact .refl s
  · cases w.changes.commit source with
    | error e => cases e <;> exact .refl s
    | ok r =>
      have hnote : s.Adds (s.note (.committed w.report.file w.changes.edits)) []
          [(w.report.file, w.changes.edits)] := Session.adds_of_journal _ rfl rfl rfl
      have hwrite := hnote.trans (Session.adds_write out _ w.report.file r.modified)
      dsimp only
      split
      · exact hnote
      · split
        · split <;> next heq => rwa [heq] at hwrite
        · exact hnote

end Staging

def FilePlan.requests (c : Config) (pass : Pass) (found : FilePlan) : List DraftRequest :=
  found.planned.map (pass.draftRequest found.style c found.source)

namespace FilePass

variable {σ : Type} (out : Outside σ) (c : Config) (pass : Pass) (file : Path) (budget : Budget)
  (s : Session σ)

/-- The drafts that are needed for all declarations that a pass plans in a file. -/
def wanted (state : σ) : List DraftRequest :=
  match FilePlan.ofPath out c pass file state with
  | .ok found => found.requests c pass
  | .error _ => []

def asked : List DraftRequest :=
  match FilePlan.ofPath out c pass file s.outside with
  | .ok found =>
    (Treated.handled out c found.style found.source budget found.planned (.start file pass) s).map
      fun h => pass.draftRequest found.style c found.source h.planned
  | .error _ => []

def committed : List (Path × List Edit) :=
  match FilePlan.ofPath out c pass file s.outside with
  | .ok found =>
    (Treated.ofPlanned out c found.style found.source budget found.planned (.start file pass)
      s).staging.committed found.source
  | .error _ => []

theorem adds_ofPath :
    s.Adds (ofPath out c pass file budget s).session (asked out c pass file budget s)
      (committed out c pass file budget s) := by
  unfold ofPath asked committed
  cases FilePlan.ofPath out c pass file s.outside with
  | error e => exact .refl s
  | ok found =>
    dsimp only
    rw [(ofPlan_eq out c pass file found budget s rfl).2, ← List.append_nil (List.map _ _)]
    exact (Treated.adds_ofPlanned found.planned rfl s).trans Staging.adds_commit

/-- The declarations that a pass treats and those that it leaves out are all that are planned. -/
theorem planned_handled_start (found : FilePlan) :
    (Treated.handled out c found.style found.source budget found.planned (.start file pass) s).map
        Handled.planned
      ++ (Treated.ofPlanned out c found.style found.source budget found.planned (.start file pass)
        s).left = found.planned :=
  Treated.planned_handled found.planned (.start file pass) s

/-- The drafts are asked for in order. -/
theorem asked_prefix_wanted :
    asked out c pass file budget s <+: wanted out c pass file s.outside := by
  unfold asked wanted
  cases FilePlan.ofPath out c pass file s.outside with
  | error e => exact List.prefix_rfl
  | ok found =>
    dsimp only [FilePlan.requests]
    conv_rhs => rw [← planned_handled_start out c pass file budget s found]
    rw [List.map_append, List.map_map]
    exact List.prefix_append _ _

/-- Not all drafts are asked for if declarations were left out, and only then. -/
theorem asked_lt_iff {found : FilePlan}
    (h : FilePlan.ofPath out c pass file s.outside = .ok found) :
    (asked out c pass file budget s).length < (wanted out c pass file s.outside).length ↔
      (Treated.ofPlanned out c found.style found.source budget found.planned (.start file pass)
        s).left ≠ [] := by
  have hplanned := congrArg List.length (planned_handled_start out c pass file budget s found)
  rw [List.length_append, List.length_map] at hplanned
  simp only [asked, wanted, h, FilePlan.requests, List.length_map]
  rw [← hplanned, ← List.length_pos_iff]
  omega

/-- A pass that leaves declarations out notes so, whatever its commit comes to. -/
theorem hit_ofPath :
    (ofPath out c pass file budget s).budget.hit = true ↔
      budget.hit = true ∨
        (asked out c pass file budget s).length < (wanted out c pass file s.outside).length := by
  cases h : FilePlan.ofPath out c pass file s.outside with
  | error e => simp [ofPath, asked, wanted, h]
  | ok found =>
    rw [asked_lt_iff out c pass file budget s h]
    simp only [ofPath, h, ofPlan]
    generalize Treated.ofPlanned out c found.style found.source budget found.planned
      (.start file pass) s = treated
    have hnote : (if treated.left.isEmpty then budget else budget.markHit).hit = true ↔
        budget.hit = true ∨ treated.left ≠ [] := by
      cases treated.left <;> simp [Budget.markHit]
    rcases treated.staging.commit out c found.source treated.session with ⟨result, s'⟩
    cases result <;> exact hnote

/-- A pass that does not ask for all drafts has staged all that the budget has left. -/
theorem allows_of_asked_lt
    (h : (asked out c pass file budget s).length < (wanted out c pass file s.outside).length) :
    budget.allows (countStaged out c pass file budget s) = false := by
  cases hfound : FilePlan.ofPath out c pass file s.outside with
  | error e => simp [asked, wanted, hfound] at h
  | ok found =>
    rw [asked_lt_iff out c pass file budget s hfound] at h
    have hstaged : (Treated.ofPlanned out c found.style found.source budget found.planned
        (.start file pass) s).staging.report.edits = countStaged out c pass file budget s := by
      simp only [countStaged, hfound]
      rw [Treated.staging_ofPlanned, Staging.edits_foldl_take]
      exact Nat.zero_add _
    rw [← hstaged]
    exact Bool.eq_false_iff.mpr fun hallows => h (Treated.left_eq_nil_of_allows _ _ _ hallows)

end FilePass

end DocComments
