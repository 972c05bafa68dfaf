import DocComments.Run.FilePass
import DocComments.Proofs.Diff.Hunk
import DocComments.Proofs.Edit.Commit

/-!
# What a pass does

A pass treats planned declarations one after the other until the budget has nothing left for the
next one. `Treated.handled` lists those that it treats, with the replies and with what becomes of
them; what is staged in the end is what they leave one after the other
(`staging_ofPlanned`). A batch that is accepted brings in the comment that the reply makes
(`exists_comment?_of_accepted`). What is staged is then committed, and the pass comes to what the
commit comes to (`FilePass.ofPlan_eq`).
-/

set_option autoImplicit false

namespace DocComments

/-! ## One declaration -/

namespace Treatment

variable {σ : Type} {out : Outside σ} {c : Config} {style : CommentStyle} {pass : Pass}
  {source : Text} {p : Planned} {s : Session σ} {batch : List Edit}

theorem batch_eq_of_judged {drafting : Usage} {comment : Comment}
    (h : (judged out c style pass p drafting comment s).1.outcome = .accepted batch) :
    batch = pass.edits p comment := by
  unfold judged at h
  split at h
  · cases h
  · split at h
    · cases h
      rfl
    · cases h

theorem exists_comment?_of_ofDraft {d : Draft}
    (h : (ofDraft out c style pass p d s).1.outcome = .accepted batch) :
    ∃ comment, pass.comment? style p d.text = some comment ∧ batch = pass.edits p comment := by
  unfold ofDraft at h
  split at h
  · cases h
  · split at h
    · cases h
    · next comment hcomment =>
      refine ⟨comment, hcomment, ?_⟩
      split at h
      · exact batch_eq_of_judged h
      · cases h
        rfl

/-- An accepted batch brings in the comment that the reply makes. -/
theorem exists_comment?_of_accepted
    (h : (ofPlanned out c style pass source p s).1.outcome = .accepted batch) :
    ∃ d comment, (s.draft out (pass.draftRequest style c source p)).1 = .ok d ∧
      pass.comment? style p d.text = some comment ∧ batch = pass.edits p comment := by
  unfold ofPlanned at h
  cases hdraft : s.draft out (pass.draftRequest style c source p) with
  | mk answer s' =>
    rw [hdraft] at h
    cases answer with
    | error e => cases h
    | ok d =>
      obtain ⟨comment, hcomment, hbatch⟩ := exists_comment?_of_ofDraft h
      exact ⟨d, comment, rfl, hcomment, hbatch⟩

end Treatment

/-- The comment of a reply, if one is made, is in the style of the file and fits the anchor. -/
theorem Pass.eq_ofReply_of_comment?_eq_some {pass : Pass} {style : CommentStyle} {p : Planned}
    {reply : Text} {comment : Comment} (h : pass.comment? style p reply = some comment) :
    comment = Comment.ofReply style reply p.anchor := by
  cases pass with
  | missing => exact (Option.some.inj h).symm
  | update =>
    simp only [Pass.comment?] at h
    split at h
    · cases h
    · split at h
      · cases h
      · exact (Option.some.inj h).symm

/-! ## All declarations -/

/-- A declaration that a pass treated: the reply for it, if one came, and what became of it. -/
structure Handled where
  planned : Planned
  reply : Option Text
  treatment : Treatment

namespace Handled

variable {σ : Type}

def ofPlanned (out : Outside σ) (c : Config) (style : CommentStyle) (pass : Pass) (source : Text)
    (p : Planned) (s : Session σ) : Handled :=
  ⟨p, (s.draft out (pass.draftRequest style c source p)).1.toOption.map Draft.text,
    (Treatment.ofPlanned out c style pass source p s).1⟩

/-- What a treated declaration has to do with the reply and with the edits that are accepted. -/
def MadeBy (style : CommentStyle) (pass : Pass) (h : Handled) : Prop :=
  ∀ batch, h.treatment.outcome = .accepted batch → ∃ reply comment, h.reply = some reply ∧
    pass.comment? style h.planned reply = some comment ∧ batch = pass.edits h.planned comment

theorem madeBy_ofPlanned (out : Outside σ) (c : Config) (style : CommentStyle) (pass : Pass)
    (source : Text) (p : Planned) (s : Session σ) :
    (ofPlanned out c style pass source p s).MadeBy style pass := by
  intro batch h
  obtain ⟨d, comment, hdraft, hcomment, hbatch⟩ := Treatment.exists_comment?_of_accepted h
  refine ⟨d.text, comment, ?_, hcomment, hbatch⟩
  rw [ofPlanned, hdraft]
  rfl

end Handled

namespace PassReport

/-- A report stays one about the same pass over the same file. -/
theorem countAccepted_same (r : PassReport) :
    r.countAccepted.pass = r.pass ∧ r.countAccepted.file = r.file := by
  unfold countAccepted
  split <;> exact ⟨rfl, rfl⟩

theorem countRefused_same (r : PassReport) :
    r.countRefused.pass = r.pass ∧ r.countRefused.file = r.file := by
  unfold countRefused
  split <;> exact ⟨rfl, rfl⟩

end PassReport

/-- Whatever becomes of a declaration, the report is about the same pass over the same file. -/
theorem Staging.take_same (w : Staging) (t : Treatment) :
    (w.take t).report.pass = w.report.pass ∧ (w.take t).report.file = w.report.file := by
  unfold take
  split
  · exact PassReport.countRefused_same _
  · exact ⟨rfl, rfl⟩
  · exact ⟨rfl, rfl⟩
  · split
    · exact PassReport.countAccepted_same _
    · exact ⟨rfl, rfl⟩

namespace Treated

variable {σ : Type}

/-- Of a configuration matters what becomes of a single declaration. -/
theorem ofPlanned_congr {out : Outside σ} {c c' : Config}
    (h : Treatment.ofPlanned out c = Treatment.ofPlanned out c') :
    ofPlanned out c = ofPlanned out c' := by
  funext style source budget planned w s
  induction planned generalizing w s with
  | nil => rfl
  | cons p ps ih =>
    unfold ofPlanned
    rw [h]
    dsimp only
    rw [ih]

def handled (out : Outside σ) (c : Config) (style : CommentStyle) (source : Text)
    (budget : Budget) : List Planned → Staging → Session σ → List Handled
  | [], _, _ => []
  | p :: ps, w, s =>
    if budget.allows w.report.edits then
      let h := Handled.ofPlanned out c style w.report.pass source p s
      h :: handled out c style source budget ps (w.take h.treatment)
        (Treatment.ofPlanned out c style w.report.pass source p s).2
    else []

section Handled

variable {out : Outside σ} {c : Config} {style : CommentStyle} {source : Text} {budget : Budget}

/-- What is staged is what the treated declarations leave, one after the other. -/
theorem staging_ofPlanned (planned : List Planned) (w : Staging) (s : Session σ) :
    (ofPlanned out c style source budget planned w s).staging
      = ((handled out c style source budget planned w s).map Handled.treatment).foldl
          Staging.take w := by
  induction planned generalizing w s with
  | nil => rfl
  | cons p ps ih =>
    unfold ofPlanned handled
    by_cases hbudget : budget.allows w.report.edits = true
    · simp only [hbudget, if_true]
      rw [List.map_cons, List.foldl_cons]
      exact ih _ _
    · simp [hbudget]

/-- The planned declarations are treated in order, up to the one at which the budget ends. -/
theorem planned_handled (planned : List Planned) (w : Staging) (s : Session σ) :
    (handled out c style source budget planned w s).map Handled.planned
      ++ (ofPlanned out c style source budget planned w s).left = planned := by
  induction planned generalizing w s with
  | nil => rfl
  | cons p ps ih =>
    unfold ofPlanned handled
    by_cases hbudget : budget.allows w.report.edits = true
    · simp only [hbudget, if_true]
      rw [List.map_cons, List.cons_append]
      exact congrArg (p :: ·) (ih _ _)
    · simp [hbudget]

theorem madeBy_of_mem_handled {pass : Pass} {planned : List Planned} {w : Staging} {s : Session σ}
    (hw : w.report.pass = pass) {h : Handled}
    (hmem : h ∈ handled out c style source budget planned w s) : h.MadeBy style pass := by
  induction planned generalizing w s with
  | nil => cases hmem
  | cons p ps ih =>
    unfold handled at hmem
    by_cases hbudget : budget.allows w.report.edits = true
    · simp only [hbudget, if_true] at hmem
      rcases List.mem_cons.mp hmem with rfl | hmem
      · rw [hw]
        exact Handled.madeBy_ofPlanned out c style pass source p s
      · exact ih (by rw [(Staging.take_same _ _).1, hw]) hmem
    · simp [hbudget] at hmem

end Handled

end Treated

/-! ## Committing -/

namespace Staging

variable {σ : Type} {out : Outside σ} {c : Config} {source : Text} {w : Staging} {s : Session σ}

/-- A commit fails because an edit is misplaced, because the changes have no diff, or because the
file cannot be written. -/
theorem commit_eq_error {e : PassError} (h : (w.commit out c source s).1 = .error e) :
    (∃ x, w.changes.commit source = .error (.badEdit x) ∧ e = .badEdit x) ∨
      (w.changes.commit source = .error .noDiff ∧ e = .noDiff w.report.file) ∨
      ∃ r x, w.changes.commit source = .ok r ∧
        (out.write w.report.file r.modified s.outside).1 = .error x ∧
        e = .unwritten w.report.file x := by
  unfold Staging.commit at h
  split at h
  · cases h
  · split at h
    · next x hx => exact .inl ⟨x, hx, (Except.error.inj h).symm⟩
    · next hx => exact .inr (.inl ⟨hx, (Except.error.inj h).symm⟩)
    · next r hr =>
      dsimp only at h
      split at h
      · cases h
      · split at h
        · split at h
          · cases h
          · next x _ hx =>
            exact .inr (.inr ⟨r, x, hr, congrArg Prod.fst hx, (Except.error.inj h).symm⟩)
        · cases h

/-- A commit breaks off where the changes have no diff, and names its file. -/
theorem commit_eq_noDiff_iff {file : Path} :
    (w.commit out c source s).1 = .error (.noDiff file) ↔
      w.report.file = file ∧ w.changes.commit source = .error .noDiff := by
  constructor
  · intro h
    rcases commit_eq_error h with ⟨x, -, hx⟩ | ⟨hnoDiff, hfile⟩ | ⟨r, x, -, -, hx⟩
    · cases hx
    · exact ⟨(PassError.noDiff.inj hfile).symm, hnoDiff⟩
    · cases hx
  · rintro ⟨rfl, hnoDiff⟩
    have hempty : w.changes.isEmpty = false := by
      cases hempty : w.changes.isEmpty with
      | false => rfl
      | true =>
        have hnil : w.changes.edits = [] := List.isEmpty_iff.mp hempty
        simp [Changeset.commit, hnil] at hnoDiff
    rw [Staging.commit, if_neg (by simp [hempty]), hnoDiff]

/-- What is committed is what is written. -/
theorem commit_of_changed {r : Commit} (h : w.changes.commit source = .ok r)
    (hmodified : r.modified ≠ source) (hdryRun : c.dryRun = false) :
    w.commit out c source s =
      let written := (s.note (.committed w.report.file w.changes.edits)).write out w.report.file
        r.modified
      ((written.1.mapError (.unwritten w.report.file)).map fun _ => w.report, written.2) := by
  obtain ⟨hempty, hchanged⟩ := Changeset.isChanged_of_commit_eq_ok h hmodified
  unfold Staging.commit
  simp only [hempty, h, hdryRun, hchanged, if_true, Bool.false_eq_true, if_false]
  split <;> next heq => rw [heq]; rfl

/-- A commit leaves everything outside as it is, or it writes its file. -/
theorem outside_commit (out : Outside σ) (c : Config) (source : Text) (w : Staging)
    (s : Session σ) :
    (w.commit out c source s).2.outside = s.outside ∨
      ∃ t, (w.commit out c source s).2.outside = (out.write w.report.file t s.outside).2 := by
  unfold Staging.commit
  split
  · exact .inl rfl
  · cases w.changes.commit source with
    | error e => cases e <;> exact .inl rfl
    | ok r =>
      dsimp only
      split
      · exact .inl rfl
      · split
        · refine .inr ⟨r.modified, ?_⟩
          split <;> next heq => exact congrArg (fun x => x.2.outside) heq.symm
        · exact .inl rfl

/-- A commit adds a diff to the report at most. -/
theorem exists_diff_of_commit_eq_ok {r : PassReport} (h : (w.commit out c source s).1 = .ok r) :
    ∃ diff, r = { w.report with diff := diff } := by
  unfold Staging.commit at h
  split at h
  · exact ⟨_, (Except.ok.inj h).symm⟩
  · split at h
    · cases h
    · cases h
    · split at h
      · exact ⟨_, (Except.ok.inj h).symm⟩
      · split at h
        · dsimp only at h
          split at h
          · exact ⟨_, (Except.ok.inj h).symm⟩
          · cases h
        · exact ⟨_, (Except.ok.inj h).symm⟩

/-- A commit does not change the numbers of the report. -/
theorem edits_of_commit_eq_ok {r : PassReport} (h : (w.commit out c source s).1 = .ok r) :
    r.edits = w.report.edits := by
  obtain ⟨diff, rfl⟩ := exists_diff_of_commit_eq_ok h
  rfl

end Staging

namespace FilePass

variable {σ : Type}

/-- A pass comes to what its commit comes to. -/
theorem ofPlan_eq (out : Outside σ) (c : Config) (pass : Pass) (file : Path)
    (found : FilePlan) (budget : Budget) (s : Session σ) {treated : Treated σ}
    (h : Treated.ofPlanned out c found.style found.source budget found.planned (.start file pass) s
      = treated) :
    (ofPlan out c pass file found budget s).result
        = (treated.staging.commit out c found.source treated.session).1 ∧
      (ofPlan out c pass file found budget s).session
        = (treated.staging.commit out c found.source treated.session).2 := by
  simp only [ofPlan, h]
  rcases treated.staging.commit out c found.source treated.session with ⟨result, s'⟩
  cases result with
  | error e => exact ⟨rfl, rfl⟩
  | ok report => exact ⟨rfl, rfl⟩

theorem endsRun_iff {done : FilePass σ} :
    done.endsRun = true ↔ ∃ file, done.result = .error (.noDiff file) := by
  unfold endsRun
  split
  · next file h => exact iff_of_true rfl ⟨file, h⟩
  · next h => exact iff_of_false Bool.false_ne_true fun ⟨file, hfile⟩ => h file hfile

/-- A pass breaks the run off where the staged edits have no diff. -/
theorem endsRun_ofPlan_iff (out : Outside σ) (c : Config) (pass : Pass) (file : Path)
    (found : FilePlan) (budget : Budget) (s : Session σ) {treated : Treated σ}
    (h : Treated.ofPlanned out c found.style found.source budget found.planned (.start file pass) s
      = treated) :
    (ofPlan out c pass file found budget s).endsRun = true ↔
      treated.staging.changes.commit found.source = .error .noDiff := by
  rw [endsRun_iff, (ofPlan_eq out c pass file found budget s h).1]
  simp only [Staging.commit_eq_noDiff_iff, exists_eq_left']

/-- Where the staged edits make up a text, the pass comes to that text if the diff of the two texts
has no reversed hunk, and breaks off without having written anything if it has one. -/
theorem ofPlan_of_commit (out : Outside σ) (c : Config) (pass : Pass) (file : Path)
    (found : FilePlan) (budget : Budget) (s : Session σ) {treated : Treated σ} {modified : Text}
    {locations : List EditLocation}
    (h : Treated.ofPlanned out c found.style found.source budget found.planned (.start file pass) s
      = treated)
    (hfile : treated.staging.report.file = file)
    (hcommit : treated.staging.changes.commit found.source =
      match Diff.unified? found.source modified with
      | none => .error .noDiff
      | some diff => .ok ⟨found.source, modified, locations, diff⟩) :
    ((∃ r, treated.staging.changes.commit found.source = .ok r ∧ r.modified = modified) ↔
        ¬ Diff.HasReversedHunk found.source modified) ∧
      ((ofPlan out c pass file found budget s).result = .error (.noDiff file) ↔
        Diff.HasReversedHunk found.source modified) ∧
      (¬ Diff.HasReversedHunk found.source modified → c.dryRun = false →
        modified ≠ found.source →
        (ofPlan out c pass file found budget s).session =
          ((treated.session.note (.committed file treated.staging.changes.edits)).write out file
            modified).2) := by
  obtain ⟨hresult, hsession⟩ := ofPlan_eq out c pass file found budget s h
  have hnoDiff : (treated.staging.commit out c found.source treated.session).1
        = .error (.noDiff treated.staging.report.file) ↔
      treated.staging.changes.commit found.source = .error .noDiff :=
    Staging.commit_eq_noDiff_iff.trans (and_iff_right rfl)
  rw [hfile] at hnoDiff
  rw [hresult, hsession, hnoDiff, ← Diff.unified?_eq_none_iff]
  cases hdiff : Diff.unified? found.source modified with
  | none =>
    rw [hdiff] at hcommit
    exact ⟨by simp [hcommit], by simp [hcommit], fun hshown => absurd rfl hshown⟩
  | some diff =>
    rw [hdiff] at hcommit
    refine ⟨by simp [hcommit], by simp [hcommit], fun _ hdryRun hmodified => ?_⟩
    rw [← hfile]
    exact congrArg Prod.snd (Staging.commit_of_changed hcommit hmodified hdryRun)

/-- The pass over a file for which there is a plan. -/
theorem ofPath_of_plan {out : Outside σ} {c : Config} {pass : Pass} {file : Path}
    {found : FilePlan} {s : Session σ} (h : FilePlan.ofPath out c pass file s.outside = .ok found)
    (budget : Budget) :
    ofPath out c pass file budget s = ofPlan out c pass file found budget s := by
  rw [ofPath, h]

/-- The plan for a file that can be read. -/
theorem plan_of_search (out : Outside σ) (c : Config) (pass : Pass) (file : Path)
    (state : σ) {lang : Language} {source : Text} {matched : List Node}
    (hlang : Language.ofPath? file = some lang)
    (hsource : Source.ofEntry file c.maxFileSize (out.find file state) = .ok source)
    (hmatched : (pass.rule lang.style c.request).search lang source (out.parse lang source)
      = .ok matched) :
    FilePlan.ofPath out c pass file state
      = .ok ⟨lang.style, source, matched.filterMap (Planned.ofNode? lang.style pass source)⟩ := by
  unfold FilePlan.ofPath
  simp only [hlang, hsource, plan, hmatched, Except.map]

/-- The pass over a file that can be read and whose declarations can be planned. -/
theorem ofPath_of_search (out : Outside σ) (c : Config) (pass : Pass) (file : Path)
    (budget : Budget) (s : Session σ) {lang : Language} {source : Text} {matched : List Node}
    (hlang : Language.ofPath? file = some lang)
    (hsource : Source.ofEntry file c.maxFileSize (out.find file s.outside) = .ok source)
    (hmatched : (pass.rule lang.style c.request).search lang source (out.parse lang source)
      = .ok matched) :
    ofPath out c pass file budget s
      = ofPlan out c pass file
          ⟨lang.style, source, matched.filterMap (Planned.ofNode? lang.style pass source)⟩
          budget s := by
  unfold ofPath
  rw [plan_of_search out c pass file s.outside hlang hsource hmatched]

end FilePass

end DocComments
