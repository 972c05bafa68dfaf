import DocComments.Proofs.Run.Append
import DocComments.Proofs.Run.Tree

/-!
# Runs that write nothing

A dry run makes the passes of the run that writes, and shows each change instead of writing it. The
two runs see the same wherever they look, because a run with one pass writes a file only behind
everything that it has to read in it. They ask the models the same and are answered the same, and a
pass of one comes to what the pass of the other comes to, apart from the diff
(`FilePass.previews_ofPath`). `run_dry_previews` says so of whole runs.
-/

set_option autoImplicit false

namespace DocComments

/-! ## The same configuration with and without writing -/

def Config.withDryRun (c : Config) (dryRun : Bool) : Config := { c with dryRun := dryRun }

section WithDryRun

variable {σ : Type} (out : Outside σ) (c : Config) (dryRun : Bool)

theorem Treated.ofPlanned_withDryRun :
    Treated.ofPlanned out (c.withDryRun dryRun) = Treated.ofPlanned out c :=
  Treated.ofPlanned_congr rfl

theorem FilePlan.ofPath_withDryRun :
    FilePlan.ofPath out (c.withDryRun dryRun) = FilePlan.ofPath out c := rfl

end WithDryRun

/-! ## Diffs and scripts -/

def Diff.ofFile? (file : Path) (before after : Text) : Option Text :=
  (unified? before after).map (underName (String.ofList file))

def PassReport.withoutDiff (r : PassReport) : PassReport := { r with diff := none }

/-- The report of a dry pass shows what becomes of its file: the diff of the text that the file has
before and of the one that it has behind a run that writes, if edits are staged. -/
def PassReport.Shows {σ : Type} (out : Outside σ) (before after : σ) (r : PassReport) : Prop :=
  if r.edits = 0 then r.diff = none
  else ∃ original modified diff, out.Holds r.file original before ∧
    out.Holds r.file modified after ∧ Diff.ofFile? r.file original modified = some diff ∧
    r.diff = some diff

theorem PassReport.Shows.congr {σ : Type} {out : Outside σ} {before before' after after' : σ}
    {r : PassReport} (h : r.Shows out before after)
    (hbefore : out.seen r.file before' = out.seen r.file before)
    (hafter : out.seen r.file after' = out.seen r.file after) : r.Shows out before' after' := by
  unfold Shows at h ⊢
  split at h
  · next hnone => rwa [if_pos hnone]
  · next hsome =>
    rw [if_neg hsome]
    obtain ⟨original, modified, diff, horiginal, hmodified, hdiff⟩ := h
    exact ⟨original, modified, diff, horiginal.congr hbefore, hmodified.congr hafter, hdiff⟩

/-- Sessions with one journal in which the script is at one place go on alike. -/
theorem Session.coupling_script {σ τ : Type} {out : Outside σ} {script : σ → τ}
    (h : out.Scripted script) :
    Coupling out fun s t => s.journal = t.journal ∧ script s.outside = script t.outside where
  draft r s t := by
    rintro ⟨hjournal, hscript⟩
    obtain ⟨hanswer, hnext⟩ := h.draft r hscript
    refine ⟨hanswer, ?_, hnext⟩
    rw [journal_draft, journal_draft, hjournal]
    exact congrArg (fun answer => t.journal ++ [Event.drafted r answer]) hanswer
  judge q s t := by
    rintro ⟨hjournal, hscript⟩
    obtain ⟨hanswer, hnext⟩ := h.judge q hscript
    refine ⟨hanswer, ?_, hnext⟩
    rw [journal_judge, journal_judge, hjournal]
    exact congrArg (fun answer => t.journal ++ [Event.judged q answer]) hanswer

/-! ## What is committed -/

/-- A commit of staged edits gives the text with the edits and the diff of it. -/
theorem Changeset.of_commit_eq_ok {changes : Changeset} {content : Text} {r : Commit}
    (h : changes.commit content = .ok r) (hsome : changes.isEmpty = false) :
    Diff.unified? content r.modified = some r.diff ∧
      (r.isChanged = true ↔ r.modified ≠ content) := by
  have hchanged : r.modified ≠ content → r.isChanged = true :=
    fun hmodified => (isChanged_of_commit_eq_ok h hmodified).2
  unfold commit at h
  split at h
  · cases h
  · split at h
    · next hempty => exact absurd (hempty.symm.trans hsome) (by simp)
    · dsimp only at h
      split at h
      · cases h
      · next diff hdiff =>
        obtain rfl := Except.ok.inj h
        refine ⟨hdiff, fun hchanges heq => ?_, hchanged⟩
        simp only [Commit.isChanged, Bool.and_eq_true, bne_iff_ne] at hchanges
        exact hchanges.2 heq.symm

namespace Staging

variable {σ : Type} {out : Outside σ} {c : Config} {source : Text} {w : Staging}
  {s t : Session σ}

theorem diff_take (w : Staging) (t : Treatment) : (w.take t).report.diff = w.report.diff := by
  unfold take PassReport.countAccepted PassReport.countRefused
  dsimp only
  split
  · split <;> rfl
  · rfl
  · rfl
  · split
    · split <;> rfl
    · rfl

theorem diff_foldl_take (w : Staging) (ts : List Treatment) :
    (ts.foldl take w).report.diff = w.report.diff := by
  induction ts generalizing w with
  | nil => rfl
  | cons t ts ih => rw [List.foldl_cons, ih, diff_take]

theorem commit_of_isEmpty (c : Config) (s : Session σ) (hempty : w.changes.isEmpty = true) :
    w.commit out c source s = (.ok w.report, s) := by
  rw [commit, if_pos hempty]

/-- Edits that cannot be carried out are no matter of what is done with them. -/
theorem exists_commit_eq_error (out : Outside σ) {e : CommitError}
    (hempty : w.changes.isEmpty = false) (h : w.changes.commit source = .error e) :
    ∃ error, ∀ (c : Config) (s : Session σ), w.commit out c source s = (.error error, s) := by
  cases e with
  | badEdit e => exact ⟨.badEdit e, fun c s => by rw [commit, if_neg (by simp [hempty]), h]⟩
  | noDiff => exact ⟨.noDiff w.report.file, fun c s => by rw [commit, if_neg (by simp [hempty]), h]⟩

theorem commit_of_dryRun {r : Commit} (s : Session σ) (hempty : w.changes.isEmpty = false)
    (h : w.changes.commit source = .ok r) (hdryRun : c.dryRun = true) :
    w.commit out c source s
      = (.ok { w.report with diff := some (Diff.underName (String.ofList w.report.file) r.diff) },
        s.note (.committed w.report.file w.changes.edits)) := by
  rw [commit, if_neg (by simp [hempty]), h]
  exact if_pos hdryRun

/-- A commit that can write its file leaves it with the new text, if that is another one. -/
theorem commit_of_written {r : Commit} (s : Session σ) (hempty : w.changes.isEmpty = false)
    (h : w.changes.commit source = .ok r) (hdryRun : c.dryRun = false)
    (hwritten : ∀ e, (w.commit out c source s).1 ≠ .error (.unwritten w.report.file e)) :
    (w.commit out c source s).1 = .ok w.report ∧
      (w.commit out c source s).2.journal
        = s.journal ++ [.committed w.report.file w.changes.edits] ∧
      (r.isChanged = true → (out.write w.report.file r.modified s.outside).1 = .ok () ∧
        (w.commit out c source s).2.outside = (out.write w.report.file r.modified s.outside).2) ∧
      (r.isChanged = false → (w.commit out c source s).2.outside = s.outside) := by
  cases hchanged : r.isChanged with
  | false =>
    have hcommit : w.commit out c source s
        = (.ok w.report, s.note (.committed w.report.file w.changes.edits)) := by
      rw [commit, if_neg (by simp [hempty]), h]
      exact (if_neg (by simp [hdryRun])).trans (if_neg (by simp [hchanged]))
    rw [hcommit]
    exact ⟨rfl, rfl, fun h => absurd h Bool.false_ne_true, fun _ => rfl⟩
  | true =>
    have hmodified : r.modified ≠ source := (Changeset.of_commit_eq_ok h hempty).2.mp hchanged
    have hcommit : w.commit out c source s = _ := commit_of_changed h hmodified hdryRun
    rw [hcommit] at hwritten ⊢
    unfold Session.write at hwritten ⊢
    dsimp only at hwritten ⊢
    have hoffer : (s.note (.committed w.report.file w.changes.edits)).outside = s.outside := rfl
    rw [hoffer] at hwritten ⊢
    cases hwrite : (out.write w.report.file r.modified s.outside).1 with
    | error e =>
      rw [hwrite] at hwritten
      exact absurd rfl (hwritten e)
    | ok u => exact ⟨rfl, rfl, fun _ => ⟨rfl, rfl⟩, fun h => absurd h.symm Bool.false_ne_true⟩

section Previews

variable {τ : Type} {script : σ → τ} {bytes : ByteArray}

/-- A commit reads nothing from the script. -/
theorem script_commit (hscript : out.Scripted script) :
    script (w.commit out c source s).2.outside = script s.outside := by
  rcases outside_commit out c source w s with hsame | ⟨text, hwritten⟩
  · rw [hsame]
  · rw [hwritten]
    exact hscript.write _ _ _

/-- Behind a commit that can write its file the file has the new text, because it was written or
because it is the text that was there. -/
theorem holds_commit {r : Commit} (hstores : out.Stores w.report.file)
    (hthere : out.find w.report.file s.outside = .ok (.file bytes))
    (hdecode : Utf8.decode bytes = .ok source) (hempty : w.changes.isEmpty = false)
    (h : w.changes.commit source = .ok r) (hdryRun : c.dryRun = false)
    (hwritten : ∀ e, (w.commit out c source s).1 ≠ .error (.unwritten w.report.file e)) :
    out.Holds w.report.file r.modified (w.commit out c source s).2.outside := by
  obtain ⟨-, -, hchanged, hunchanged⟩ := commit_of_written s hempty h hdryRun hwritten
  cases hwrites : r.isChanged with
  | true =>
    obtain ⟨hok, houtside⟩ := hchanged hwrites
    rw [houtside]
    exact hstores r.modified s.outside bytes hthere hok
  | false =>
    have hsame : r.modified = source := by
      by_contra hother
      rw [(Changeset.of_commit_eq_ok h hempty).2.mpr hother] at hwrites
      cases hwrites
    rw [hunchanged hwrites, hsame]
    exact ⟨bytes, hthere, hdecode⟩

/-- A commit that writes nothing comes to what the same commit comes to when it writes, and shows
what is written. -/
theorem previews_commit (hscript : out.Scripted script) (hstores : out.Stores w.report.file)
    (hjournal : s.journal = t.journal) (hst : script s.outside = script t.outside)
    (hs : out.find w.report.file s.outside = .ok (.file bytes))
    (ht : out.find w.report.file t.outside = .ok (.file bytes))
    (hdecode : Utf8.decode bytes = .ok source) (hfresh : w.report.diff = none)
    (hedits : w.changes.isEmpty = true ↔ w.report.edits = 0)
    (hwritten : ∀ e, (w.commit out (c.withDryRun false) source s).1
      ≠ .error (.unwritten w.report.file e)) :
    let real := w.commit out (c.withDryRun false) source s
    let dry := w.commit out (c.withDryRun true) source t
    dry.1.map PassReport.withoutDiff = real.1 ∧ dry.2.journal = real.2.journal ∧
      script dry.2.outside = script real.2.outside ∧ dry.2.outside = t.outside ∧
      ∀ r, dry.1 = .ok r → r.file = w.report.file ∧ r.Shows out t.outside real.2.outside := by
  intro real dry
  have hreport : w.report.withoutDiff = w.report := by
    rw [PassReport.withoutDiff, ← hfresh]
  cases hempty : w.changes.isEmpty with
  | true =>
    have hreal : real = (.ok w.report, s) := commit_of_isEmpty _ s hempty
    have hdry : dry = (.ok w.report, t) := commit_of_isEmpty _ t hempty
    rw [hreal, hdry]
    refine ⟨congrArg Except.ok hreport, hjournal.symm, hst.symm, rfl, fun r hr => ?_⟩
    obtain rfl := Except.ok.inj hr
    refine ⟨rfl, ?_⟩
    rw [PassReport.Shows, if_pos (hedits.mp hempty)]
    exact hfresh
  | false =>
    cases hcommit : w.changes.commit source with
    | error e =>
      obtain ⟨error, herror⟩ := exists_commit_eq_error out hempty hcommit
      have hreal : real = (.error error, s) := herror _ s
      have hdry : dry = (.error error, t) := herror _ t
      rw [hreal, hdry]
      exact ⟨rfl, hjournal.symm, hst.symm, rfl, fun r hr => by cases hr⟩
    | ok r =>
      have hdry : dry = (.ok { w.report with
          diff := some (Diff.underName (String.ofList w.report.file) r.diff) },
          t.note (.committed w.report.file w.changes.edits)) :=
        commit_of_dryRun t hempty hcommit rfl
      obtain ⟨hresult, hnoted, -, -⟩ := commit_of_written s hempty hcommit rfl hwritten
      have hdiff := (Changeset.of_commit_eq_ok hcommit hempty).1
      have hnow : out.Holds w.report.file r.modified real.2.outside :=
        holds_commit hstores hs hdecode hempty hcommit rfl hwritten
      have hedited : w.report.edits ≠ 0 := fun h => by
        rw [hedits.mpr h] at hempty
        cases hempty
      rw [hdry]
      refine ⟨?_, ?_, hst.symm.trans (script_commit hscript).symm, rfl, fun report hr => ?_⟩
      · exact (congrArg Except.ok hreport).trans hresult.symm
      · exact (congrArg (· ++ _) hjournal.symm).trans hnoted.symm
      · obtain rfl := Except.ok.inj hr
        refine ⟨rfl, ?_⟩
        rw [PassReport.Shows]
        refine (if_neg hedited).mpr ⟨source, r.modified, _, ⟨bytes, ht, hdecode⟩, hnow, ?_, rfl⟩
        rw [Diff.ofFile?, hdiff]
        rfl

end Previews

end Staging

/-! ## One pass -/

/-- A pass has something to commit if it counts an edit. -/
theorem Treated.isEmpty_changes_iff_edits {σ : Type} (out : Outside σ) (c : Config)
    (style : CommentStyle) (source : Text) (budget : Budget) (file : Path) (pass : Pass)
    (planned : List Planned) (s : Session σ) {w : Staging}
    (hw : (ofPlanned out c style source budget planned (.start file pass) s).staging = w) :
    w.changes.isEmpty = true ↔ w.report.edits = 0 := by
  rw [← hw, isEmpty_changes_iff, staging_ofPlanned, Staging.edits_foldl_take]
  exact iff_of_eq (congrArg (· = 0) (Nat.zero_add _).symm)

namespace FilePass

variable {σ τ : Type} {out : Outside σ} {c : Config} {script : σ → τ} {file : Path}

/-- A pass of a dry run shows what a pass does that writes. -/
structure Previews (out : Outside σ) (script : σ → τ) (file : Path) (before : σ)
    (dry real : FilePass σ) : Prop where
  result : dry.result.map PassReport.withoutDiff = real.result
  budget : dry.budget = real.budget
  journal : dry.session.journal = real.session.journal
  script : script dry.session.outside = script real.session.outside
  unchanged : ∀ other, out.find other dry.session.outside = out.find other before
  shows : ∀ r, dry.result = .ok r → r.file = file ∧ r.Shows out before real.session.outside

theorem Previews.endsRun {before : σ} {dry real : FilePass σ}
    (h : Previews out script file before dry real) : dry.endsRun = real.endsRun := by
  unfold FilePass.endsRun
  rw [← h.result]
  cases dry.result with
  | ok r => rfl
  | error e => rfl

theorem Previews.remembered {before : σ} {dry real : FilePass σ}
    (h : Previews out script file before dry real) (failed : Option Path) :
    dry.remembered file failed = real.remembered file failed := by
  unfold FilePass.remembered
  rw [← h.result]
  cases dry.result with
  | ok r => rfl
  | error e => rfl

/-- A pass charges what it commits, and notes that declarations were left out in any case. -/
theorem budget_ofPlan (out : Outside σ) (c : Config) (pass : Pass) (file : Path)
    (found : FilePlan) (budget : Budget) (s : Session σ) {treated : Treated σ}
    (h : Treated.ofPlanned out c found.style found.source budget found.planned (.start file pass) s
      = treated) :
    (ofPlan out c pass file found budget s).budget =
      let noted := if treated.left.isEmpty then budget else budget.markHit
      match (treated.staging.commit out c found.source treated.session).1 with
      | .ok report => noted.record report.edits
      | .error _ => noted := by
  simp only [ofPlan, h]
  rcases treated.staging.commit out c found.source treated.session with ⟨result, s'⟩
  cases result <;> rfl

variable {s t : Session σ} {budget : Budget} {pass : Pass}

/-- The pass over a file that is planned and there for both runs. -/
theorem previews_ofPlan (hscript : out.Scripted script) (hcalls : ∀ other, out.CallsLeave other)
    (hstores : out.Stores file) (hjournal : s.journal = t.journal)
    (hst : script s.outside = script t.outside) {found : FilePlan} {bytes : ByteArray}
    (hs : out.find file s.outside = .ok (.file bytes))
    (ht : out.find file t.outside = .ok (.file bytes))
    (hdecode : Utf8.decode bytes = .ok found.source)
    (hwritten : ∀ f e, (ofPlan out (c.withDryRun false) pass file found budget s).result
      ≠ .error (.unwritten f e)) :
    Previews out script file t.outside (ofPlan out (c.withDryRun true) pass file found budget t)
      (ofPlan out (c.withDryRun false) pass file found budget s) := by
  -- both treat the declarations alike, and what they find is still there
  obtain ⟨hstaging, hleft, hjournal', hst'⟩ := Treated.coupled_ofPlanned
    (Session.coupling_script hscript) c found.style found.source budget found.planned
    (.start file pass) ⟨hjournal, hst⟩
  have hfindReal := fun other => Treated.find_ofPlanned (c := c) (hcalls other) found.style
    found.source budget found.planned (.start file pass) s
  have hfindDry := fun other => Treated.find_ofPlanned (c := c) (hcalls other) found.style
    found.source budget found.planned (.start file pass) t
  have hname := file_staging out c found pass file budget s
  have hedits := Treated.isEmpty_changes_iff_edits out c found.style found.source budget file pass
    found.planned s rfl
  have hfresh : (Treated.ofPlanned out c found.style found.source budget found.planned
      (.start file pass) s).staging.report.diff = none := by
    rw [Treated.staging_ofPlanned, Staging.diff_foldl_take]
    rfl
  generalize hreal : Treated.ofPlanned out c found.style found.source budget found.planned
    (.start file pass) s = real at *
  generalize hdry : Treated.ofPlanned out c found.style found.source budget found.planned
    (.start file pass) t = dry at *
  rw [← Treated.ofPlanned_withDryRun out c false] at hreal
  rw [← Treated.ofPlanned_withDryRun out c true] at hdry
  obtain ⟨hresultReal, hsessionReal⟩ := ofPlan_eq out _ pass file found budget s hreal
  obtain ⟨hresultDry, hsessionDry⟩ := ofPlan_eq out _ pass file found budget t hdry
  have hbudgetReal := budget_ofPlan out _ pass file found budget s hreal
  have hbudgetDry := budget_ofPlan out _ pass file found budget t hdry
  rw [← hstaging] at hresultDry hsessionDry hbudgetDry
  rw [← hleft] at hbudgetDry
  obtain ⟨hresult, hnoted, hscripted, houtside, hshows⟩ := Staging.previews_commit hscript
    (hname.symm ▸ hstores) hjournal' hst' (hname.symm ▸ (hfindReal file).trans hs)
    (hname.symm ▸ (hfindDry file).trans ht) hdecode hfresh hedits
    (fun e => hresultReal ▸ hwritten _ e)
  refine ⟨?_, ?_, ?_, ?_, ?_, ?_⟩
  · rw [hresultDry, hresultReal, hresult]
  · rw [hbudgetDry, hbudgetReal, ← hresult]
    cases (real.staging.commit out (c.withDryRun true) found.source dry.session).1 <;> rfl
  · rw [hsessionDry, hsessionReal, hnoted]
  · rw [hsessionDry, hsessionReal, hscripted]
  · intro other
    rw [hsessionDry, houtside, hfindDry other]
  · intro r hr
    obtain ⟨hfile, hshown⟩ := hshows r (hresultDry ▸ hr)
    rw [hsessionReal]
    exact ⟨hfile.trans hname, hshown.congr (Outside.seen_congr (hfindDry r.file).symm) rfl⟩

/-- The pass over a file in which both runs see the same. -/
theorem previews_ofPath (hscript : out.Scripted script) (hcalls : ∀ other, out.CallsLeave other)
    (hstores : out.Stores file) (hjournal : s.journal = t.journal)
    (hst : script s.outside = script t.outside)
    (hseen : out.seen file s.outside = out.seen file t.outside)
    (hwritten : ∀ f e, (ofPath out (c.withDryRun false) pass file budget s).result
      ≠ .error (.unwritten f e)) :
    Previews out script file t.outside (ofPath out (c.withDryRun true) pass file budget t)
      (ofPath out (c.withDryRun false) pass file budget s) := by
  have hplans : FilePlan.ofPath out c pass file s.outside
      = FilePlan.ofPath out c pass file t.outside := FilePlan.ofPath_congr c pass hseen
  unfold ofPath at hwritten ⊢
  rw [FilePlan.ofPath_withDryRun] at hwritten
  rw [FilePlan.ofPath_withDryRun, FilePlan.ofPath_withDryRun]
  cases hplan : FilePlan.ofPath out c pass file s.outside with
  | error e =>
    rw [← hplans, hplan]
    exact ⟨rfl, rfl, hjournal.symm, hst.symm, fun _ => rfl, fun r hr => by cases hr⟩
  | ok found =>
    rw [hplan] at hwritten
    rw [← hplans, hplan]
    obtain ⟨bytes, hs, hdecode⟩ := FilePlan.exists_file hplan
    have ht : out.find file t.outside = .ok (.file bytes) := by
      rw [Outside.find_eq_file_iff] at hs ⊢
      rw [← hseen, hs]
    exact previews_ofPlan hscript hcalls hstores hjournal hst hs ht hdecode hwritten

end FilePass

/-! ## All passes -/

/-- The pass is made and its file cannot be written. -/
def Visit.isUnwritten {σ : Type} (v : Visit σ) : Bool :=
  match v.fate with
  | .passed done =>
    match done.result with
    | .error (.unwritten _ _) => true
    | _ => false
  | _ => false

section Written

variable {σ : Type} {out : Outside σ} {c : Config}

/-- No commit fails for its file if that is there and can be written. -/
theorem Staging.commit_ne_unwritten {w : Staging} {s : Session σ} {bytes : ByteArray}
    (hwritable : out.Writable w.report.file)
    (hthere : out.find w.report.file s.outside = .ok (.file bytes)) (source : Text) (f : Path)
    (e : FileError) : (w.commit out c source s).1 ≠ .error (.unwritten f e) := by
  intro h
  rcases commit_eq_error h with ⟨x, -, hx⟩ | ⟨-, hx⟩ | ⟨r, x, -, hunwritten, -⟩
  · cases hx
  · cases hx
  · rw [hwritable r.modified s.outside bytes hthere] at hunwritten
    cases hunwritten

/-- A file that cannot be planned is not one that cannot be written. -/
theorem FilePlan.ofPath_ne_unwritten {pass : Pass} {file : Path} {s : σ} (f : Path)
    (e : FileError) : ofPath out c pass file s ≠ .error (.unwritten f e) := by
  unfold ofPath
  split
  · simp
  · split
    · simp
    · split <;> simp

/-- No pass fails for its file if the models leave that alone and it can be written. -/
theorem FilePass.ofPath_ne_unwritten {file : Path} (hcalls : out.CallsLeave file)
    (hwritable : out.Writable file) (pass : Pass) (budget : Budget) (s : Session σ) (f : Path)
    (e : FileError) : (ofPath out c pass file budget s).result ≠ .error (.unwritten f e) := by
  unfold ofPath
  cases hplan : FilePlan.ofPath out c pass file s.outside with
  | error x =>
    dsimp only
    intro h
    obtain rfl : x = .unwritten f e := Except.error.inj h
    exact FilePlan.ofPath_ne_unwritten f e hplan
  | ok found =>
    obtain ⟨bytes, hthere, -⟩ := FilePlan.exists_file hplan
    have hname := file_staging out c found pass file budget s
    dsimp only
    rw [(ofPlan_eq out c _ _ found _ _ rfl).1]
    apply Staging.commit_ne_unwritten
    · rwa [hname]
    · rw [hname, Treated.find_ofPlanned hcalls]
      exact hthere

theorem Visit.isUnwritten_of_writable (hcalls : ∀ file, out.CallsLeave file)
    (hwritable : ∀ file, out.Writable file) {failed : Option Path} {jobs : List Job}
    {p : Progress σ} {v : Visit σ} (hv : v ∈ Progress.visits out c failed jobs p) :
    v.isUnwritten = false := by
  unfold isUnwritten
  split
  · next done hfate =>
    split
    · next f e hunwritten =>
      rw [Progress.eq_ofPath_of_mem_visits hv hfate] at hunwritten
      exact absurd hunwritten
        (FilePass.ofPath_ne_unwritten (hcalls _) (hwritable _) _ _ _ f e)
    · rfl
  · rfl

end Written

namespace Progress

variable {σ τ : Type} {out : Outside σ} {c : Config} {script : σ → τ} {s₀ : σ}

/-- How far a dry run has come shows how far the run has come that writes. No file is written that
is still to be read, and what was shown stays true. -/
structure Previews (out : Outside σ) (script : σ → τ) (s₀ : σ) (jobs : List Job)
    (dry real : Progress σ) : Prop where
  passes : dry.report.passes.map PassReport.withoutDiff = real.report.passes
  failedFiles : dry.report.failedFiles = real.report.failedFiles
  budget : dry.budget = real.budget
  isBroken : dry.isBroken = real.isBroken
  journal : dry.session.journal = real.session.journal
  script : script dry.session.outside = script real.session.outside
  unchanged : ∀ file, out.find file dry.session.outside = out.find file s₀
  shows : ∀ r ∈ dry.report.passes, r.Shows out s₀ real.session.outside
  ahead : ∀ job ∈ jobs, out.seen job.file real.session.outside = out.seen job.file s₀
  behind : ∀ r ∈ dry.report.passes, ∀ job ∈ jobs, out.WriteLeaves job.file r.file

theorem previews_start (jobs : List Job) :
    Previews out script s₀ jobs (.start c s₀) (.start c s₀) :=
  ⟨rfl, rfl, rfl, rfl, rfl, rfl, fun _ => rfl, fun _ hr => absurd hr List.not_mem_nil,
    fun _ _ => rfl, fun _ hr => absurd hr List.not_mem_nil⟩

section Step

variable {job : Job} {jobs : List Job} {dry real : Progress σ}

theorem Previews.of_subset {jobs' : List Job} (h : Previews out script s₀ jobs dry real)
    (hsubset : jobs' ⊆ jobs) : Previews out script s₀ jobs' dry real :=
  { h with
    ahead := fun other hother => h.ahead other (hsubset hother)
    behind := fun r hr other hother => h.behind r hr other (hsubset hother) }

/-- The two runs stop alike: the files of the jobs that are left are the same for both. -/
theorem Previews.stop (h : Previews out script s₀ jobs dry real) :
    Previews out script s₀ jobs (stop out (c.withDryRun true) jobs dry)
      (stop out (c.withDryRun false) jobs real) := by
  have hwould : ∀ other ∈ jobs,
      wouldTreat out (c.withDryRun true) dry.session.outside other
        = wouldTreat out (c.withDryRun false) real.session.outside other := by
    intro other hother
    have hseen : out.seen other.file dry.session.outside
        = out.seen other.file real.session.outside :=
      calc out.seen other.file dry.session.outside
          = out.seen other.file s₀ := Outside.seen_congr (h.unchanged other.file)
        _ = out.seen other.file real.session.outside := (h.ahead other hother).symm
    unfold wouldTreat
    rw [FilePlan.ofPath_withDryRun, FilePlan.ofPath_withDryRun, FilePlan.ofPath_congr c _ hseen]
  have hany : jobs.any (wouldTreat out (c.withDryRun true) dry.session.outside)
      = jobs.any (wouldTreat out (c.withDryRun false) real.session.outside) := by
    rw [Bool.eq_iff_iff, List.any_eq_true, List.any_eq_true]
    exact exists_congr fun other => and_congr_right fun hother => by rw [hwould other hother]
  unfold Progress.stop
  rw [hany]
  split
  · exact { h with budget := congrArg Budget.markHit h.budget }
  · exact h

/-- The two runs take up a pass alike. -/
theorem Previews.take (h : Previews out script s₀ (job :: jobs) dry real) {d r : FilePass σ}
    (hpass : FilePass.Previews out script job.file dry.session.outside d r)
    (hleaves : ∀ file, out.WriteLeaves job.file file →
      out.seen file r.session.outside = out.seen file real.session.outside)
    (hapart : ∀ other ∈ jobs,
      out.WriteLeaves job.file other.file ∧ out.WriteLeaves other.file job.file) :
    Previews out script s₀ jobs (dry.take job.file d) (real.take job.file r) := by
  have hold : ∀ report ∈ dry.report.passes, report.Shows out s₀ r.session.outside :=
    fun report hreport => (h.shows report hreport).congr rfl
      (hleaves _ (h.behind report hreport job List.mem_cons_self))
  have hleft : ∀ report ∈ dry.report.passes, ∀ other ∈ jobs,
      out.WriteLeaves other.file report.file :=
    fun report hreport other hother => h.behind report hreport other (List.mem_cons_of_mem _ hother)
  have hresult := hpass.result
  cases hd : d.result with
  | error e =>
    rw [hd] at hresult
    have hr : r.result = .error e := hresult.symm
    refine ⟨?_, ?_, hpass.budget, hpass.endsRun, hpass.journal, hpass.script,
      fun file => (hpass.unchanged file).trans (h.unchanged file), ?_, fun other hother => ?_, ?_⟩
    · simpa only [Progress.take, hd, hr] using h.passes
    · simpa only [Progress.take, hd, hr] using congrArg (· ++ [job.file]) h.failedFiles
    · simpa only [Progress.take, hd] using hold
    · exact (hleaves _ (hapart other hother).1).trans
        (h.ahead other (List.mem_cons_of_mem _ hother))
    · simpa only [Progress.take, hd] using hleft
  | ok report =>
    rw [hd] at hresult
    have hr : r.result = .ok report.withoutDiff := hresult.symm
    obtain ⟨hfile, hshown⟩ := hpass.shows report hd
    refine ⟨?_, ?_, hpass.budget, hpass.endsRun, hpass.journal, hpass.script,
      fun file => (hpass.unchanged file).trans (h.unchanged file), ?_, fun other hother => ?_, ?_⟩
    · simp only [Progress.take, hd, hr, List.map_append, List.map_cons, List.map_nil, h.passes]
    · simpa only [Progress.take, hd, hr] using h.failedFiles
    · simp only [Progress.take, hd]
      refine List.forall_mem_append.mpr ⟨hold, fun other hother => ?_⟩
      obtain rfl := List.mem_singleton.mp hother
      exact hshown.congr (Outside.seen_congr (h.unchanged _).symm) rfl
    · exact (hleaves _ (hapart other hother).1).trans
        (h.ahead other (List.mem_cons_of_mem _ hother))
    · simp only [Progress.take, hd]
      refine List.forall_mem_append.mpr ⟨hleft, fun other hother => ?_⟩
      obtain rfl := List.mem_singleton.mp hother
      intro later hlater
      rw [hfile]
      exact (hapart later hlater).2

end Step

/-- The work of a dry run shows the work of the run that writes. -/
theorem previews_work (hscript : out.Scripted script) (hcalls : ∀ file, out.CallsLeave file)
    {jobs : List Job} (hstores : ∀ job ∈ jobs, out.Stores job.file)
    (hapart : jobs.Pairwise fun a b =>
      out.WriteLeaves a.file b.file ∧ out.WriteLeaves b.file a.file)
    (failed : Option Path) {dry real : Progress σ} (h : Previews out script s₀ jobs dry real)
    (hwritten : ∀ v ∈ visits out (c.withDryRun false) failed jobs real, v.isUnwritten = false) :
    Previews out script s₀ [] (work out (c.withDryRun true) failed jobs dry)
      (work out (c.withDryRun false) failed jobs real) := by
  -- the file of a job is as it was at the start when its job comes, and is not read behind it
  induction jobs generalizing failed dry real with
  | nil => exact h
  | cons job jobs ih =>
    obtain ⟨hstore, hstores⟩ := List.forall_mem_cons.mp hstores
    obtain ⟨hjob, hjobs⟩ := List.pairwise_cons.mp hapart
    cases hskip : failed.any (Path.same job.file) with
    | true =>
      rw [visits_of_skipped hskip] at hwritten
      rw [work_of_skipped hskip, work_of_skipped hskip]
      exact ih hstores hjobs failed (h.of_subset (List.subset_cons_self _ _))
        (List.forall_mem_cons.mp hwritten).2
    | false =>
      cases hstop : real.budget.isExhausted with
      | true =>
        rw [work_of_stopped hskip (h.budget ▸ hstop), work_of_stopped hskip hstop]
        exact h.stop.of_subset (List.nil_subset _)
      | false =>
        rw [visits_of_passed hskip hstop rfl] at hwritten
        obtain ⟨hfirst, hrest⟩ := List.forall_mem_cons.mp hwritten
        have hsaved : ∀ f e, (FilePass.ofPath out (c.withDryRun false) job.pass job.file
            real.budget real.session).result ≠ .error (.unwritten f e) := by
          intro f e hunwritten
          simp only [Visit.isUnwritten] at hfirst
          rw [hunwritten] at hfirst
          cases hfirst
        have hpass : FilePass.Previews out script job.file dry.session.outside
            (FilePass.ofPath out (c.withDryRun true) job.pass job.file dry.budget dry.session)
            (FilePass.ofPath out (c.withDryRun false) job.pass job.file real.budget
              real.session) := by
          rw [h.budget]
          exact FilePass.previews_ofPath hscript hcalls hstore h.journal.symm h.script.symm
            ((h.ahead job List.mem_cons_self).trans (Outside.seen_congr (h.unchanged _).symm))
            hsaved
        have hnext := h.take hpass
          (fun file hleaves => FilePass.seen_ofPath (hcalls _) (hcalls file) hleaves _ _ _) hjob
        rw [work_of_passed hskip (h.budget ▸ hstop) rfl, work_of_passed hskip hstop rfl,
          hpass.endsRun]
        split
        · exact hnext.of_subset (List.nil_subset _)
        · next hends =>
          rw [if_neg hends] at hrest
          rw [hpass.remembered]
          exact ih hstores hjobs _ hnext hrest

end Progress

/-! ## Whole runs -/

/-- A dry run shows a run that writes. It leaves every file as it is, it asks and answers the same,
it reports the same apart from the diffs, and its diffs are those of what the other run writes. -/
structure Run.Previews {σ τ : Type} (out : Outside σ) (script : σ → τ) (before : σ)
    (dry real : Run σ) : Prop where
  unchanged : ∀ file, out.find file dry.session.outside = out.find file before
  journal : dry.session.journal = real.session.journal
  script : script dry.session.outside = script real.session.outside
  isBroken : dry.isBroken = real.isBroken
  passes : dry.report.passes.map PassReport.withoutDiff = real.report.passes
  failedFiles : dry.report.failedFiles = real.report.failedFiles
  budgetExhausted : dry.report.budgetExhausted = real.report.budgetExhausted
  shows : ∀ r ∈ dry.report.passes, r.Shows out before real.session.outside

/-- Two runs over files that are apart with one pass, one that writes nothing and one whose writes
all succeed. The models leave the files alone and answer the same to the same calls, and what is
written into a file is in it and in no other one. Then both runs start if there are files, and the
dry run shows the other one. -/
theorem run_dry_previews {σ τ : Type} (out : Outside σ) (script : σ → τ) (c : Config)
    (files : List Path) (s : σ) (hpass : c.passes.length = 1) (hscript : out.Scripted script)
    (hcalls : ∀ file, out.CallsLeave file) (hstores : ∀ file ∈ files, out.Stores file)
    (hapart : files.Pairwise fun f g => out.WriteLeaves f g ∧ out.WriteLeaves g f)
    (hwritten : ∀ v ∈ Progress.visits out (c.withDryRun false) none (c.jobs files) (.start c s),
      v.isUnwritten = false) :
    (files = [] ∧ run out (c.withDryRun true) files s = .error .noFiles ∧
        run out (c.withDryRun false) files s = .error .noFiles) ∨
      ∃ dry real, run out (c.withDryRun true) files s = .ok dry ∧
        run out (c.withDryRun false) files s = .ok real ∧ dry.Previews out script s real := by
  by_cases hfiles : files = []
  · rw [hfiles]
    exact .inl ⟨rfl, rfl, rfl⟩
  obtain ⟨pass, hpasses⟩ := List.length_eq_one_iff.mp hpass
  have hvalid : c.isValid = true := by
    by_contra hinvalid
    simp only [Config.isValid, Bool.or_eq_true, not_or, Bool.not_eq_true] at hinvalid
    simp [Config.passes, hinvalid] at hpasses
  have hjobs : c.jobs files = files.map fun file => ⟨file, pass⟩ := by
    rw [Config.jobs, hpasses]
    exact List.map_eq_flatMap.symm
  have hjobsApart : (c.jobs files).Pairwise fun a b =>
      out.WriteLeaves a.file b.file ∧ out.WriteLeaves b.file a.file := by
    rw [hjobs]
    exact List.pairwise_map.mpr hapart
  have hprogress := Progress.previews_work hscript hcalls
    (fun job hjob => hstores _ (Config.file_mem_of_mem_jobs hjob)) hjobsApart none
    (Progress.previews_start _) hwritten
  refine .inr ⟨_, _, run_of_isValid out (c.withDryRun true) s hfiles hvalid,
    run_of_isValid out (c.withDryRun false) s hfiles hvalid, ?_⟩
  exact ⟨hprogress.unchanged, hprogress.journal, hprogress.script, hprogress.isBroken,
    hprogress.passes, hprogress.failedFiles, congrArg Budget.hit hprogress.budget,
    hprogress.shows⟩

/-! ## Two files with two classes each -/

namespace ClassFile

/-- The reply of a model that says a comment. -/
def replyWith (comment : String) : ChatReply :=
  ⟨200, ("\x7b\"choices\": [\x7b\"message\": \x7b\"content\": \"" ++ comment
    ++ "\"\x7d\x7d]\x7d").toList⟩

/-- The two files, and a reply for each class. -/
def pairsAndReplies : FileEntry × List ChatReply :=
  (pairFiles, [replyWith "/// a", replyWith "/// b", replyWith "/// c", replyWith "/// d"])

def replayed : Outside (FileEntry × List ChatReply) := pairHost.replaying.outside config

end ClassFile

open ClassFile

/-- A dry run over two files of a directory with two classes each. -/
theorem run_dry_previews_pairs :
    config.passes.length = 1 ∧
      ∃ dry real, run replayed (config.withDryRun true) [path, otherPath] pairsAndReplies
          = .ok dry ∧
        run replayed (config.withDryRun false) [path, otherPath] pairsAndReplies = .ok real ∧
        dry.Previews replayed Prod.snd pairsAndReplies real := by
  have htree : replayed.OnTree pairHost.replaying.tree :=
    Host.onTree_replaying (Checkout.onTree_outside_host _ _ config)
  have hcalls : ∀ file, replayed.CallsLeave file := pairHost.callsLeave_replaying config
  have hapart : [path, otherPath].Pairwise fun f g =>
      replayed.WriteLeaves f g ∧ replayed.WriteLeaves g f :=
    List.pairwise_pair.mpr ⟨(apart_of_onTree htree).leaves, (apart_of_onTree htree).left⟩
  refine ⟨rfl, (run_dry_previews replayed Prod.snd config [path, otherPath] pairsAndReplies rfl
    (pairHost.scripted_replaying config) hcalls (fun file _ => htree.stores file) hapart
    (fun v hv => Visit.isUnwritten_of_writable hcalls htree.writable hv)).resolve_left ?_⟩
  exact fun h => by cases h.1

end DocComments
