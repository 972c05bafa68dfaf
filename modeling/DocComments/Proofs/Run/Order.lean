import DocComments.Proofs.Run.Append
import DocComments.Proofs.Run.Prefix
import DocComments.Proofs.Run.Tree

/-!
# The order of files

Without a limit for edits nothing that a run does to one file matters to another one, if the models
answer by request and the files are apart. A run over some files is then the runs over each of them
alone, put behind each other (`Progress.AsAlone`), so that the order of the files is the order of
what is reported and nothing else (`run_perm`). This holds as long as no pass breaks the run off:
what stands behind such a file is not done.
-/

set_option autoImplicit false

namespace DocComments

section Alike

variable {σ : Type} {out : Outside σ} {c : Config} {file : Path}

/-- Sessions in which a file is the same go on alike for the file. -/
theorem Session.coupling_seen (hanswers : out.AnswersByRequest) (hcalls : out.CallsLeave file) :
    Coupling out fun s t => out.seen file s.outside = out.seen file t.outside where
  draft r s t h := by
    refine ⟨hanswers.draft r s.outside t.outside, ?_⟩
    calc out.seen file (out.models.draft r s.outside).2
        = out.seen file s.outside := Outside.seen_congr (hcalls.draft r s.outside)
      _ = out.seen file t.outside := h
      _ = out.seen file (out.models.draft r t.outside).2 :=
          (Outside.seen_congr (hcalls.draft r t.outside)).symm
  judge q s t h := by
    refine ⟨hanswers.judge q s.outside t.outside, ?_⟩
    calc out.seen file (out.models.judge q s.outside).2
        = out.seen file s.outside := Outside.seen_congr (hcalls.judge q s.outside)
      _ = out.seen file t.outside := h
      _ = out.seen file (out.models.judge q t.outside).2 :=
          (Outside.seen_congr (hcalls.judge q t.outside)).symm

/-- Without a limit it does not matter what was used of a budget. -/
theorem Treated.ofPlanned_of_limit_eq_none {b b' : Budget} (hb : b.limit = none)
    (hb' : b'.limit = none) (style : CommentStyle) (source : Text) (planned : List Planned)
    (w : Staging) (s : Session σ) :
    ofPlanned out c style source b planned w s = ofPlanned out c style source b' planned w s ∧
      (ofPlanned out c style source b planned w s).left = [] := by
  have hleft : ∀ {budget : Budget}, budget.limit = none →
      (ofPlanned out c style source budget planned w s).left = [] := fun h =>
    left_eq_nil_of_allows planned w s (Budget.allows_of_limit_eq_none h _)
  exact ⟨ofPlanned_eq_of_left_eq_nil hb planned w s (hleft hb'), hleft hb⟩

/-- A commit comes to the same where its file is the same. -/
theorem Staging.alike_commit {w : Staging} (hwrites : out.WritesLocally w.report.file)
    (source : Text) {s t : Session σ} {bytes : ByteArray}
    (hs : out.find w.report.file s.outside = .ok (.file bytes))
    (ht : out.find w.report.file t.outside = .ok (.file bytes)) :
    (w.commit out c source s).1 = (w.commit out c source t).1 ∧
      out.seen w.report.file (w.commit out c source s).2.outside
        = out.seen w.report.file (w.commit out c source t).2.outside := by
  have hsame : out.seen w.report.file s.outside = out.seen w.report.file t.outside :=
    Outside.seen_congr (hs.trans ht.symm)
  unfold commit
  split
  · exact ⟨rfl, hsame⟩
  · cases w.changes.commit source with
    | error e => cases e <;> exact ⟨rfl, hsame⟩
    | ok r =>
      dsimp only
      split
      · exact ⟨rfl, hsame⟩
      · split
        · obtain ⟨hresult, hseen⟩ := hwrites r.modified s.outside t.outside bytes hs ht
          unfold Session.write Session.note
          dsimp only
          generalize out.write w.report.file r.modified s.outside = written at hresult hseen ⊢
          generalize out.write w.report.file r.modified t.outside = written' at hresult hseen ⊢
          obtain ⟨result, state⟩ := written
          obtain ⟨result', state'⟩ := written'
          obtain rfl : result = result' := hresult
          cases result with
          | ok u => exact ⟨rfl, hseen⟩
          | error e => exact ⟨rfl, hseen⟩
        · exact ⟨rfl, hsame⟩

/-- A pass over a file without a limit comes to the same where the file is the same. -/
theorem FilePass.alike_ofPath (hanswers : out.AnswersByRequest) (hcalls : out.CallsLeave file)
    (hwrites : out.WritesLocally file) (pass : Pass) {b b' : Budget} (hb : b.limit = none)
    (hb' : b'.limit = none) {s t : Session σ}
    (hseen : out.seen file s.outside = out.seen file t.outside) :
    (ofPath out c pass file b s).result = (ofPath out c pass file b' t).result ∧
      out.seen file (ofPath out c pass file b s).session.outside
        = out.seen file (ofPath out c pass file b' t).session.outside := by
  have hplans : FilePlan.ofPath out c pass file s.outside
      = FilePlan.ofPath out c pass file t.outside := FilePlan.ofPath_congr c pass hseen
  unfold ofPath
  rw [← hplans]
  cases hplan : FilePlan.ofPath out c pass file s.outside with
  | error e => exact ⟨rfl, hseen⟩
  | ok found =>
    obtain ⟨bytes, hs, -⟩ := FilePlan.exists_file hplan
    have ht : out.find file t.outside = .ok (.file bytes) := by
      rw [Outside.find_eq_file_iff] at hs ⊢
      rw [← hseen, hs]
    obtain ⟨hstaging, -, -⟩ := Treated.coupled_ofPlanned (Session.coupling_seen hanswers hcalls) c
      found.style found.source b found.planned (.start file pass) hseen
    have hfindS := Treated.find_ofPlanned (c := c) hcalls found.style found.source b found.planned
      (.start file pass) s
    have hfindT := Treated.find_ofPlanned (c := c) hcalls found.style found.source b found.planned
      (.start file pass) t
    have hname := file_staging out c found pass file b s
    have hbudget : Treated.ofPlanned out c found.style found.source b' found.planned
        (.start file pass) t = Treated.ofPlanned out c found.style found.source b found.planned
          (.start file pass) t :=
      (Treated.ofPlanned_of_limit_eq_none hb' hb found.style found.source found.planned _ t).1
    obtain ⟨hresultS, hsessionS⟩ := ofPlan_eq out c pass file found b s rfl
    obtain ⟨hresultT, hsessionT⟩ := ofPlan_eq out c pass file found b' t hbudget
    dsimp only
    rw [hresultS, hsessionS, hresultT, hsessionT, ← hstaging]
    generalize Treated.ofPlanned out c found.style found.source b found.planned
      (.start file pass) s = treated at *
    subst hname
    exact Staging.alike_commit hwrites found.source (hfindS.trans hs) (hfindT.trans ht)

end Alike

/-! ## The jobs of one file -/

namespace Progress

variable {σ : Type} {out : Outside σ} {c : Config} {file : Path}

/-- Two runs without a limit that have come to the same for a file. -/
structure Alike (out : Outside σ) (file : Path) (p q : Progress σ) : Prop where
  report : p.report = q.report
  isBroken : p.isBroken = q.isBroken
  limit : p.budget.limit = none
  limit' : q.budget.limit = none
  seen : out.seen file p.session.outside = out.seen file q.session.outside

theorem limit_ofPath (job : Job) {p : Progress σ} (h : p.budget.limit = none) :
    (FilePass.ofPath out c job.pass job.file p.budget p.session).budget.limit = none :=
  (FilePass.charges_ofPath out c job.pass job.file p.budget p.session).limit.trans h

theorem Alike.take {p q : Progress σ} (h : Alike out file p q) {d e : FilePass σ} (f : Path)
    (hresult : d.result = e.result) (hd : d.budget.limit = none) (he : e.budget.limit = none)
    (hseen : out.seen file d.session.outside = out.seen file e.session.outside) :
    Alike out file (p.take f d) (q.take f e) := by
  refine ⟨?_, ?_, hd, he, hseen⟩
  · rw [Progress.take, Progress.take, hresult, h.report]
  · rw [isBroken_take, isBroken_take, FilePass.endsRun, FilePass.endsRun, hresult]

/-- The jobs of a file come to the same where the file is the same. -/
theorem alike_work (hanswers : out.AnswersByRequest) (hcalls : out.CallsLeave file)
    (hwrites : out.WritesLocally file) {jobs : List Job} (hjobs : ∀ job ∈ jobs, job.file = file)
    (failed : Option Path) {p q : Progress σ} (h : Alike out file p q) :
    Alike out file (work out c failed jobs p) (work out c failed jobs q) := by
  -- the results are the same, so that both runs remember, break off and go on together
  induction jobs generalizing failed p q with
  | nil => exact h
  | cons job jobs ih =>
    obtain ⟨rfl, hrest⟩ := List.forall_mem_cons.mp hjobs
    cases hskip : failed.any (Path.same job.file) with
    | true =>
      rw [work_of_skipped hskip, work_of_skipped hskip]
      exact ih hrest failed h
    | false =>
      have hleft : ∀ {r : Progress σ}, r.budget.limit = none → r.budget.isExhausted = false :=
        fun hr => Bool.eq_false_iff.mpr (Budget.not_isExhausted_of_limit_eq_none hr)
      obtain ⟨hresult, hseen⟩ := FilePass.alike_ofPath (c := c) hanswers hcalls hwrites job.pass
        h.limit h.limit' h.seen
      have hnext := h.take job.file hresult (limit_ofPath job h.limit) (limit_ofPath job h.limit')
        hseen
      have hends := hnext.isBroken
      rw [isBroken_take, isBroken_take] at hends
      rw [work_of_passed hskip (hleft h.limit) rfl, work_of_passed hskip (hleft h.limit') rfl,
        FilePass.remembered, FilePass.remembered, hresult, hends]
      split
      · exact hnext
      · exact ih hrest _ hnext

variable (out c) in
/-- A run without a limit stays one, and leaves nothing out for lack of edits. -/
theorem unlimited_work (failed : Option Path) (jobs : List Job) {p : Progress σ}
    (hp : p.budget.limit = none) :
    (work out c failed jobs p).budget.limit = none ∧
      (work out c failed jobs p).budget.hit = p.budget.hit := by
  have hpass : ∀ (job : Job) {p : Progress σ} {done : FilePass σ}, p.budget.limit = none →
      FilePass.ofPath out c job.pass job.file p.budget p.session = done →
      done.budget.limit = none ∧ done.budget.hit = p.budget.hit := by
    intro job p done hp hdone
    subst hdone
    refine ⟨limit_ofPath job hp, ?_⟩
    rw [Bool.eq_iff_iff, FilePass.hit_ofPath]
    refine or_iff_left fun hless => ?_
    have hnone := FilePass.allows_of_asked_lt out c job.pass job.file p.budget p.session hless
    rw [Budget.allows_of_limit_eq_none hp] at hnone
    cases hnone
  revert hp
  refine induction_visits (motive := fun _ p _ q => p.budget.limit = none →
    q.budget.limit = none ∧ q.budget.hit = p.budget.hit) failed jobs p ?_ ?_ ?_ ?_ ?_
  · exact fun p hp => ⟨hp, rfl⟩
  · exact fun job jobs p vs q ih hp => ih hp
  · -- a run without a limit does not stop
    exact fun jobs p hstop hp => absurd hstop (Budget.not_isExhausted_of_limit_eq_none hp)
  · exact fun job jobs p done hdone _ hp => hpass job hp hdone
  · intro job jobs p done vs q hdone _ ih hp
    obtain ⟨hlimit, hhit⟩ := hpass job hp hdone
    obtain ⟨hend, hsame⟩ := ih hlimit
    exact ⟨hend, hsame.trans hhit⟩

/-! ## Files behind files -/

def alone (out : Outside σ) (c : Config) (s : σ) (file : Path) : Progress σ :=
  work out c none (c.jobsOf file) (start c s)

/-- A run over some files is one over each of them alone, unless one of these breaks off. -/
structure AsAlone (out : Outside σ) (c : Config) (s : σ) (files : List Path)
    (p q : Progress σ) : Prop where
  isBroken : q.isBroken = files.any fun file => (alone out c s file).isBroken
  passes : q.isBroken = false → q.report.passes
    = p.report.passes ++ files.flatMap fun file => (alone out c s file).report.passes
  failedFiles : q.isBroken = false → q.report.failedFiles
    = p.report.failedFiles ++ files.flatMap fun file => (alone out c s file).report.failedFiles
  seen : q.isBroken = false → ∀ file ∈ files, out.seen file q.session.outside
    = out.seen file (alone out c s file).session.outside

/-- What is in front of a run over one file matters to what is reported in front. -/
theorem work_jobsOf (hlimit : c.maxEdits = none) (hanswers : out.AnswersByRequest)
    (hcalls : out.CallsLeave file) (hwrites : out.WritesLocally file) {s : σ} {p : Progress σ}
    (hp : p.isBroken = false) (hfree : p.budget.limit = none)
    (hseen : out.seen file p.session.outside = out.seen file s) :
    AsAlone out c s [file] p (work out c none (c.jobsOf file) p) := by
  have halike : Alike out file p.unreported (start c s) := ⟨rfl, hp, hfree, hlimit, hseen⟩
  have hwork : Alike out file (work out c none (c.jobsOf file) p.unreported)
      (alone out c s file) :=
    alike_work hanswers hcalls hwrites (fun _ => Config.file_eq_of_mem_jobsOf) none halike
  rw [work_eq_behind out c none (c.jobsOf file) p]
  refine ⟨?_, fun _ => ?_, fun _ => ?_, fun _ => ?_⟩
  · rw [List.any_cons, List.any_nil, Bool.or_false]
    exact hwork.isBroken
  · rw [List.flatMap_singleton]
    exact congrArg (fun r : RunReport => p.report.passes ++ r.passes) hwork.report
  · rw [List.flatMap_singleton]
    exact congrArg (fun r : RunReport => p.report.failedFiles ++ r.failedFiles) hwork.report
  · intro f hf
    obtain rfl := List.mem_singleton.mp hf
    exact hwork.seen

/-- A run over files that are apart is a run over each of them alone. -/
theorem asAlone_work (hlimit : c.maxEdits = none) (hanswers : out.AnswersByRequest)
    {files : List Path} (hcalls : ∀ file ∈ files, out.CallsLeave file)
    (hwrites : ∀ file ∈ files, out.WritesLocally file) (hapart : files.Pairwise out.Apart) {s : σ}
    {p : Progress σ} (hp : p.isBroken = false) (hfree : p.budget.limit = none)
    (hseen : ∀ file ∈ files, out.seen file p.session.outside = out.seen file s) :
    AsAlone out c s files p (work out c none (c.jobs files) p) := by
  induction files generalizing p with
  | nil =>
    exact ⟨hp, fun _ => (List.append_nil _).symm, fun _ => (List.append_nil _).symm,
      fun _ f hf => absurd hf List.not_mem_nil⟩
  | cons file files ih =>
    obtain ⟨hcallsFile, hcalls⟩ := List.forall_mem_cons.mp hcalls
    obtain ⟨hwritesFile, hwrites⟩ := List.forall_mem_cons.mp hwrites
    obtain ⟨hseenFile, hseen⟩ := List.forall_mem_cons.mp hseen
    obtain ⟨hfile, hrest⟩ := List.pairwise_cons.mp hapart
    have hfirst := work_jobsOf hlimit hanswers hcallsFile hwritesFile hp hfree hseenFile
    have hbehind : ∀ later ∈ c.jobs files, ∀ job ∈ c.jobsOf file,
        Path.same later.file job.file = false := by
      intro later hlater job hjob
      rw [Config.file_eq_of_mem_jobsOf hjob, Path.same_comm]
      exact (hfile _ (Config.file_mem_of_mem_jobs hlater)).same
    have hlimited := (unlimited_work out c none (c.jobsOf file) hfree).1
    -- the jobs of the file do not reach the files behind it
    have hahead : ∀ other ∈ files, out.seen other
        (work out c none (c.jobsOf file) p).session.outside = out.seen other s := by
      intro other hother
      refine (seen_work (fun job hjob => ?_) (hcalls other hother)).2.trans (hseen other hother)
      rw [Config.file_eq_of_mem_jobsOf hjob]
      exact ⟨hcallsFile, (hfile other hother).leaves⟩
    rw [Config.jobs_cons, work_append out c hp (fun _ _ => rfl) hbehind]
    -- what the run over the first file has come to, whatever that is
    generalize work out c none (c.jobsOf file) p = q at *
    have halone : q.isBroken = (alone out c s file).isBroken := by
      rw [hfirst.isBroken, List.any_cons, List.any_nil, Bool.or_false]
    cases hbroken : q.isBroken with
    | true =>
      have hnever : ∀ {P : Prop}, q.isBroken = false → P := fun h =>
        absurd (h.symm.trans hbroken) Bool.false_ne_true
      rw [if_pos rfl]
      refine ⟨?_, hnever, hnever, hnever⟩
      rw [List.any_cons, ← halone, hbroken, Bool.true_or]
    | false =>
      rw [if_neg Bool.false_ne_true]
      have hnext := ih hcalls hwrites hrest hbroken hlimited hahead
      have hkept : out.seen file (work out c none (c.jobs files) q).session.outside
          = out.seen file q.session.outside := by
        refine (seen_work (fun job hjob => ?_) hcallsFile).2
        have hmem := Config.file_mem_of_mem_jobs hjob
        exact ⟨hcalls _ hmem, (hfile _ hmem).left⟩
      refine ⟨?_, fun h => ?_, fun h => ?_, fun h => ?_⟩
      · rw [hnext.isBroken, List.any_cons, ← halone, hbroken, Bool.false_or]
      · rw [hnext.passes h, hfirst.passes hbroken, List.flatMap_singleton, List.flatMap_cons,
          List.append_assoc]
      · rw [hnext.failedFiles h, hfirst.failedFiles hbroken, List.flatMap_singleton,
          List.flatMap_cons, List.append_assoc]
      · refine List.forall_mem_cons.mpr ⟨?_, hnext.seen h⟩
        rw [hkept]
        exact hfirst.seen hbroken file List.mem_cons_self

/-! ## What is reported of a file -/

/-- What a run reports is about the files of its jobs. -/
theorem file_of_mem_passes (failed : Option Path) (jobs : List Job) (p : Progress σ)
    {r : PassReport} (hr : r ∈ (work out c failed jobs p).report.passes) :
    r ∈ p.report.passes ∨ ∃ job ∈ jobs, r.file = job.file := by
  have hpass : ∀ {job : Job} {jobs : List Job} {p : Progress σ} {done : FilePass σ},
      FilePass.ofPath out c job.pass job.file p.budget p.session = done →
      r ∈ (p.take job.file done).report.passes →
      r ∈ p.report.passes ∨ ∃ other ∈ job :: jobs, r.file = other.file := by
    intro job jobs p done hdone hr
    unfold take at hr
    cases hresult : done.result with
    | error e =>
      rw [hresult] at hr
      exact .inl hr
    | ok report =>
      rw [hresult] at hr
      refine (List.mem_append.mp hr).imp_right fun h => ⟨job, List.mem_cons_self, ?_⟩
      obtain rfl := List.mem_singleton.mp h
      exact FilePass.file_of_ofPath_eq_ok (hdone ▸ hresult)
  revert hr
  refine induction_visits (motive := fun jobs p _ q => r ∈ q.report.passes →
    r ∈ p.report.passes ∨ ∃ job ∈ jobs, r.file = job.file) failed jobs p ?_ ?_ ?_ ?_ ?_
  · exact fun p hr => .inl hr
  · intro job jobs p vs q ih hr
    exact (ih hr).imp_right fun ⟨other, hother, hfile⟩ =>
      ⟨other, List.mem_cons_of_mem _ hother, hfile⟩
  · intro jobs p _ hr
    rw [report_stop] at hr
    exact .inl hr
  · exact fun job jobs p done hdone _ hr => hpass hdone hr
  · intro job jobs p done vs q hdone _ ih hr
    rcases ih hr with h | ⟨other, hother, hfile⟩
    · exact hpass hdone h
    · exact .inr ⟨other, List.mem_cons_of_mem _ hother, hfile⟩

theorem file_of_mem_alone {s : σ} {r : PassReport}
    (h : r ∈ (alone out c s file).report.passes) : r.file = file := by
  rcases file_of_mem_passes none (c.jobsOf file) (start c s) h with h | ⟨job, hjob, hfile⟩
  · exact absurd h List.not_mem_nil
  · exact hfile.trans (Config.file_eq_of_mem_jobsOf hjob)

/-- What a run over one of different files alone reports stands once in what the runs over each of
them report. -/
theorem filter_flatMap_alone {files : List Path} (hnodup : files.Nodup) (s : σ)
    (hfile : file ∈ files) :
    (files.flatMap fun f => (alone out c s f).report.passes).filter (fun r => r.file = file)
      = (alone out c s file).report.passes := by
  have hself : (alone out c s file).report.passes.filter (fun r => r.file = file)
      = (alone out c s file).report.passes :=
    List.filter_eq_self.mpr fun r hr => by simpa using file_of_mem_alone hr
  have hother : ∀ f, f ≠ file →
      (alone out c s f).report.passes.filter (fun r => r.file = file) = [] := by
    intro f hf
    refine List.filter_eq_nil_iff.mpr fun r hr => ?_
    simpa [file_of_mem_alone hr] using hf
  induction files with
  | nil => cases hfile
  | cons f files ih =>
    obtain ⟨hf, hnodup⟩ := List.nodup_cons.mp hnodup
    rw [List.flatMap_cons, List.filter_append]
    rcases List.mem_cons.mp hfile with rfl | hmem
    · have hrest : (files.flatMap fun f => (alone out c s f).report.passes).filter
          (fun r => r.file = file) = [] := by
        rw [List.filter_flatMap, List.flatMap_eq_nil_iff]
        exact fun g hg => hother g fun heq => hf (heq ▸ hg)
      rw [hself, hrest, List.append_nil]
    · rw [hother f fun heq => hf (heq ▸ hmem), List.nil_append, ih hnodup hmem]

end Progress

/-! ## Whole runs -/

/-- Two runs over the same files that have done the same for each of them. -/
structure Run.Reordered {σ : Type} (out : Outside σ) (files : List Path) (r other : Run σ) :
    Prop where
  passes : r.report.passes.Perm other.report.passes
  failedFiles : r.report.failedFiles.Perm other.report.failedFiles
  budgetExhausted : r.report.budgetExhausted = other.report.budgetExhausted
  reports : ∀ file ∈ files, r.report.passes.filter (fun report => report.file = file)
    = other.report.passes.filter fun report => report.file = file
  seen : ∀ file ∈ files, out.seen file r.session.outside = out.seen file other.session.outside

theorem Run.reordered_of_asAlone {σ : Type} {out : Outside σ} {c : Config} {s : σ}
    {files others : List Path} (hperm : files.Perm others) (hnodup : files.Nodup)
    {p q : Progress σ} (hp : Progress.AsAlone out c s files (.start c s) p)
    (hq : Progress.AsAlone out c s others (.start c s) q) (hwhole : p.isBroken = false)
    (hwhole' : q.isBroken = false) (hhit : p.budget.hit = q.budget.hit) :
    Reordered out files
      ⟨{ p.report with budgetExhausted := p.budget.hit }, p.session, p.isBroken⟩
      ⟨{ q.report with budgetExhausted := q.budget.hit }, q.session, q.isBroken⟩ := by
  have hpasses : p.report.passes
      = files.flatMap fun f => (Progress.alone out c s f).report.passes := hp.passes hwhole
  have hpasses' : q.report.passes
      = others.flatMap fun f => (Progress.alone out c s f).report.passes := hq.passes hwhole'
  have hfailed : p.report.failedFiles
      = files.flatMap fun f => (Progress.alone out c s f).report.failedFiles :=
    hp.failedFiles hwhole
  have hfailed' : q.report.failedFiles
      = others.flatMap fun f => (Progress.alone out c s f).report.failedFiles :=
    hq.failedFiles hwhole'
  have hnodup' : others.Nodup := hperm.nodup_iff.mp hnodup
  refine ⟨?_, ?_, hhit, fun file hfile => ?_, fun file hfile => ?_⟩
  · dsimp only
    rw [hpasses, hpasses']
    exact hperm.flatMap_right _
  · dsimp only
    rw [hfailed, hfailed']
    exact hperm.flatMap_right _
  · dsimp only
    rw [hpasses, hpasses', Progress.filter_flatMap_alone hnodup s hfile,
      Progress.filter_flatMap_alone hnodup' s (hperm.mem_iff.mp hfile)]
  · calc out.seen file p.session.outside
        = out.seen file (Progress.alone out c s file).session.outside :=
          hp.seen hwhole file hfile
      _ = out.seen file q.session.outside :=
          (hq.seen hwhole' file (hperm.mem_iff.mp hfile)).symm

/-- Two runs without a limit over the same files in different orders. The models leave the files
alone and answer by request; the files are apart, and what a write comes to hangs on its file alone.
Both runs start or neither does, both break off or neither does, and if they do not they report the
same of each file and leave the same in it. -/
theorem run_perm {σ : Type} (out : Outside σ) (c : Config) {files others : List Path} (s : σ)
    (hperm : files.Perm others) (hlimit : c.maxEdits = none) (hanswers : out.AnswersByRequest)
    (hcalls : ∀ file ∈ files, out.CallsLeave file)
    (hwrites : ∀ file ∈ files, out.WritesLocally file) (hapart : files.Pairwise out.Apart) :
    (∃ e, run out c files s = .error e ∧ run out c others s = .error e) ∨
      ∃ r other, run out c files s = .ok r ∧ run out c others s = .ok other ∧
        r.isBroken = other.isBroken ∧ (r.isBroken = false → r.Reordered out files other) := by
  by_cases hfiles : files = []
  · subst hfiles
    obtain rfl := hperm.nil_eq
    exact .inl ⟨.noFiles, rfl, rfl⟩
  have hothers : others ≠ [] := fun h => hfiles (hperm.trans (.of_eq h)).eq_nil
  cases hvalid : c.isValid with
  | false =>
    left
    refine ⟨.noPass, ?_, ?_⟩
    · rw [run, if_neg (by simpa using hfiles), if_neg (by simp [hvalid])]
    · rw [run, if_neg (by simpa using hothers), if_neg (by simp [hvalid])]
  | true =>
    right
    have hmem : ∀ file ∈ others, file ∈ files := fun file hfile => hperm.mem_iff.mpr hfile
    have hapart' : others.Pairwise out.Apart :=
      (hperm.pairwise_iff fun h => h.symm).mp hapart
    have halone := Progress.asAlone_work hlimit hanswers hcalls hwrites hapart
      (p := .start c s) rfl hlimit fun _ _ => rfl
    have halone' := Progress.asAlone_work hlimit hanswers
      (fun file hfile => hcalls file (hmem file hfile))
      (fun file hfile => hwrites file (hmem file hfile)) hapart'
      (p := .start c s) rfl hlimit fun _ _ => rfl
    have hhit : ∀ jobs, (Progress.work out c none jobs (.start c s)).budget.hit = false :=
      fun jobs => (Progress.unlimited_work out c none jobs hlimit).2
    -- a run breaks off where the run over one of its files alone does, whichever comes first
    have hbroken : (Progress.work out c none (c.jobs files) (.start c s)).isBroken
        = (Progress.work out c none (c.jobs others) (.start c s)).isBroken :=
      calc (Progress.work out c none (c.jobs files) (.start c s)).isBroken
          = files.any fun file => (Progress.alone out c s file).isBroken := halone.isBroken
        _ = others.any fun file => (Progress.alone out c s file).isBroken := hperm.any_eq
        _ = (Progress.work out c none (c.jobs others) (.start c s)).isBroken :=
            halone'.isBroken.symm
    refine ⟨_, _, run_of_isValid out c s hfiles hvalid, run_of_isValid out c s hothers hvalid,
      hbroken, fun hwhole => ?_⟩
    exact Run.reordered_of_asAlone hperm (hapart.imp fun h => h.ne) halone halone' hwhole
      (hbroken.symm.trans hwhole) ((hhit _).trans (hhit _).symm)

/-! ## Two files with two classes each -/

namespace ClassFile

/-- Classes only, and comments that are made up without a model. -/
def mocking : Config := { config with mock := true, maxEdits := none }

def mocked : Outside FileEntry := pairHost.outside mocking

def madeUp : Text := "/// Placeholder documentation generated in mock mode.\n".toList

def madeUpEdits : List Edit := [⟨⟨0, 0⟩, madeUp⟩, ⟨⟨11, 11⟩, madeUp⟩]

theorem exists_commit_madeUpEdits :
    ∃ r, (⟨madeUpEdits⟩ : Changeset).commit pair = .ok r ∧
      r.modified = madeUp ++ "class A {}\n".toList ++ madeUp ++ "class B {}\n".toList := by
  have hshown : (Diff.unified? pair (madeUp ++ "class A {}\n".toList ++ madeUp ++
      "class B {}\n".toList)).isSome = true := by cbv
  exact Changeset.exists_commit_of_inOrder (by decide) (by decide) rfl hshown

/-- What is made up for the classes of a file does not break the run off. -/
theorem endsRun_mocked {file : Path} (hlang : Language.ofPath? file = some .csharp)
    (hthere : pairFiles.find file = .ok (.file (Utf8.encode pair))) :
    (FilePass.ofPath mocked mocking .missing file (.fresh none) (.start pairFiles)).endsRun
      = false := by
  have hsource : Source.ofEntry file mocking.maxFileSize (mocked.find file pairFiles)
      = .ok pair := by
    change Source.ofEntry file mocking.maxFileSize (pairFiles.find file) = .ok pair
    rw [hthere]
    rfl
  have hplan : FilePass.ofPath mocked mocking .missing file (.fresh none) (.start pairFiles)
      = .ofPlan mocked mocking .missing file pairPlan (.fresh none) (.start pairFiles) :=
    FilePass.ofPath_of_search mocked mocking .missing file (.fresh none) (.start pairFiles) hlang
      hsource search_pair
  obtain ⟨r, hr, -⟩ := exists_commit_madeUpEdits
  have hcommit : (Treated.ofPlanned mocked mocking pairPlan.style pairPlan.source (.fresh none)
      pairPlan.planned (.start file .missing) (.start pairFiles)).staging.changes.commit
        pairPlan.source = .ok r := hr
  rw [hplan, ← Bool.not_eq_true, FilePass.endsRun_ofPlan_iff _ _ _ _ _ _ _ rfl]
  intro hnoDiff
  cases hcommit.symm.trans hnoDiff

theorem isBroken_alone_mocked {file : Path} (hlang : Language.ofPath? file = some .csharp)
    (hthere : pairFiles.find file = .ok (.file (Utf8.encode pair))) :
    (Progress.alone mocked mocking pairFiles file).isBroken = false := by
  have hwork : Progress.alone mocked mocking pairFiles file
      = (Progress.start mocking pairFiles).take file
        (FilePass.ofPath mocked mocking .missing file (.fresh none) (.start pairFiles)) :=
    Progress.work_singleton rfl
  rw [hwork, Progress.isBroken_take]
  exact endsRun_mocked hlang hthere

end ClassFile

open ClassFile

/-- A run over two files of a directory with two classes each. -/
theorem run_perm_of_pairs :
    [path, otherPath].Pairwise mocked.Apart ∧
      ∃ r other, run mocked mocking [path, otherPath] pairFiles = .ok r ∧
        run mocked mocking [otherPath, path] pairFiles = .ok other ∧
        r.isBroken = false ∧ r.Reordered mocked [path, otherPath] other := by
  have htree : mocked.OnTree id := Checkout.onTree_outside_host _ _ mocking
  have hanswers : mocked.AnswersByRequest := Checkout.answersByRequest_outside_host _ _ mocking
  have hcalls : ∀ file ∈ [path, otherPath], mocked.CallsLeave file :=
    fun file _ => Checkout.callsLeave_outside_host _ _ mocking file
  have hwrites : ∀ file ∈ [path, otherPath], mocked.WritesLocally file :=
    fun file _ => htree.writesLocally file
  have hapart : [path, otherPath].Pairwise mocked.Apart :=
    List.pairwise_pair.mpr (apart_of_onTree htree)
  have halone := Progress.asAlone_work (c := mocking) (s := pairFiles) rfl hanswers hcalls hwrites
    hapart (p := .start mocking pairFiles) rfl rfl fun _ _ => rfl
  have hwhole := halone.isBroken
  rw [List.any_cons, List.any_cons, isBroken_alone_mocked ofPath?_path rfl,
    isBroken_alone_mocked ofPath?_otherPath rfl] at hwhole
  rcases run_perm mocked mocking pairFiles (.swap otherPath path []) rfl hanswers hcalls hwrites
    hapart with ⟨e, he, -⟩ | ⟨r, other, hr, hother, -, hsame⟩
  · rw [run_of_isValid _ _ _ (by simp) rfl] at he
    cases he
  · have hunbroken : r.isBroken = false := by
      rw [run_of_isValid _ _ _ (by simp) rfl] at hr
      rw [← Except.ok.inj hr]
      exact hwhole
    exact ⟨hapart, r, other, hr, hother, hunbroken, hsame hunbroken⟩

/-! ## Two files, one of which breaks the run off -/

/-- What is seen under a path is its text. -/
theorem Shelf.texts_eq_of_seen_eq {parse : Text → Tree} {reply : Text} {file : Path} {s t : Shelf}
    (h : (outside parse reply).seen file s = (outside parse reply).seen file t) :
    s.texts file = t.texts file := by
  have hbytes : Utf8.encode (s.texts file) = Utf8.encode (t.texts file) :=
    FileEntry.file.inj (Except.ok.inj h)
  have hdecoded := congrArg Utf8.decode hbytes
  rw [Utf8.decode_encode, Utf8.decode_encode] at hdecoded
  exact Except.ok.inj hdecoded

namespace ClassFile

def renewingAll : Config := renewing.withLimit none

/-- The trees of two lines of comment and of eight, and a model that always drafts twelve lines
without a text. -/
def marksShelf : Outside Shelf :=
  Shelf.outside
    (fun source =>
      if source = twoLines.source then twoLines.tree
      else if source = eightLines.source then eightLines.tree
      else .node "compilation_unit" true ⟨0, Text.byteSize source⟩ [])
    twelveMarks

def twoLinesRenewal : List Edit := [⟨⟨0, 5⟩, twelveMarks⟩, ⟨⟨5, 11⟩, []⟩]

def twoLinesRenewed : Text := twelveMarks ++ "\nclass A {}\n".toList

theorem answersByRequest_marksShelf : marksShelf.AnswersByRequest :=
  ⟨fun _ _ _ => rfl, fun _ _ _ => rfl⟩

theorem writesLocally_marksShelf (file : Path) : marksShelf.WritesLocally file := by
  intro text s t bytes _ _
  unfold marksShelf Shelf.outside Outside.seen
  dsimp only
  rw [if_pos rfl, if_pos rfl]
  exact ⟨rfl, rfl⟩

theorem apart_marksShelf {f g : Path} (h : Path.same f g = false) : marksShelf.Apart f g := by
  have hne : f ≠ g := by
    rintro rfl
    simp [Path.same] at h
  exact ⟨h, Shelf.writeLeaves_outside _ _ hne.symm, Shelf.writeLeaves_outside _ _ hne⟩

theorem exists_commit_twoLinesRenewal :
    ∃ r, (⟨twoLinesRenewal⟩ : Changeset).commit twoLines.source = .ok r ∧
      r.modified = twoLinesRenewed := by
  have hshown : (Diff.unified? twoLines.source twoLinesRenewed).isSome = true := by cbv
  exact Changeset.exists_commit_of_inOrder (by decide) (by decide) rfl hshown

section Renewal

variable {file : Path} {s : Shelf}

def renewal (f : ClassFile) : FilePlan :=
  ⟨.slashes, f.source, [f.node].filterMap (Planned.ofNode? .slashes .update f.source)⟩

def renew (file : Path) (s : Shelf) : FilePass Shelf :=
  FilePass.ofPath marksShelf renewingAll .update file (.fresh none) (.start s)

theorem renew_of_search {f : ClassFile} (hlang : Language.ofPath? file = some .csharp)
    (hs : s.texts file = f.source)
    (hread : Source.ofEntry file renewingAll.maxFileSize (.ok (.file (Utf8.encode f.source)))
      = .ok f.source)
    (hparse : marksShelf.parse .csharp f.source = f.tree)
    (hmatched : (Pass.update.rule .slashes config.request).search .csharp f.source f.tree
      = .ok [f.node]) :
    renew file s
      = .ofPlan marksShelf renewingAll .update file f.renewal (.fresh none) (.start s) := by
  refine FilePass.ofPath_of_search marksShelf renewingAll .update file (.fresh none) (.start s)
    hlang ?_ (hparse.symm ▸ hmatched)
  change Source.ofEntry file _ (.ok (.file (Utf8.encode (s.texts file)))) = _
  rw [hs, hread]

/-- The renewal of two lines of comment is written, and does not break the run off. -/
theorem renew_twoLines (hlang : Language.ofPath? file = some .csharp)
    (hs : s.texts file = twoLines.source) :
    (renew file s).endsRun = false ∧
      (renew file s).session.outside.texts file = twoLinesRenewed := by
  have hparse : marksShelf.parse .csharp twoLines.source = twoLines.tree := by
    unfold marksShelf Shelf.outside
    dsimp only
    exact if_pos rfl
  rw [renew_of_search hlang hs rfl hparse (search_of_filter rfl)]
  obtain ⟨r, hr, hmodified⟩ := exists_commit_twoLinesRenewal
  have hcommit : (Treated.ofPlanned marksShelf renewingAll twoLines.renewal.style
      twoLines.renewal.source (.fresh none) twoLines.renewal.planned (.start file .update)
      (.start s)).staging.changes.commit twoLines.renewal.source = .ok r := hr
  constructor
  · rw [← Bool.not_eq_true, FilePass.endsRun_ofPlan_iff _ _ _ _ _ _ _ rfl]
    exact fun hnoDiff => by cases hcommit.symm.trans hnoDiff
  · have hchanged : r.modified ≠ twoLines.source := by
      rw [hmodified]
      decide
    have hname := FilePass.file_staging marksShelf renewingAll twoLines.renewal .update file
      (.fresh none) (.start s)
    rw [(FilePass.ofPlan_eq _ _ _ _ _ _ _ rfl).2, Staging.commit_of_changed hcommit hchanged rfl]
    change (if file = _ then r.modified else _) = _
    exact (if_pos hname.symm).trans hmodified

/-- The renewal of eight lines of comment breaks the run off. -/
theorem endsRun_renew_eightLines (hlang : Language.ofPath? file = some .csharp)
    (hs : s.texts file = eightLines.source) : (renew file s).endsRun = true := by
  have hparse : marksShelf.parse .csharp eightLines.source = eightLines.tree := by
    unfold marksShelf Shelf.outside
    dsimp only
    rw [if_neg (by decide), if_pos rfl]
  rw [renew_of_search hlang hs rfl hparse (search_of_filter rfl),
    FilePass.endsRun_ofPlan_iff _ _ _ _ _ _ _ rfl]
  exact commit_eightLinesRenewal

end Renewal

/-- Eight lines of comment under one path, and two under every other one. -/
def eightBesideTwo : Shelf := ⟨fun p => if p = path then eightLines.source else twoLines.source⟩

end ClassFile

open ClassFile

/-- Of two files the one whose changes have no diff comes first or last. -/
theorem run_order_matters :
    renewingAll.maxEdits = none ∧ marksShelf.AnswersByRequest ∧
      (∀ file, marksShelf.CallsLeave file ∧ marksShelf.WritesLocally file) ∧
      [path, otherPath].Pairwise marksShelf.Apart ∧
      ∃ r other, run marksShelf renewingAll [path, otherPath] eightBesideTwo = .ok r ∧
        run marksShelf renewingAll [otherPath, path] eightBesideTwo = .ok other ∧
        r.session.outside.texts otherPath ≠ other.session.outside.texts otherPath := by
  have hapart : [path, otherPath].Pairwise marksShelf.Apart :=
    List.pairwise_pair.mpr (apart_marksShelf (by decide))
  have hcalls : ∀ file, marksShelf.CallsLeave file := fun file => Shelf.callsLeave_outside _ _ file
  have hleaves : marksShelf.WriteLeaves path otherPath :=
    Shelf.writeLeaves_outside _ _ (by decide)
  refine ⟨rfl, answersByRequest_marksShelf,
    fun file => ⟨hcalls file, writesLocally_marksShelf file⟩, hapart, _, _,
    run_of_isValid _ _ _ (by simp) rfl, run_of_isValid _ _ _ (by simp) rfl, ?_⟩
  have hfirst : Progress.work marksShelf renewingAll none (renewingAll.jobs [path, otherPath])
      (.start renewingAll eightBesideTwo)
        = (Progress.start renewingAll eightBesideTwo).take path (renew path eightBesideTwo) := by
    refine (Progress.work_of_passed rfl rfl rfl).trans (if_pos ?_)
    exact endsRun_renew_eightLines ofPath?_path rfl
  have hkept : (renew path eightBesideTwo).session.outside.texts otherPath = twoLines.source :=
    (Shelf.texts_eq_of_seen_eq (FilePass.seen_ofPath (hcalls path) (hcalls otherPath) hleaves
      .update (.fresh none) (.start eightBesideTwo))).trans rfl
  have htwo : eightBesideTwo.texts otherPath = twoLines.source := rfl
  obtain ⟨hgoesOn, hrenewed⟩ := renew_twoLines ofPath?_otherPath htwo
  have hsecond : Progress.work marksShelf renewingAll none (renewingAll.jobs [otherPath, path])
      (.start renewingAll eightBesideTwo)
        = Progress.work marksShelf renewingAll
          ((renew otherPath eightBesideTwo).remembered otherPath none) (renewingAll.jobs [path])
          ((Progress.start renewingAll eightBesideTwo).take otherPath
            (renew otherPath eightBesideTwo)) :=
    (Progress.work_of_passed rfl rfl rfl).trans (if_neg (Bool.eq_false_iff.mp hgoesOn))
  have hlast : ∀ failed,
      (Progress.work marksShelf renewingAll failed (renewingAll.jobs [path])
        ((Progress.start renewingAll eightBesideTwo).take otherPath
          (renew otherPath eightBesideTwo))).session.outside.texts otherPath = twoLinesRenewed := by
    intro failed
    refine (Shelf.texts_eq_of_seen_eq (Progress.seen_work (fun job hjob => ?_)
      (hcalls otherPath)).2).trans hrenewed
    rw [List.mem_singleton.mp (Config.file_mem_of_mem_jobs hjob)]
    exact ⟨hcalls path, hleaves⟩
  dsimp only
  rw [hfirst, hsecond, hlast]
  change (renew path eightBesideTwo).session.outside.texts otherPath ≠ twoLinesRenewed
  rw [hkept]
  decide

end DocComments
