import DocComments.Proofs.Run.Append
import DocComments.Proofs.Run.Exhaustion
import DocComments.Proofs.Run.Frame

/-!
# A file that cannot be planned

A pass over a file of no known language, or over one that cannot be read, fails before anything is
asked, noted or charged. The jobs of such a file therefore leave a run as it is, but for a line in
the report (`Progress.work_unplannable`), and the run goes on as if the file were not in the list
(`run_beside_unplannable`).
-/

set_option autoImplicit false

namespace DocComments

/-- Nothing can be planned in a file: it is of no known language, or its source cannot be read. -/
def Outside.Unplannable {σ : Type} (out : Outside σ) (c : Config) (file : Path) (s : σ) : Prop :=
  Language.ofPath? file = none ∨
    ∃ e, Source.ofEntry file c.maxFileSize (out.find file s) = .error e

section Unplannable

variable {σ : Type} {out : Outside σ} {c : Config} {file : Path}

theorem Outside.Unplannable.congr {s t : σ} (h : out.Unplannable c file s)
    (hst : out.seen file s = out.seen file t) : out.Unplannable c file t := by
  refine h.imp_right fun ⟨e, he⟩ => ⟨e, ?_⟩
  rw [← Source.ofEntry_outline] at he ⊢
  exact (congrArg (Source.ofEntry file c.maxFileSize) hst.symm).trans he

/-- A pass over such a file fails with nothing done. -/
theorem FilePass.ofPath_of_unplannable (pass : Pass) (budget : Budget) {s : Session σ}
    (h : out.Unplannable c file s.outside) :
    ∃ e, ofPath out c pass file budget s = ⟨.error e, budget, s⟩ ∧
      endsRun ⟨.error e, budget, s⟩ = false := by
  unfold ofPath FilePlan.ofPath
  rcases h with h | ⟨e, he⟩
  · rw [h]
    exact ⟨_, rfl, rfl⟩
  · cases Language.ofPath? file with
    | none => exact ⟨_, rfl, rfl⟩
    | some lang =>
      rw [he]
      exact ⟨_, rfl, rfl⟩

theorem Progress.wouldTreat_of_unplannable (pass : Pass) {s : σ}
    (h : out.Unplannable c file s) : wouldTreat out c s ⟨file, pass⟩ = false := by
  unfold wouldTreat FilePlan.ofPath
  rcases h with h | ⟨e, he⟩
  · rw [h]
  · cases Language.ofPath? file with
    | none => rfl
    | some lang => rw [he]

end Unplannable

/-- A path that names no other file of a list is not among them. -/
theorem Path.not_mem_of_pairwise {front back : List Path} {file : Path}
    (h : (front ++ file :: back).Pairwise fun f g => Path.same f g = false) :
    file ∉ front ++ back := by
  have hself : ¬ Path.same file file = false := by simp [Path.same]
  obtain ⟨-, hbehind, hacross⟩ := List.pairwise_append.mp h
  intro hmem
  rcases List.mem_append.mp hmem with hfront | hback
  · exact hself (hacross file hfront file List.mem_cons_self)
  · exact hself ((List.pairwise_cons.mp hbehind).1 file hback)

namespace Progress

variable {σ : Type} {out : Outside σ} {c : Config}

def noteFailed (p : Progress σ) (file : Path) : Progress σ :=
  { p with report := { p.report with failedFiles := p.report.failedFiles ++ [file] } }

theorem work_of_all_same {failed : Option Path} {jobs : List Job}
    (h : ∀ job ∈ jobs, failed.any (Path.same job.file) = true) (p : Progress σ) :
    work out c failed jobs p = p := by
  induction jobs with
  | nil => rfl
  | cons job jobs ih =>
    obtain ⟨hjob, hjobs⟩ := List.forall_mem_cons.mp h
    rw [work_of_skipped hjob, ih hjobs]

/-- The jobs of a file that cannot be planned: it is reported once, if the run comes to it. -/
theorem work_unplannable {file : Path} {p : Progress σ} (hvalid : c.isValid = true)
    (hp : p.isBroken = false) (h : out.Unplannable c file p.session.outside) :
    work out c none (c.jobsOf file) p
      = if p.budget.isExhausted then p else p.noteFailed file := by
  cases hstop : p.budget.isExhausted with
  | true =>
    have hnone : (c.jobsOf file).any (wouldTreat out c p.session.outside) = false := by
      rw [Config.jobsOf, List.any_map, List.any_eq_false]
      intro pass _
      simpa using wouldTreat_of_unplannable pass h
    rw [work_of_isExhausted out c hstop, stop, hnone]
    rfl
  | false =>
    obtain ⟨pass, more, hpasses⟩ := List.exists_cons_of_ne_nil (Config.passes_ne_nil hvalid)
    obtain ⟨e, hdone, hends⟩ := FilePass.ofPath_of_unplannable pass p.budget h
    -- behind the first pass the file is remembered
    have hrest : ∀ job ∈ more.map (Job.mk file),
        (some file).any (Path.same job.file) = true := by
      intro job hjob
      obtain ⟨other, -, rfl⟩ := List.mem_map.mp hjob
      exact beq_self_eq_true _
    have htake : p.take file ⟨.error e, p.budget, p.session⟩ = p.noteFailed file := by
      rw [take, noteFailed, hends, ← hp]
    rw [if_neg Bool.false_ne_true, Config.jobsOf, hpasses, List.map_cons,
      work_of_passed rfl hstop (show FilePass.ofPath out c (Job.mk file pass).pass _ _ _ = _ from
        hdone), if_neg (by simp [hends]), htake]
    exact work_of_all_same hrest _

/-! ## The run around it -/

/-- A run differs from another one in a file that is reported as failed, if it differs at all. -/
structure Beside (bad : Path) (p q : Progress σ) : Prop where
  session : p.session = q.session
  budget : p.budget = q.budget
  isBroken : p.isBroken = q.isBroken
  passes : p.report.passes = q.report.passes
  failedFiles : p.report.failedFiles = q.report.failedFiles ∨
    ∃ front back, q.report.failedFiles = front ++ back ∧
      p.report.failedFiles = front ++ bad :: back

theorem Beside.refl (bad : Path) (p : Progress σ) : Beside bad p p :=
  ⟨rfl, rfl, rfl, rfl, .inl rfl⟩

section Beside

variable {bad : Path} {p q : Progress σ}

theorem Beside.filter_failedFiles (h : Beside bad p q) (hq : bad ∉ q.report.failedFiles) :
    p.report.failedFiles.filter (· ≠ bad) = q.report.failedFiles := by
  have hkept : ∀ files : List Path, bad ∉ files → files.filter (· ≠ bad) = files := by
    intro files hfiles
    refine List.filter_eq_self.mpr fun file hfile => ?_
    simpa using fun heq : file = bad => hfiles (heq ▸ hfile)
  rcases h.failedFiles with hsame | ⟨front, back, hfront, hbad⟩
  · rw [hsame, hkept _ hq]
  · rw [hfront, List.mem_append, not_or] at hq
    rw [hfront, hbad, List.filter_append, List.filter_cons_of_neg (by simp), hkept _ hq.1,
      hkept _ hq.2]

theorem Beside.count_failedFiles_le (h : Beside bad p q) (hq : bad ∉ q.report.failedFiles) :
    p.report.failedFiles.count bad ≤ 1 := by
  rcases h.failedFiles with hsame | ⟨front, back, hfront, hbad⟩
  · rw [hsame, List.count_eq_zero_of_not_mem hq]
    exact Nat.zero_le 1
  · rw [hfront, List.mem_append, not_or] at hq
    rw [hbad, List.count_append, List.count_cons_self, List.count_eq_zero_of_not_mem hq.1,
      List.count_eq_zero_of_not_mem hq.2]

end Beside

/-- A report that is there before some jobs is there behind them, and nothing else changes. -/
theorem beside_work_noteFailed (bad : Path) (failed : Option Path) (jobs : List Job)
    (p : Progress σ) :
    Beside bad (work out c failed jobs (p.noteFailed bad)) (work out c failed jobs p) := by
  rw [work_eq_behind out c failed jobs p, work_eq_behind out c failed jobs (p.noteFailed bad)]
  refine ⟨rfl, rfl, rfl, rfl, .inr ⟨p.report.failedFiles, _, rfl, ?_⟩⟩
  exact List.append_assoc _ _ _

/-- The jobs of a file that cannot be planned may stand anywhere among the jobs of other files. -/
theorem beside_work_jobs {front back : List Path} {bad : Path} {p : Progress σ}
    (hfiles : (front ++ bad :: back).Pairwise fun f g => Path.same f g = false)
    (hvalid : c.isValid = true) (hp : p.isBroken = false)
    (hbad : out.Unplannable c bad (work out c none (c.jobs front) p).session.outside) :
    Beside bad (work out c none (c.jobs (front ++ bad :: back)) p)
      (work out c none (c.jobs (front ++ back)) p) := by
  obtain ⟨-, hbehind, hacross⟩ := List.pairwise_append.mp hfiles
  obtain ⟨hback, -⟩ := List.pairwise_cons.mp hbehind
  have hfront : ∀ later ∈ c.jobsOf bad ++ c.jobs back, ∀ job ∈ c.jobs front,
      Path.same later.file job.file = false := by
    intro later hlater job hjob
    have hmem : later.file ∈ bad :: back := by
      rcases List.mem_append.mp hlater with h | h
      · rw [Config.file_eq_of_mem_jobsOf h]
        exact List.mem_cons_self
      · exact List.mem_cons_of_mem _ (Config.file_mem_of_mem_jobs h)
    rw [Path.same_comm]
    exact hacross _ (Config.file_mem_of_mem_jobs hjob) _ hmem
  have hmiddle : ∀ later ∈ c.jobs back, ∀ job ∈ c.jobsOf bad,
      Path.same later.file job.file = false := by
    intro later hlater job hjob
    rw [Config.file_eq_of_mem_jobsOf hjob, Path.same_comm]
    exact hback _ (Config.file_mem_of_mem_jobs hlater)
  rw [Config.jobs_append, Config.jobs_append, Config.jobs_cons,
    work_append out c hp (fun _ _ => rfl) hfront,
    work_append out c hp (fun _ _ => rfl) fun later hlater =>
      hfront later (List.mem_append_right _ hlater)]
  generalize work out c none (c.jobs front) p = q at hbad ⊢
  -- behind the files in front the run broke off, has to stop, or goes on
  cases hbroken : q.isBroken with
  | true => exact Beside.refl bad q
  | false =>
    have hjobs := work_unplannable hvalid hbroken hbad
    rw [if_neg Bool.false_ne_true, if_neg Bool.false_ne_true,
      work_append out c hbroken (fun _ _ => rfl) hmiddle, hjobs]
    cases q.budget.isExhausted with
    | true =>
      rw [if_pos rfl, if_neg (by simp [hbroken])]
      exact Beside.refl bad _
    | false =>
      have hgoeson : ¬ (q.noteFailed bad).isBroken = true := by simp [noteFailed, hbroken]
      rw [if_neg Bool.false_ne_true, if_neg hgoeson]
      exact beside_work_noteFailed bad none _ q

variable (out c) in
def Reaches (files : List Path) (s : σ) (file : Path) : Prop :=
  ∃ v ∈ visits out c none (c.jobs files) (.start c s),
    v.job.file = file ∧ ∃ done, v.fate = .passed done

/-- A run reaches its first file unless it may make no edit at all. -/
theorem reaches_first {file : Path} (files : List Path) (s : σ) (hvalid : c.isValid = true)
    (hleft : (Budget.fresh c.maxEdits).isExhausted = false) :
    Reaches out c (file :: files) s file := by
  obtain ⟨pass, more, hpasses⟩ := List.exists_cons_of_ne_nil (Config.passes_ne_nil hvalid)
  have hjobs : c.jobs (file :: files)
      = ⟨file, pass⟩ :: (more.map (Job.mk file) ++ c.jobs files) := by
    rw [Config.jobs_cons, Config.jobsOf, hpasses]
    rfl
  unfold Reaches
  rw [hjobs, visits, if_neg (by simp), if_neg (by simp [start, hleft])]
  dsimp only
  split
  · exact ⟨_, List.mem_cons_self, rfl, _, rfl⟩
  · exact ⟨_, List.mem_cons_self, rfl, _, rfl⟩

theorem mem_failedFiles_work {failed : Option Path} {jobs : List Job} {p : Progress σ}
    {file : Path} : file ∈ (work out c failed jobs p).report.failedFiles ↔
      file ∈ p.report.failedFiles ∨
        ∃ v ∈ visits out c failed jobs p, v.failed = true ∧ v.job.file = file := by
  rw [failedFiles_work, List.mem_append, List.mem_map]
  simp only [List.mem_filter, and_assoc]

variable (out c) in
/-- A file fails if a pass over it does. -/
theorem not_mem_failedFiles_work {files : List Path} (s : σ) {file : Path} (h : file ∉ files) :
    file ∉ (work out c none (c.jobs files) (.start c s)).report.failedFiles := by
  rw [mem_failedFiles_work]
  rintro (hstart | ⟨v, hv, -, rfl⟩)
  · cases hstart
  · exact h (Config.file_mem_of_mem_jobs (job_mem_of_mem_visits hv))

/-- A file in which nothing can be planned fails if the run comes to it. -/
theorem mem_failedFiles_of_unplannable {files : List Path} {s : σ} {bad : Path}
    (hbefore : ∀ v ∈ visits out c none (c.jobs files) (.start c s),
      out.Unplannable c bad v.before.session.outside) :
    bad ∈ (work out c none (c.jobs files) (.start c s)).report.failedFiles ↔
      Reaches out c files s bad := by
  have hstart : bad ∉ (start c s).report.failedFiles := List.not_mem_nil
  rw [mem_failedFiles_work, or_iff_right hstart]
  refine exists_congr fun v => and_congr_right fun hv => and_comm.trans ?_
  refine and_congr_right fun hfile => ?_
  unfold Visit.failed
  cases hfate : v.fate with
  | skipped => simp
  | stopped => simp
  | passed done =>
    have hfails : done.result.toBool = false := by
      rw [eq_ofPath_of_mem_visits hv hfate, hfile]
      obtain ⟨e, hdone, -⟩ :=
        FilePass.ofPath_of_unplannable v.job.pass v.before.budget (hbefore v hv)
      rw [hdone]
      rfl
    simp [hfails]

/-- Nothing that a run does reaches a file in which nothing can be planned. -/
theorem seen_work_of_unplannable {jobs : List Job} {p : Progress σ} {bad : Path}
    (hbad : out.Unplannable c bad p.session.outside)
    (hcalls : out.CallsLeave bad ∧ ∀ job ∈ jobs, out.CallsLeave job.file)
    (hwrites : ∀ job ∈ jobs, job.file = bad ∨ out.WriteLeaves job.file bad) :
    (∀ v ∈ visits out c none jobs p, out.Unplannable c bad v.before.session.outside) ∧
      out.seen bad (work out c none jobs p).session.outside
        = out.seen bad p.session.outside := by
  have hpass : ∀ job ∈ jobs, ∀ budget (s : Session σ),
      out.seen bad s.outside = out.seen bad p.session.outside →
      out.seen bad (FilePass.ofPath out c job.pass job.file budget s).session.outside
        = out.seen bad p.session.outside := by
    intro job hjob budget s hs
    rcases hwrites job hjob with hfile | hwrite
    · obtain ⟨e, hdone, -⟩ :=
        FilePass.ofPath_of_unplannable job.pass budget (hfile ▸ hbad.congr hs.symm)
      rw [hdone]
      exact hs
    · rw [FilePass.seen_ofPath (hcalls.2 job hjob) hcalls.1 hwrite, hs]
  obtain ⟨hbefore, hend⟩ :=
    keeps_work (P := fun s => out.seen bad s = out.seen bad p.session.outside) hpass rfl
  exact ⟨fun v hv => hbad.congr (hbefore v hv).symm, hend⟩

end Progress

/-! ## Whole runs -/

namespace Run

variable {σ : Type}

def idle (s : σ) : Run σ := ⟨.start, .start s, false⟩

/-- A run differs from another one in that a file is reported as failed, if it differs at all. -/
structure Beside (bad : Path) (r other : Run σ) : Prop where
  session : r.session = other.session
  isBroken : r.isBroken = other.isBroken
  passes : r.report.passes = other.report.passes
  failedFiles : r.report.failedFiles.filter (· ≠ bad) = other.report.failedFiles
  budgetExhausted : r.report.budgetExhausted = other.report.budgetExhausted

theorem beside_of_progress {bad : Path} {p q : Progress σ} (h : Progress.Beside bad p q)
    (hq : bad ∉ q.report.failedFiles) :
    Beside bad ⟨{ p.report with budgetExhausted := p.budget.hit }, p.session, p.isBroken⟩
      ⟨{ q.report with budgetExhausted := q.budget.hit }, q.session, q.isBroken⟩ :=
  ⟨h.session, h.isBroken, h.passes, h.filter_failedFiles hq, congrArg Budget.hit h.budget⟩

end Run

section Run

variable {σ : Type} (out : Outside σ) (c : Config) (s : σ)

/-- A file in which nothing can be planned stands anywhere in a list of files that are all apart.
The models leave the files alone, and a write to another file does not reach this one. Then the run
starts if a pass is asked for, and it asks and answers the same, reports the same and leaves the
same behind as the run without the file; the file keeps what is in it, and it is reported as failed
once if the run comes to it, and not at all if it does not. -/
theorem run_beside_unplannable {front back : List Path} {bad : Path}
    (hfiles : (front ++ bad :: back).Pairwise fun f g => Path.same f g = false)
    (hbad : out.Unplannable c bad s)
    (hcalls : ∀ file ∈ front ++ bad :: back, out.CallsLeave file)
    (hwrites : ∀ file ∈ front ++ back, out.WriteLeaves file bad) :
    (c.isValid = false → run out c (front ++ bad :: back) s = .error .noPass) ∧
    (c.isValid = true → ∃ r, run out c (front ++ bad :: back) s = .ok r ∧
      (∃ other, (front ++ back = [] ∧ other = .idle s ∨ run out c (front ++ back) s = .ok other) ∧
        r.Beside bad other) ∧
      out.seen bad r.session.outside = out.seen bad s ∧
      (Progress.Reaches out c (front ++ bad :: back) s bad → r.report.failedFiles.count bad = 1) ∧
      (¬ Progress.Reaches out c (front ++ bad :: back) s bad → bad ∉ r.report.failedFiles)) := by
  refine ⟨fun hinvalid => ?_, fun hvalid => ?_⟩
  · unfold run
    rw [if_neg (by simp), if_neg (by simp [hinvalid])]
  have hleaves : ∀ job ∈ c.jobs (front ++ bad :: back),
      job.file = bad ∨ out.WriteLeaves job.file bad := by
    intro job hjob
    rcases List.mem_append.mp (Config.file_mem_of_mem_jobs hjob) with h | h
    · exact .inr (hwrites _ (List.mem_append_left _ h))
    · exact (List.mem_cons.mp h).imp_right fun h => hwrites _ (List.mem_append_right _ h)
  have hjobs : ∀ job ∈ c.jobs (front ++ bad :: back), out.CallsLeave job.file :=
    fun job hjob => hcalls _ (Config.file_mem_of_mem_jobs hjob)
  have hcallsBad : out.CallsLeave bad := hcalls bad (by simp)
  have hstart : out.Unplannable c bad (Progress.start c s).session.outside := hbad
  obtain ⟨hbefore, hseen⟩ :=
    Progress.seen_work_of_unplannable hstart ⟨hcallsBad, hjobs⟩ hleaves
  -- nothing can be planned in the file when the run comes to it either
  have hfront : ∀ job ∈ c.jobs front, job ∈ c.jobs (front ++ bad :: back) := by
    intro job hjob
    rw [Config.jobs_append]
    exact List.mem_append_left _ hjob
  have hthen := (Progress.seen_work_of_unplannable hstart
    ⟨hcallsBad, fun job hjob => hjobs job (hfront job hjob)⟩
    fun job hjob => hleaves job (hfront job hjob)).2
  have hbeside := Progress.beside_work_jobs hfiles hvalid rfl (hstart.congr hthen.symm)
  have hnone := Progress.not_mem_failedFiles_work out c s (Path.not_mem_of_pairwise hfiles)
  have hreaches := Progress.mem_failedFiles_of_unplannable hbefore
  refine ⟨_, run_of_isValid out c s (by simp) hvalid, ?_, hseen, fun hreached => ?_,
    fun hpassed hmem => hpassed (hreaches.mp hmem)⟩
  · refine ⟨_, ?_, Run.beside_of_progress hbeside hnone⟩
    by_cases hempty : front ++ back = []
    · left
      rw [hempty]
      exact ⟨rfl, rfl⟩
    · exact .inr (run_of_isValid out c s hempty hvalid)
  · refine Nat.le_antisymm (hbeside.count_failedFiles_le hnone) ?_
    exact List.count_pos_iff.mpr (hreaches.mpr hreached)

end Run

namespace ClassFile

/-- Two classes under one path, and a zero under every other one. -/
def besideZeros : Shelf := ⟨fun p => if p = path then pair else ['\x00']⟩

/-- The two classes parsed, nothing made of other texts, and a model that always drafts the same. -/
def pairShelf : Outside Shelf :=
  Shelf.outside (pairOutside.parse .csharp) "/// c".toList

theorem unplannable_zeros : pairShelf.Unplannable config otherPath besideZeros :=
  .inr ⟨.binary otherPath, rfl⟩

end ClassFile

open ClassFile

/-- A file with a zero in front of a file with two classes. -/
theorem run_beside_zeros :
    [otherPath, path].Pairwise (fun f g => Path.same f g = false) ∧
      pairShelf.Unplannable config otherPath besideZeros ∧
      ∃ r other, run pairShelf config [otherPath, path] besideZeros = .ok r ∧
        run pairShelf config [path] besideZeros = .ok other ∧ r.Beside otherPath other ∧
        r.report.failedFiles.count otherPath = 1 := by
  have hfiles : ([] ++ otherPath :: [path]).Pairwise fun f g => Path.same f g = false := by decide
  have hwrites : ∀ file ∈ [] ++ [path], pairShelf.WriteLeaves file otherPath := by
    intro file hfile
    obtain rfl := List.mem_singleton.mp hfile
    exact Shelf.writeLeaves_outside _ _ (by decide)
  obtain ⟨-, hvalid⟩ := run_beside_unplannable pairShelf config besideZeros hfiles
    unplannable_zeros (fun file _ => Shelf.callsLeave_outside _ _ file) hwrites
  obtain ⟨r, hr, ⟨other, hother, hbeside⟩, -, hcount, -⟩ := hvalid rfl
  refine ⟨hfiles, unplannable_zeros, r, other, hr, ?_, hbeside,
    hcount (Progress.reaches_first _ _ rfl rfl)⟩
  exact hother.resolve_left fun h => by cases h.1

end DocComments
