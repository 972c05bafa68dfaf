import DocComments.Proofs.Run.Exhaustion
import DocComments.Proofs.Run.Staged
import DocComments.Proofs.Run.Update

/-!
# Runs with a limit and without

A limit only ends a run early. As long as something is left of it, a run with a limit and the same
run without one make the same passes (`FilePass.same_of_allows`); behind the pass that takes all
that is left nothing more is staged (`Progress.batches_of_full`). What the run with the limit
commits are therefore the first batches of those that the run without a limit commits, as many as
the limit allows (`Progress.batches_eq_take`). In a pass that adds comments a batch is one edit.
-/

set_option autoImplicit false

namespace DocComments

/-! ## The same configuration with another limit -/

def Config.withLimit (c : Config) (limit : Option Nat) : Config := { c with maxEdits := limit }

section WithLimit

variable {σ : Type} (out : Outside σ) (c : Config) (limit : Option Nat)

theorem Treatment.ofPlanned_withLimit :
    Treatment.ofPlanned out (c.withLimit limit) = Treatment.ofPlanned out c := rfl

theorem Handled.ofPlanned_withLimit :
    Handled.ofPlanned out (c.withLimit limit) = Handled.ofPlanned out c := rfl

theorem Treated.ofPlanned_withLimit :
    Treated.ofPlanned out (c.withLimit limit) = Treated.ofPlanned out c :=
  Treated.ofPlanned_congr rfl

theorem Treated.handled_withLimit :
    Treated.handled out (c.withLimit limit) = Treated.handled out c := by
  funext style source budget planned w s
  induction planned generalizing w s with
  | nil => rfl
  | cons p ps ih =>
    unfold Treated.handled
    rw [Treatment.ofPlanned_withLimit, Handled.ofPlanned_withLimit]
    dsimp only
    rw [ih]

theorem FilePlan.ofPath_withLimit :
    FilePlan.ofPath out (c.withLimit limit) = FilePlan.ofPath out c := rfl

theorem FilePass.ofPath_withLimit :
    FilePass.ofPath out (c.withLimit limit) = FilePass.ofPath out c := by
  funext pass file budget s
  unfold FilePass.ofPath FilePass.ofPlan
  rw [FilePlan.ofPath_withLimit, Treated.ofPlanned_withLimit]
  rfl

theorem FilePass.batches_withLimit :
    FilePass.batches out (c.withLimit limit) = FilePass.batches out c := by
  funext pass file budget s
  unfold FilePass.batches
  rw [FilePlan.ofPath_withLimit, Treated.handled_withLimit]

theorem Progress.visits_withLimit :
    Progress.visits out (c.withLimit limit) = Progress.visits out c := by
  funext failed jobs p
  induction jobs generalizing failed p with
  | nil => rfl
  | cons job jobs ih =>
    unfold Progress.visits
    rw [FilePass.ofPath_withLimit]
    dsimp only
    rw [ih, ih]

end WithLimit

/-! ## Files -/

namespace FilePass

variable {σ : Type} {out : Outside σ} {c : Config} {limited free : Budget} {n : Nat}

variable (out c) in
/-- A pass with a limit stages the first batches. -/
theorem batches_eq_take (hlimit : limited.limit = some n) (hfree : free.limit = none) (pass : Pass)
    (file : Path) (s : Session σ) :
    batches out c pass file limited s
      = (batches out c pass file free s).take (n - limited.used) := by
  unfold batches
  cases FilePlan.ofPath out c pass file s.outside with
  | error e => simp
  | ok found => exact Treated.staged_handled_eq_take hlimit hfree found.planned _ s

/-- A limit with something left behind a pass has left out no batch. -/
theorem batches_eq_of_allows (hlimit : limited.limit = some n) (hfree : free.limit = none)
    (pass : Pass) (file : Path) (s : Session σ)
    (h : limited.allows (countStaged out c pass file limited s) = true) :
    batches out c pass file limited s = batches out c pass file free s := by
  have htake := batches_eq_take out c hlimit hfree pass file s
  have hleft := Budget.allows_iff.mp h n hlimit
  rw [← length_batches, htake, List.length_take] at hleft
  rw [htake, List.take_of_length_le (by omega)]

/-- A pass that leaves something of the limit is the pass without a limit. -/
theorem same_of_allows (hfree : free.limit = none) (pass : Pass) (file : Path) (s : Session σ)
    (h : limited.allows (countStaged out c pass file limited s) = true) :
    (ofPath out c pass file limited s).result = (ofPath out c pass file free s).result ∧
      (ofPath out c pass file limited s).session = (ofPath out c pass file free s).session := by
  cases hplan : FilePlan.ofPath out c pass file s.outside with
  | error e => simp [ofPath, hplan]
  | ok found =>
    have hleft : (Treated.ofPlanned out c found.style found.source limited found.planned
        (.start file pass) s).left = [] := by
      by_contra hleft
      rw [← Ne, ← asked_lt_iff out c pass file limited s hplan] at hleft
      rw [allows_of_asked_lt out c pass file limited s hleft] at h
      cases h
    have hsame := Treated.ofPlanned_eq_of_left_eq_nil hfree found.planned _ s hleft
    obtain ⟨hresult, hsession⟩ := ofPlan_eq out c pass file found limited s rfl
    obtain ⟨hresult', hsession'⟩ := ofPlan_eq out c pass file found free s rfl
    rw [hsame] at hresult' hsession'
    rw [ofPath_of_plan hplan, ofPath_of_plan hplan, hresult, hsession, hresult', hsession']
    exact ⟨rfl, rfl⟩

/-- What the pass commits over a file that can be read, if the changes can be shown. -/
theorem committed_of_search {pass : Pass} {file : Path} {budget : Budget} {s : Session σ}
    {lang : Language} {source : Text} {matched : List Node} {edits : List Edit}
    (hlang : Language.ofPath? file = some lang)
    (hsource : Source.ofEntry file c.maxFileSize (out.find file s.outside) = .ok source)
    (hmatched : (pass.rule lang.style c.request).search lang source (out.parse lang source)
      = .ok matched)
    (hedits : (Treated.ofPlanned out c lang.style source budget
      (matched.filterMap (Planned.ofNode? lang.style pass source)) (.start file pass)
      s).staging.changes = ⟨edits⟩)
    (hsome : edits ≠ [])
    (hshown : ((⟨edits⟩ : Changeset).commit source).toOption.isSome = true) :
    committed out c pass file budget s = [(file, edits)] := by
  have hfile := file_staging out c ⟨lang.style, source,
    matched.filterMap (Planned.ofNode? lang.style pass source)⟩ pass file budget s
  have hempty : ¬ (⟨edits⟩ : Changeset).isEmpty = true := by
    rwa [Changeset.isEmpty, List.isEmpty_iff]
  unfold committed
  rw [plan_of_search out c pass file s.outside hlang hsource hmatched]
  dsimp only
  rw [Staging.committed, hedits, if_neg hempty]
  cases hcommit : (⟨edits⟩ : Changeset).commit source with
  | ok r => exact congrArg (fun f => [(f, edits)]) hfile
  | error e =>
    rw [hcommit] at hshown
    cases hshown

/-- A pass that commits something does not end the run. -/
theorem endsRun_of_committed {pass : Pass} {file : Path} {budget : Budget} {s : Session σ}
    (h : committed out c pass file budget s ≠ []) :
    (ofPath out c pass file budget s).endsRun = false := by
  unfold committed at h
  cases hplan : FilePlan.ofPath out c pass file s.outside with
  | error e =>
    rw [hplan] at h
    exact absurd rfl h
  | ok found =>
    rw [hplan] at h
    rw [ofPath_of_plan hplan, ← Bool.not_eq_true,
      endsRun_ofPlan_iff out c pass file found budget s rfl]
    intro hnoDiff
    dsimp only at h
    rw [Staging.committed, hnoDiff, ite_self] at h
    exact absurd rfl h

/-- The edits of a batch bring one comment into the file. -/
theorem exists_edits_of_mem_batches {pass : Pass} {file : Path} {budget : Budget} {s : Session σ}
    {batch : List Edit} (h : batch ∈ batches out c pass file budget s) :
    ∃ planned comment, batch = pass.edits planned comment := by
  unfold batches at h
  split at h
  · obtain ⟨planned, -, comment, hbatch⟩ := exists_of_mem_staged h
    exact ⟨planned, comment, hbatch⟩
  · cases h

/-- A pass that does not end the run charges all that it stages. -/
theorem used_ofPath_of_fits (hparse : ∀ lang source, (out.parse lang source).Fits source)
    (hwrites : ∀ file t s, (out.write file t s).1 = .ok ()) (pass : Pass) (file : Path)
    (budget : Budget) (s : Session σ)
    (hends : (ofPath out c pass file budget s).endsRun = false) :
    (ofPath out c pass file budget s).budget.used
      = budget.used + (batches out c pass file budget s).length := by
  obtain ⟨-, hok⟩ := ofPath_of_fits hparse hwrites pass file budget s hends
  cases hplan : FilePlan.ofPath out c pass file s.outside with
  | error e => simp [ofPath, batches, hplan]
  | ok found =>
    obtain ⟨r, hr⟩ := hok found hplan
    rw [((charges_ofPath out c pass file budget s).used_of_ok r hr).2, length_batches]

end FilePass

/-! ## Runs -/

def Visit.batches {σ : Type} (out : Outside σ) (c : Config) (v : Visit σ) :
    List (Path × List Edit) :=
  match v.fate with
  | .passed _ =>
    (FilePass.batches out c v.job.pass v.job.file v.before.budget v.before.session).map
      (Prod.mk v.job.file)
  | _ => []

namespace Progress

variable {σ : Type} {out : Outside σ} {c : Config} {n : Nat}

def batches (out : Outside σ) (c : Config) (failed : Option Path) (jobs : List Job)
    (p : Progress σ) : List (Path × List Edit) :=
  (visits out c failed jobs p).flatMap (Visit.batches out c)

section Batches

variable {failed : Option Path} {job : Job} {jobs : List Job} {p : Progress σ}

theorem batches_of_skipped (h : failed.any (Path.same job.file) = true) :
    batches out c failed (job :: jobs) p = batches out c failed jobs p := by
  rw [batches, visits, if_pos h]
  rfl

/-- Nothing is staged when the budget is used up. -/
theorem batches_of_isExhausted (h : p.budget.isExhausted = true) :
    batches out c failed jobs p = [] := by
  induction jobs with
  | nil => rfl
  | cons job jobs ih =>
    by_cases hskip : failed.any (Path.same job.file) = true
    · rw [batches_of_skipped hskip, ih]
    · rw [batches, visits, if_neg hskip, if_pos h, List.flatMap_map]
      exact List.flatMap_eq_nil_iff.mpr fun _ _ => rfl

theorem batches_of_passed {done : FilePass σ} (hskip : ¬ failed.any (Path.same job.file) = true)
    (hleft : ¬ p.budget.isExhausted = true)
    (hdone : FilePass.ofPath out c job.pass job.file p.budget p.session = done) :
    batches out c failed (job :: jobs) p
      = (FilePass.batches out c job.pass job.file p.budget p.session).map (Prod.mk job.file)
        ++ if done.endsRun then [] else
          batches out c (match done.result with | .ok _ => failed | .error _ => some job.file) jobs
            (p.take job.file done) := by
  rw [batches, visits, if_neg hskip, if_neg hleft, hdone]
  dsimp only
  split
  · rw [List.flatMap_singleton, List.append_nil]
    rfl
  · rw [List.flatMap_cons]
    rfl

/-- A pass that takes all that is left of the budget is the last one that stages something. -/
theorem batches_of_full (hparse : ∀ lang source, (out.parse lang source).Fits source)
    (hwrites : ∀ file t s, (out.write file t s).1 = .ok ())
    (hskip : ¬ failed.any (Path.same job.file) = true) (hleft : ¬ p.budget.isExhausted = true)
    (hfull : p.budget.allows
      (FilePass.countStaged out c job.pass job.file p.budget p.session) = false) :
    batches out c failed (job :: jobs) p
      = (FilePass.batches out c job.pass job.file p.budget p.session).map (Prod.mk job.file) := by
  rw [batches_of_passed hskip hleft rfl]
  refine List.append_right_eq_self.mpr ?_
  split
  · rfl
  · next hends =>
    refine batches_of_isExhausted (Budget.isExhausted_iff.mpr ?_)
    have hused := FilePass.used_ofPath_of_fits hparse hwrites job.pass job.file p.budget p.session
      (Bool.eq_false_iff.mpr hends)
    rw [FilePass.length_batches] at hused
    have hlimit := (FilePass.charges_ofPath out c job.pass job.file p.budget p.session).limit
    obtain ⟨n, hn, hle⟩ := Budget.allows_eq_false_iff.mp hfull
    exact ⟨n, hlimit.trans hn, hle.trans (Nat.le_of_eq hused.symm)⟩

/-- Where the limit ends in a pass, a run with it stages the first batches of the run without it. -/
theorem batches_eq_take_of_full {q : Progress σ}
    (hparse : ∀ lang source, (out.parse lang source).Fits source)
    (hwrites : ∀ file t s, (out.write file t s).1 = .ok ()) (hlimit : p.budget.limit = some n)
    (hfree : q.budget.limit = none) (hsession : p.session = q.session)
    (hskip : ¬ failed.any (Path.same job.file) = true) (hleft : ¬ p.budget.isExhausted = true)
    (hfull : p.budget.allows
      (FilePass.countStaged out c job.pass job.file p.budget p.session) = false) :
    batches out c failed (job :: jobs) p
      = (batches out c failed (job :: jobs) q).take (n - p.budget.used) := by
  have htake := FilePass.batches_eq_take out c hlimit hfree job.pass job.file p.session
  have hrest : n - p.budget.used
      ≤ (FilePass.batches out c job.pass job.file q.budget p.session).length := by
    obtain ⟨m, hm, hle⟩ := Budget.allows_eq_false_iff.mp hfull
    obtain rfl := Option.some.inj (hlimit.symm.trans hm)
    rw [← FilePass.length_batches, htake, List.length_take] at hle
    omega
  rw [batches_of_full hparse hwrites hskip hleft hfull, htake,
    batches_of_passed hskip (Budget.not_isExhausted_of_limit_eq_none hfree) rfl, ← hsession,
    List.take_append, List.length_map, Nat.sub_eq_zero_of_le hrest, List.take_zero,
    List.append_nil, List.map_take]

end Batches

/-- A run with a limit stages the first batches of the run without one. -/
theorem batches_eq_take (hparse : ∀ lang source, (out.parse lang source).Fits source)
    (hwrites : ∀ file t s, (out.write file t s).1 = .ok ()) (failed : Option Path)
    (jobs : List Job) {p q : Progress σ} (hlimit : p.budget.limit = some n)
    (hused : p.budget.used ≤ n) (hfree : q.budget.limit = none) (hsession : p.session = q.session) :
    batches out c failed jobs p = (batches out c failed jobs q).take (n - p.budget.used) := by
  induction jobs generalizing failed p q with
  | nil => exact List.take_nil.symm
  | cons job jobs ih =>
    by_cases hskip : failed.any (Path.same job.file) = true
    · rw [batches_of_skipped hskip, batches_of_skipped hskip]
      exact ih failed hlimit hused hfree hsession
    by_cases hstop : p.budget.isExhausted = true
    · obtain ⟨m, hm, hle⟩ := Budget.isExhausted_iff.mp hstop
      obtain rfl := Option.some.inj (hlimit.symm.trans hm)
      rw [batches_of_isExhausted hstop, Nat.sub_eq_zero_of_le hle, List.take_zero]
    cases hallows : p.budget.allows
        (FilePass.countStaged out c job.pass job.file p.budget p.session) with
    | false =>
      exact batches_eq_take_of_full hparse hwrites hlimit hfree hsession hskip hstop hallows
    | true =>
      -- both runs make the same pass
      have hsame := FilePass.batches_eq_of_allows hlimit hfree job.pass job.file p.session hallows
      obtain ⟨hresult, hnext⟩ :=
        FilePass.same_of_allows hfree job.pass job.file p.session hallows
      have hends : (FilePass.ofPath out c job.pass job.file q.budget p.session).endsRun
          = (FilePass.ofPath out c job.pass job.file p.budget p.session).endsRun := by
        rw [FilePass.endsRun, FilePass.endsRun, hresult]
      have hcount := FilePass.used_add_countStaged_le out c job.pass job.file p.budget p.session
        hlimit hused
      rw [← FilePass.length_batches] at hcount
      rw [batches_of_passed hskip hstop rfl,
        batches_of_passed hskip (Budget.not_isExhausted_of_limit_eq_none hfree) rfl, ← hsession,
        ← hsame, List.take_append, List.length_map, ← List.map_take,
        List.take_of_length_le (by omega), hends, ← hresult]
      refine congrArg _ ?_
      split
      · exact List.take_nil.symm
      · next hgoeson =>
        have hcharged := FilePass.used_ofPath_of_fits (c := c) hparse hwrites job.pass job.file
          p.budget p.session (Bool.eq_false_iff.mpr hgoeson)
        rw [Nat.sub_sub, ← hcharged]
        refine ih _ ?_ ?_ ?_ hnext
        · exact (FilePass.charges_ofPath out c job.pass job.file _ _).limit.trans hlimit
        · exact hcharged ▸ hcount
        · exact (FilePass.charges_ofPath out c job.pass job.file _ _).limit.trans hfree

/-! ## What is committed -/

section Committed

variable {failed : Option Path} {jobs : List Job} {p : Progress σ}

/-- No pass of a run that does not break off ends the run. -/
theorem endsRun_of_mem_visits (hwhole : (work out c failed jobs p).isBroken = false) {v : Visit σ}
    (hv : v ∈ visits out c failed jobs p) {done : FilePass σ} (hdone : v.fate = .passed done) :
    done.endsRun = false := by
  have hfate := fate_of_mem_visits hv
  rw [hdone] at hfate
  refine Bool.eq_false_iff.mpr fun hends => ?_
  exact Bool.false_ne_true (hwhole.symm.trans (hfate.2 hends))

/-- A run that does not break off commits what it stages. -/
theorem editsOf_committed (hparse : ∀ lang source, (out.parse lang source).Fits source)
    (hwrites : ∀ file t s, (out.write file t s).1 = .ok ())
    (hwhole : (work out c failed jobs p).isBroken = false) :
    editsOf ((visits out c failed jobs p).flatMap Visit.committed)
      = editsOf (batches out c failed jobs p) := by
  have hvisit : ∀ v ∈ visits out c failed jobs p,
      editsOf v.committed = editsOf (v.batches out c) := by
    intro v hv
    rw [Visit.committed, Visit.events, Visit.batches]
    cases hfate : v.fate with
    | passed done =>
      have hends := endsRun_of_mem_visits hwhole hv hfate
      obtain rfl := eq_ofPath_of_mem_visits hv hfate
      dsimp only
      rw [(FilePass.adds_ofPath out c _ _ _ _).committed]
      exact (FilePass.ofPath_of_fits hparse hwrites _ _ _ _ hends).1
    | skipped => rfl
    | stopped => rfl
  rw [batches, editsOf, editsOf, List.flatMap_assoc, List.flatMap_assoc, List.flatMap_def,
    List.flatMap_def]
  exact congrArg List.flatten (List.map_congr_left hvisit)

end Committed

/-! ## What a batch is -/

theorem batches_withLimit (out : Outside σ) (c : Config) (limit : Option Nat) :
    batches out (c.withLimit limit) = batches out c := by
  funext failed jobs p
  unfold batches
  rw [visits_withLimit]
  refine congrArg (List.flatMap · _) (funext fun v => ?_)
  unfold Visit.batches
  rw [FilePass.batches_withLimit]

/-- The edits of a batch bring one comment into one file. -/
theorem exists_of_mem_batches {failed : Option Path} {jobs : List Job} {p : Progress σ}
    {batch : Path × List Edit} (h : batch ∈ batches out c failed jobs p) :
    ∃ job ∈ jobs, ∃ planned comment, batch = (job.file, job.pass.edits planned comment) := by
  obtain ⟨v, hv, hmem⟩ := List.mem_flatMap.mp h
  unfold Visit.batches at hmem
  split at hmem
  · obtain ⟨edits, hedits, rfl⟩ := List.mem_map.mp hmem
    obtain ⟨planned, comment, rfl⟩ := FilePass.exists_edits_of_mem_batches hedits
    exact ⟨v.job, job_mem_of_mem_visits hv, planned, comment, rfl⟩
  · cases hmem

/-- In a run that only adds comments a batch is one edit. -/
theorem length_of_mem_batches (hupdate : c.update = false) {files : List Path}
    {failed : Option Path} {p : Progress σ} {batch : Path × List Edit}
    (h : batch ∈ batches out c failed (c.jobs files) p) : batch.2.length = 1 := by
  obtain ⟨job, hjob, planned, comment, rfl⟩ := exists_of_mem_batches h
  obtain ⟨file, -, hmem⟩ := List.mem_flatMap.mp hjob
  obtain ⟨pass, hpass, rfl⟩ := List.mem_map.mp hmem
  obtain rfl : pass = .missing := by
    simp only [Config.passes, hupdate] at hpass
    exact (by simpa using hpass : c.missing = true ∧ pass = .missing).2
  rfl

end Progress

/-- The edits that a run commits, with the files, in order. -/
def committedBy {σ : Type} : Except RunError (Run σ) → List (Path × Edit)
  | .ok r => editsOf (r.session.journal.filterMap Event.commit?)
  | .error _ => []

section Run

variable {σ : Type} (out : Outside σ) (c : Config) (files : List Path) (s : σ)

variable {out c files s} in
/-- A run that does not break off commits what it stages. -/
theorem committedBy_run (hparse : ∀ lang source, (out.parse lang source).Fits source)
    (hwrites : ∀ file t s, (out.write file t s).1 = .ok ())
    (hwhole : ∀ r, run out c files s = .ok r → r.isBroken = false) :
    committedBy (run out c files s)
      = editsOf (Progress.batches out c none (c.jobs files) (.start c s)) := by
  cases hr : run out c files s with
  | ok r =>
    have hrun := run_eq_ok hr
    have hbroken := hwhole r hr
    rw [hrun] at hbroken
    have hjournal := Progress.journal_work out c none (c.jobs files) (.start c s)
    rw [← Progress.editsOf_committed hparse hwrites hbroken, committedBy, hrun, hjournal,
      List.filterMap_append, List.filterMap_flatMap]
    rfl
  | error e =>
    have hjobs : c.jobs files = [] := by
      unfold run at hr
      split at hr
      · next hfiles => rw [List.isEmpty_iff.mp hfiles, Config.jobs, List.flatMap_nil]
      · split at hr
        · cases hr
        · next hinvalid =>
          have hpasses : c.passes = [] := by
            simp only [Config.isValid, Bool.or_eq_true, not_or, Bool.not_eq_true] at hinvalid
            simp [Config.passes, hinvalid]
          rw [Config.jobs, hpasses]
          exact List.flatMap_eq_nil_iff.mpr fun _ _ => rfl
    rw [hjobs]
    rfl

variable {out c files s} in
/-- A run over one job commits what its pass commits. -/
theorem committedBy_run_singleton {job : Job} (hfiles : files ≠ []) (hjobs : c.jobs files = [job])
    (hleft : (Budget.fresh c.maxEdits).isExhausted = false) (hvalid : c.isValid = true) :
    committedBy (run out c files s)
      = editsOf (FilePass.committed out c job.pass job.file (.fresh c.maxEdits) (.start s)) := by
  have hrun : ∃ r, run out c files s = .ok r := by
    unfold run
    rw [if_neg (by simpa using hfiles), if_pos hvalid]
    exact ⟨_, rfl⟩
  obtain ⟨r, hr⟩ := hrun
  have hjournal := Progress.journal_work out c none [job] (.start c s)
  rw [Progress.visits_singleton hleft, List.flatMap_singleton] at hjournal
  have hcommitted := (FilePass.adds_ofPath out c job.pass job.file (.fresh c.maxEdits)
    (.start s)).committed
  rw [hr, committedBy, run_eq_ok hr, hjobs, hjournal, List.filterMap_append]
  exact congrArg editsOf hcommitted

variable {out c files s} in
/-- A run over one job that commits something does not break off. -/
theorem not_isBroken_of_singleton {job : Job} (hjobs : c.jobs files = [job])
    (hleft : (Budget.fresh c.maxEdits).isExhausted = false)
    (hcommitted : FilePass.committed out c job.pass job.file (.fresh c.maxEdits) (.start s) ≠ [])
    {r : Run σ} (hr : run out c files s = .ok r) : r.isBroken = false := by
  rw [run_eq_ok hr, hjobs]
  dsimp only
  rw [Progress.work_singleton hleft]
  exact FilePass.endsRun_of_committed hcommitted

/-- Two runs that differ in the limit only, over a parser whose trees fit the source and files that
can be written, and that do not break off: the run with the limit commits, in the same order and
for the same files, the edits for the first declarations for which the run without it commits edits,
as many as the limit allows. A declaration takes one edit in a pass that adds comments, and what is
committed with the limit is then the beginning of what is committed without it. -/
theorem run_commits_first_batches (n : Nat)
    (hparse : ∀ lang source, (out.parse lang source).Fits source)
    (hwrites : ∀ file t s, (out.write file t s).1 = .ok ())
    (hlimited : ∀ r, run out (c.withLimit (some n)) files s = .ok r → r.isBroken = false)
    (hfree : ∀ r, run out (c.withLimit none) files s = .ok r → r.isBroken = false) :
    let limited := committedBy (run out (c.withLimit (some n)) files s)
    let free := committedBy (run out (c.withLimit none) files s)
    let batches := Progress.batches out c none (c.jobs files) (.start (c.withLimit none) s)
    free = editsOf batches ∧ limited = editsOf (batches.take n) ∧
      (∀ batch ∈ batches, ∃ job ∈ c.jobs files, ∃ planned comment,
        batch = (job.file, job.pass.edits planned comment)) ∧
      ((∀ batch ∈ batches, batch.2.length = 1) → limited = free.take n) ∧
      (c.update = false → ∀ batch ∈ batches, batch.2.length = 1) := by
  intro limited free batches
  have hcommitted : free = editsOf batches := by
    have h := committedBy_run hparse hwrites hfree
    rwa [Progress.batches_withLimit] at h
  have hfirst : limited = editsOf (batches.take n) := by
    have h := committedBy_run hparse hwrites hlimited
    have htake := Progress.batches_eq_take (c := c) hparse hwrites none (c.jobs files)
      (p := .start (c.withLimit (some n)) s) (q := .start (c.withLimit none) s) (n := n) rfl
      (Nat.zero_le n) rfl rfl
    rw [Progress.batches_withLimit] at h
    exact h.trans (congrArg editsOf htake)
  refine ⟨hcommitted, hfirst, fun batch hbatch => Progress.exists_of_mem_batches hbatch,
    fun hone => ?_, fun hupdate batch hbatch => Progress.length_of_mem_batches hupdate hbatch⟩
  rw [hfirst, hcommitted, editsOf_take_of_length_eq_one hone]

end Run

/-! ## Two classes, and a class behind two lines -/

namespace ClassFile

theorem fits_leaf (kind : String) (source : Text) :
    (Tree.node kind true ⟨0, Text.byteSize source⟩ []).Fits source := by
  have hwalk : ∀ n ∈ (Node.root (Tree.node kind true ⟨0, Text.byteSize source⟩ [])).walk,
      n = .root (.node kind true ⟨0, Text.byteSize source⟩ []) :=
    fun n hn => List.mem_singleton.mp hn
  refine ⟨⟨fun n hn c hc => ?_, fun n hn => ?_⟩, fun n hn => ?_⟩
  · rw [hwalk n hn] at hc
    cases hc
  · rw [hwalk n hn]
    exact List.Pairwise.nil
  · rw [hwalk n hn]
    exact ByteRange.fits_iff.mpr ⟨Nat.zero_le _, Text.isBoundary_zero _,
      Text.isBoundary_iff.mpr ⟨source, [], (List.append_nil _).symm, rfl⟩⟩

theorem fits_pairOutside (lang : Language) (source : Text) :
    (pairOutside.parse lang source).Fits source := by
  change (if source = pair then pairTree else _ : Tree).Fits source
  split
  · next h => exact h ▸ ⟨⟨by decide, by decide⟩, by decide⟩
  · exact fits_leaf _ _

def firstEdit : Edit := ⟨⟨0, 0⟩, "/// c\n".toList⟩

def secondEdit : Edit := ⟨⟨11, 11⟩, "/// c\n".toList⟩

/-- With a limit of one the comment for the first class is committed, else both. -/
theorem committed_pair :
    FilePass.committed pairOutside (config.withLimit (some 1)) .missing path (.fresh (some 1))
        (.start pair) = [(path, [firstEdit])] ∧
      FilePass.committed pairOutside (config.withLimit none) .missing path (.fresh none)
        (.start pair) = [(path, [firstEdit, secondEdit])] := by
  have hsource : Source.ofEntry path config.maxFileSize (pairOutside.find path pair)
      = .ok pair := by
    rfl
  have hshownOne : (Diff.unified? pair "/// c\nclass A {}\nclass B {}\n".toList).isSome = true := by
    cbv
  have hshownBoth : (Diff.unified? pair "/// c\nclass A {}\n/// c\nclass B {}\n".toList).isSome
      = true := by
    cbv
  have hone : ((⟨[firstEdit]⟩ : Changeset).commit pair).toOption.isSome = true :=
    Changeset.isSome_commit_of_inOrder (by decide) (by decide) rfl hshownOne
  have hboth : ((⟨[firstEdit, secondEdit]⟩ : Changeset).commit pair).toOption.isSome = true :=
    Changeset.isSome_commit_of_inOrder (by decide) (by decide) rfl hshownBoth
  exact ⟨FilePass.committed_of_search ofPath?_path hsource search_pair rfl (by simp) hone,
    FilePass.committed_of_search ofPath?_path hsource search_pair rfl (by simp) hboth⟩

/-- Comments that are there are renewed, and none are added. -/
def renewing : Config := { config with missing := false, update := true }

/-- The renewal of two lines of comment are two edits, whatever the limit. -/
theorem committed_twoLines :
    FilePass.committed (twoLines.outside "/// c".toList) (renewing.withLimit (some 1)) .update path
        (.fresh (some 1)) (.start twoLines.source)
      = [(path, [⟨⟨0, 5⟩, "/// c".toList⟩, ⟨⟨5, 11⟩, []⟩])] := by
  have hsource : Source.ofEntry path renewing.maxFileSize
      ((twoLines.outside "/// c".toList).find path twoLines.source) = .ok twoLines.source := by
    rfl
  have hmatched : (Pass.update.rule .slashes renewing.request).search .csharp twoLines.source
      twoLines.tree = .ok [twoLines.node] := search_of_filter rfl
  have hdiff : (Diff.unified? twoLines.source "/// c\nclass A {}\n".toList).isSome = true := by cbv
  have hshown : ((⟨[⟨⟨0, 5⟩, "/// c".toList⟩, ⟨⟨5, 11⟩, []⟩]⟩ : Changeset).commit
      twoLines.source).toOption.isSome = true :=
    Changeset.isSome_commit_of_inOrder (by decide) (by decide) rfl hdiff
  exact FilePass.committed_of_search ofPath?_path hsource hmatched rfl (by simp) hshown

end ClassFile

open ClassFile

/-- Of the comments for two classes a limit of one lets the first one through. -/
theorem run_commits_first_batches_of_pair :
    committedBy (run pairOutside (config.withLimit (some 1)) [path] pair)
        = (committedBy (run pairOutside (config.withLimit none) [path] pair)).take 1 ∧
      committedBy (run pairOutside (config.withLimit none) [path] pair)
        = [(path, firstEdit), (path, secondEdit)] := by
  obtain ⟨hlimited, hfree⟩ := committed_pair
  have hwrites : ∀ file t s, (pairOutside.write file t s).1 = .ok () := fun _ _ _ => rfl
  obtain ⟨-, -, -, hfirst, hone⟩ := run_commits_first_batches pairOutside config [path] pair 1
    fits_pairOutside hwrites
    (fun r hr => not_isBroken_of_singleton rfl rfl
      (hlimited.trans_ne (List.cons_ne_nil _ _)) hr)
    (fun r hr => not_isBroken_of_singleton rfl rfl
      (hfree.trans_ne (List.cons_ne_nil _ _)) hr)
  refine ⟨hfirst (hone rfl), ?_⟩
  rw [committedBy_run_singleton (by simp) rfl rfl rfl]
  exact congrArg editsOf hfree

/-- A run that may make one edit commits two if the comment that it renews has two lines, so that
what it commits is not the first edit of the run without a limit. -/
theorem run_commits_whole_batch :
    renewing.passes = [.update] ∧
      (∀ file t s, ((twoLines.outside "/// c".toList).write file t s).1 = .ok ()) ∧
      (∀ request s s', ((twoLines.outside "/// c".toList).models.draft request s).1
        = ((twoLines.outside "/// c".toList).models.draft request s').1) ∧
      committedBy (run (twoLines.outside "/// c".toList) (renewing.withLimit (some 1)) [path]
          twoLines.source)
        ≠ (committedBy (run (twoLines.outside "/// c".toList) (renewing.withLimit none) [path]
          twoLines.source)).take 1 := by
  have hlimited : committedBy (run (twoLines.outside "/// c".toList) (renewing.withLimit (some 1))
      [path] twoLines.source) = [(path, ⟨⟨0, 5⟩, "/// c".toList⟩), (path, ⟨⟨5, 11⟩, []⟩)] := by
    rw [committedBy_run_singleton (by simp) rfl rfl rfl]
    exact congrArg editsOf committed_twoLines
  refine ⟨rfl, fun _ _ _ => rfl, fun _ _ _ => rfl, fun h => ?_⟩
  -- two edits are more than the first one
  have hlength := congrArg List.length (hlimited.symm.trans h)
  have hle := List.length_take_le 1 (committedBy (run (twoLines.outside "/// c".toList)
    (renewing.withLimit none) [path] twoLines.source))
  rw [← hlength] at hle
  exact absurd hle (by decide)

end DocComments
