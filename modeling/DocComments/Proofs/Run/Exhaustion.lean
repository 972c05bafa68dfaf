import DocComments.Proofs.Run.Missing
import DocComments.Proofs.Run.Visit

/-!
# Runs that miss declarations

A run notes that declarations were missed when the budget ends inside of a pass, and when it is used
up and one of the jobs that are left has something to treat. `run_notes_missed` says that this is
the case exactly if some planned declaration was never sent to a model, apart from those of files
that failed before. Where declarations are missed the budget is used up, unless the pass that missed
them failed: what it had staged is then not charged, and the note stays
(`run_exhausted_or_failed`).
-/

set_option autoImplicit false

namespace DocComments

namespace Progress

variable {σ : Type} {out : Outside σ} {c : Config} {failed : Option Path} {jobs : List Job}
  {p : Progress σ} {v : Visit σ} {n : Nat}

/-! ## States and visits -/

/-- A run is in one of its states when it comes to a job, and again after the pass. -/
theorem mem_states_of_mem_visits (hv : v ∈ visits out c failed jobs p) :
    v.before ∈ states out c failed jobs p ∧
      ∀ done, v.fate = .passed done →
        v.before.take v.job.file done ∈ states out c failed jobs p := by
  have hself : ∀ {failed : Option Path} {jobs : List Job} {p : Progress σ},
      p ∈ states out c failed jobs p :=
    fun {failed jobs p} => List.mem_of_mem_head? (head?_states out c failed jobs p)
  induction jobs generalizing failed p with
  | nil => cases hv
  | cons job jobs ih =>
    unfold visits at hv
    unfold states
    split at hv
    · next hskip =>
      rw [if_pos hskip]
      rcases List.mem_cons.mp hv with rfl | hv
      · exact ⟨hself, fun done hdone => by cases hdone⟩
      · exact ih hv
    · next hskip =>
      rw [if_neg hskip]
      split at hv
      · next hstop =>
        rw [if_pos hstop]
        obtain ⟨other, -, rfl⟩ := List.mem_map.mp hv
        exact ⟨List.mem_cons_self, fun done hdone => by cases hdone⟩
      · next hstop =>
        rw [if_neg hstop]
        dsimp only at hv ⊢
        split at hv
        · next hends =>
          rw [if_pos hends, List.mem_singleton.mp hv]
          refine ⟨List.mem_cons_self, fun done hdone => ?_⟩
          obtain rfl := Fate.passed.inj hdone
          exact List.mem_cons_of_mem _ List.mem_cons_self
        · next hends =>
          rw [if_neg hends]
          rcases List.mem_cons.mp hv with rfl | hv
          · refine ⟨List.mem_cons_self, fun done hdone => ?_⟩
            obtain rfl := Fate.passed.inj hdone
            exact List.mem_cons_of_mem _ hself
          · obtain ⟨hbefore, hdone⟩ := ih hv
            exact ⟨List.mem_cons_of_mem _ hbefore,
              fun done h => List.mem_cons_of_mem _ (hdone done h)⟩

/-- A run stops in front of a job when its budget is used up. -/
theorem isExhausted_of_stopped (hv : v ∈ visits out c failed jobs p) (hfate : v.fate = .stopped) :
    v.before.budget.isExhausted = true := by
  have hstop := fate_of_mem_visits hv
  rwa [hfate] at hstop

/-- What is charged in a state is charged in the end. -/
theorem used_le_work {q : Progress σ} (hq : q ∈ states out c failed jobs p) :
    q.budget.used ≤ (work out c failed jobs p).budget.used := by
  have hchain := isChain_states out c failed jobs p List.suffix_rfl
  obtain ⟨front, hfront⟩ := List.getLast?_eq_some_iff.mp (getLast?_states out c failed jobs p)
  have hpairs := pairwise_used_of_isChain hchain
  rw [hfront] at hq hpairs
  rcases List.mem_append.mp hq with hq | hq
  · exact (List.pairwise_append.mp hpairs).2.2 q hq _ List.mem_cons_self
  · rw [List.mem_singleton.mp hq]

variable (out c failed jobs) in
theorem withinBudget_work (hp : WithinBudget n p) :
    WithinBudget n (work out c failed jobs p) := by
  refine withinBudget_of_isChain (isChain_states out c failed jobs p List.suffix_rfl) ?_ _
    (List.mem_of_getLast? (getLast?_states out c failed jobs p))
  intro q hq
  rw [head?_states] at hq
  exact Option.some.inj hq ▸ hp

/-- What is charged is the number of edits that is reported. -/
theorem WithinBudget.totalEdits_eq (hp : WithinBudget n p) :
    p.report.totalEdits = p.budget.used := by
  rw [hp.used_eq, RunReport.totalEdits, List.sum_eq_foldr]
  rfl

/-- Where declarations are missed without a failure the budget is used up in the end. -/
theorem used_or_failed_of_misses (hp : WithinBudget n p) (hv : v ∈ visits out c failed jobs p)
    (hskipped : v.isSkipped = false) (hmisses : v.Misses out c) :
    (work out c failed jobs p).budget.used = n ∨ v.failed = true ∧
      v.before.budget.used
          + FilePass.countStaged out c v.job.pass v.job.file v.before.budget v.before.session
        = n := by
  have hwithin : ∀ q ∈ states out c failed jobs p, WithinBudget n q := by
    refine withinBudget_of_isChain (isChain_states out c failed jobs p List.suffix_rfl) ?_
    intro q hq
    rw [head?_states] at hq
    exact Option.some.inj hq ▸ hp
  have hlast := withinBudget_work out c failed jobs hp
  obtain ⟨hbefore, hafter⟩ := mem_states_of_mem_visits hv
  have hstart := hwithin _ hbefore
  cases hfate : v.fate with
  | skipped =>
    rw [Visit.isSkipped, hfate] at hskipped
    cases hskipped
  | stopped =>
    obtain ⟨m, hlimit, hused⟩ := Budget.isExhausted_iff.mp (isExhausted_of_stopped hv hfate)
    obtain rfl := Option.some.inj (hstart.limit.symm.trans hlimit)
    exact .inl (Nat.le_antisymm hlast.used_le (hused.trans (used_le_work hbefore)))
  | passed done =>
    obtain rfl := eq_ofPath_of_mem_visits hv hfate
    have hmissed : (FilePass.asked out c v.job.pass v.job.file v.before.budget
        v.before.session).length < (v.wanted out c).length := by
      rw [← (FilePass.adds_ofPath out c _ _ _ _).asked]
      rw [Visit.Misses, Visit.asked, Visit.events, hfate] at hmisses
      exact hmisses
    -- what is staged takes all that is left
    have hfull : v.before.budget.used + FilePass.countStaged out c v.job.pass v.job.file
        v.before.budget v.before.session = n := by
      refine Nat.le_antisymm (FilePass.used_add_countStaged_le out c _ _ _ _ hstart.limit
        hstart.used_le) ?_
      obtain ⟨m, hlimit, hle⟩ :=
        Budget.allows_eq_false_iff.mp (FilePass.allows_of_asked_lt out c _ _ _ _ hmissed)
      rwa [Option.some.inj (hstart.limit.symm.trans hlimit)]
    cases hresult : (FilePass.ofPath out c v.job.pass v.job.file v.before.budget
        v.before.session).result with
    | error e =>
      refine .inr ⟨?_, hfull⟩
      rw [Visit.failed, hfate]
      simp [hresult, Except.toBool]
    | ok r =>
      have hcharged := ((FilePass.charges_ofPath out c v.job.pass v.job.file v.before.budget
        v.before.session).used_of_ok r hresult).2
      have hle := used_le_work (hafter _ hfate)
      rw [show (v.before.take v.job.file _).budget.used = _ from hcharged, hfull] at hle
      exact .inl (Nat.le_antisymm hlast.used_le hle)

end Progress

/-! ## Files that cannot be written -/

/-- What is staged comes to nothing if the file cannot be written. -/
theorem Staging.commit_of_unwritten {σ : Type} {out : Outside σ} {c : Config} {source : Text}
    {w : Staging} {s : Session σ} {r : Commit} {e : FileError}
    (h : w.changes.commit source = .ok r) (hmodified : r.modified ≠ source)
    (hdryRun : c.dryRun = false)
    (hwrite : (out.write w.report.file r.modified s.outside).1 = .error e) :
    (w.commit out c source s).1 = .error (.unwritten w.report.file e) := by
  have hfirst : ((s.note (.committed w.report.file w.changes.edits)).write out w.report.file
      r.modified).1 = .error e := hwrite
  rw [commit_of_changed h hmodified hdryRun]
  dsimp only
  rw [hfirst]
  rfl

/-- A pass that comes to nothing charges nothing, and keeps the note that declarations were left
out. -/
theorem FilePass.budget_ofPlan_of_error {σ : Type} (out : Outside σ) (c : Config) (pass : Pass)
    (file : Path) (found : FilePlan) (budget : Budget) (s : Session σ) {treated : Treated σ}
    {e : PassError}
    (h : Treated.ofPlanned out c found.style found.source budget found.planned (.start file pass) s
      = treated)
    (hcommit : (treated.staging.commit out c found.source treated.session).1 = .error e) :
    ofPlan out c pass file found budget s = ⟨.error e,
      if treated.left.isEmpty then budget else budget.markHit,
      (treated.staging.commit out c found.source treated.session).2⟩ := by
  simp only [ofPlan, h]
  rcases hresult : treated.staging.commit out c found.source treated.session with ⟨result, s'⟩
  rw [hresult] at hcommit
  obtain rfl : result = .error e := hcommit
  rfl

/-! ## Two classes without comments -/

namespace ClassFile

def pair : Text := "class A {}\nclass B {}\n".toList

def pairTree : Tree :=
  .node "compilation_unit" true ⟨0, 22⟩ [classTree ⟨pair, [], 0⟩, classTree ⟨pair, [], 11⟩]

/-- The two classes, a model that always drafts the same line, and a file system that finds them
under every path. Nothing is made of other texts. -/
def pairOutside : Outside Text :=
  { outside ⟨pair, [], 0⟩ "/// c".toList with
    parse := fun _ source =>
      if source = pair then pairTree
      else .node "compilation_unit" true ⟨0, Text.byteSize source⟩ [] }

/-- The same, but nothing can be written: the directory of the file is gone. -/
def sealed : Outside Text := { pairOutside with write := fun _ _ t => (.error .notFound, t) }

/-- Classes only, no judge, and one edit at most. -/
def oneEdit : Config := { config with maxEdits := some 1 }

def pairPlan : FilePlan :=
  ⟨.slashes, pair, [.child (.root pairTree) [] (classTree ⟨pair, [], 0⟩),
    .child (.root pairTree) [classTree ⟨pair, [], 0⟩] (classTree ⟨pair, [], 11⟩)].filterMap
      (Planned.ofNode? .slashes .missing pair)⟩

theorem search_pair : (Pass.missing.rule .slashes config.request).search .csharp pair pairTree
    = .ok [.child (.root pairTree) [] (classTree ⟨pair, [], 0⟩),
      .child (.root pairTree) [classTree ⟨pair, [], 0⟩] (classTree ⟨pair, [], 11⟩)] :=
  search_bare_of_filter rfl

/-- The pass over the file that cannot be written is cut short, and fails. -/
theorem ofPath_sealed :
    (FilePass.ofPath sealed oneEdit .missing path (.fresh (some 1)) (.start pair)).result
        = .error (.unwritten path .notFound) ∧
      (FilePass.ofPath sealed oneEdit .missing path (.fresh (some 1)) (.start pair)).budget
        = ⟨some 1, 0, true⟩ := by
  have hsource : Source.ofEntry path oneEdit.maxFileSize (sealed.find path pair) = .ok pair := by
    rfl
  have hplan : FilePass.ofPath sealed oneEdit .missing path (.fresh (some 1)) (.start pair)
      = FilePass.ofPlan sealed oneEdit .missing path pairPlan (.fresh (some 1)) (.start pair) :=
    FilePass.ofPath_of_search sealed oneEdit .missing path (.fresh (some 1)) (.start pair)
      ofPath?_path hsource search_pair
  generalize htreated : Treated.ofPlanned sealed oneEdit .slashes pair (.fresh (some 1))
    pairPlan.planned (.start path .missing) (.start pair) = treated
  have hchanges : treated.staging.changes = ⟨[⟨⟨0, 0⟩, "/// c\n".toList⟩]⟩ := by
    rw [← htreated]
    rfl
  have hfile : treated.staging.report.file = path := by
    rw [← htreated]
    rfl
  have hleft : treated.left.isEmpty = false := by
    rw [← htreated]
    rfl
  have hshown : (Diff.unified? pair "/// c\nclass A {}\nclass B {}\n".toList).isSome = true := by
    cbv
  obtain ⟨r, hcommit, hrmodified⟩ : ∃ r, treated.staging.changes.commit pair = .ok r ∧
      r.modified = "/// c\nclass A {}\nclass B {}\n".toList := by
    rw [hchanges]
    exact Changeset.exists_commit_of_inOrder (by decide) (by decide) rfl hshown
  have hfailed : (treated.staging.commit sealed oneEdit pair treated.session).1
      = .error (.unwritten treated.staging.report.file .notFound) :=
    Staging.commit_of_unwritten hcommit (by rw [hrmodified]; decide) rfl rfl
  rw [hfile] at hfailed
  rw [hplan, FilePass.budget_ofPlan_of_error sealed oneEdit .missing path pairPlan (.fresh (some 1))
    (.start pair) htreated hfailed, hleft]
  exact ⟨rfl, rfl⟩

/-- The run over the file that cannot be written reports its budget as exhausted, and no edits. -/
theorem exists_run_sealed : ∃ r, run sealed oneEdit [path] pair = .ok r ∧
    r.report.budgetExhausted = true ∧ r.report.totalEdits = 0 := by
  obtain ⟨hresult, hbudget⟩ := ofPath_sealed
  have hwork : Progress.work sealed oneEdit none [⟨path, .missing⟩] (.start oneEdit pair)
      = (Progress.start oneEdit pair).take path (FilePass.ofPath sealed oneEdit .missing path
        (.fresh (some 1)) (.start pair)) := Progress.work_singleton rfl
  refine ⟨_, rfl, ?_, ?_⟩
  · change (Progress.work sealed oneEdit none [⟨path, .missing⟩] (.start oneEdit pair)).budget.hit
      = true
    rw [hwork]
    exact congrArg Budget.hit hbudget
  · change (Progress.work sealed oneEdit none [⟨path, .missing⟩]
      (.start oneEdit pair)).report.totalEdits = 0
    rw [hwork, Progress.take, hresult]
    rfl

end ClassFile

open ClassFile

/-! ## Whole runs -/

/-- A run reports what its work comes to. -/
theorem run_eq_ok {σ : Type} {out : Outside σ} {c : Config} {files : List Path} {s : σ} {r : Run σ}
    (hr : run out c files s = .ok r) :
    let last := Progress.work out c none (c.jobs files) (.start c s)
    r = ⟨{ last.report with budgetExhausted := last.budget.hit }, last.session,
      last.isBroken⟩ := by
  unfold run at hr
  split at hr
  · cases hr
  · split at hr
    · cases hr
      rfl
    · cases hr

section Run

variable {σ : Type} (out : Outside σ) (c : Config) (files : List Path) (s : σ)

/-- A run over distinct files, whatever the models and the writes do. It comes to its jobs in order,
and to all of them unless it breaks off; the drafts that it asks for are those of the passes that it
makes, in each the first ones of those that are needed for the declarations planned then; the files
that fail are those whose passes come to nothing, and the jobs behind such a pass are left out if
they are over the same file. The run reports its budget as exhausted exactly if a declaration that
is planned when the run comes to a job, or stops in front of it, was never sent to the model, and
the file of the job had not failed before. -/
theorem run_notes_missed (hfiles : files.Pairwise fun a b => Path.same a b = false) {r : Run σ}
    (hr : run out c files s = .ok r) :
    let visits := Progress.visits out c none (c.jobs files) (.start c s)
    visits.map Visit.job <+: c.jobs files ∧
    (r.isBroken = false → visits.map Visit.job = c.jobs files) ∧
    r.session.journal.filterMap Event.request? = visits.flatMap Visit.asked ∧
    (∀ v ∈ visits, v.asked <+: v.wanted out c) ∧
    r.report.failedFiles = (visits.filter Visit.failed).map (fun v => v.job.file) ∧
    (∀ front v back, visits = front ++ v :: back → (v.isSkipped = true ↔
      ∃ u ∈ front, u.failed = true ∧ Path.same v.job.file u.job.file = true)) ∧
    (r.report.budgetExhausted = true ↔ ∃ v ∈ visits, v.isSkipped = false ∧
      v.asked.length < (v.wanted out c).length) := by
  intro visits
  have hrun := run_eq_ok hr
  refine ⟨Progress.prefix_map_job_visits out c none _ _, fun hbroken => ?_, ?_,
    fun v hv => Progress.asked_prefix_wanted hv, ?_, fun front v back hv => ?_, ?_⟩
  · rw [hrun] at hbroken
    exact Progress.map_job_visits out c none _ _ hbroken
  · have hjournal := Progress.journal_work out c none (c.jobs files) (.start c s)
    rw [hrun, hjournal, List.filterMap_append, List.filterMap_flatMap]
    rfl
  · have hfailed := Progress.failedFiles_work out c none (c.jobs files) (.start c s)
    rw [hrun, hfailed]
    rfl
  · have htogether : Progress.Together ((none : Option Path).toList
        ++ (c.jobs files).map Job.file) := Progress.together_jobs c hfiles
    refine (Progress.isSkipped_iff htogether hv).trans ?_
    exact or_iff_right Bool.false_ne_true
  · have hhit := Progress.hit_work_iff out c none (c.jobs files) (.start c s)
    rw [hrun]
    refine hhit.trans (or_iff_right ?_)
    exact Bool.false_ne_true

/-- The pass over two classes is cut short, and one of them is missed. -/
theorem run_notes_missed_of_pair :
    [path].Pairwise (fun a b => Path.same a b = false) ∧
      ∃ r, run sealed oneEdit [path] pair = .ok r ∧ r.report.budgetExhausted = true ∧
        ∃ v ∈ Progress.visits sealed oneEdit none (oneEdit.jobs [path]) (.start oneEdit pair),
          v.isSkipped = false ∧ v.asked.length < (v.wanted sealed oneEdit).length := by
  have hfiles : [path].Pairwise (fun a b => Path.same a b = false) := List.pairwise_singleton _ _
  obtain ⟨r, hr, hexhausted, -⟩ := exists_run_sealed
  obtain ⟨-, -, -, -, -, -, hmissed⟩ := run_notes_missed sealed oneEdit [path] pair hfiles hr
  exact ⟨hfiles, r, hr, hexhausted, hmissed.mp hexhausted⟩

/-- A run with a limit that reports its budget as exhausted, whatever the files, the models and the
writes do: it has used the budget, or a pass that the budget cut short came to nothing. What that
pass had staged took all that was left, and was not charged. -/
theorem run_exhausted_or_failed {n : Nat} (hlimit : c.maxEdits = some n) {r : Run σ}
    (hr : run out c files s = .ok r) (hexhausted : r.report.budgetExhausted = true) :
    r.report.totalEdits = n ∨
      ∃ v ∈ Progress.visits out c none (c.jobs files) (.start c s),
        v.failed = true ∧ v.job.file ∈ r.report.failedFiles ∧
        v.asked.length < (v.wanted out c).length ∧
        v.before.budget.used + FilePass.countStaged out c v.job.pass v.job.file v.before.budget
          v.before.session = n := by
  have hrun := run_eq_ok hr
  have hstart : Progress.WithinBudget n (Progress.start c s) :=
    Progress.withinBudget_start hlimit
  rw [hrun] at hexhausted
  obtain ⟨v, hv, hskipped, hmisses⟩ :=
    ((Progress.hit_work_iff out c none (c.jobs files) (.start c s)).mp hexhausted).resolve_left
      Bool.false_ne_true
  have hend := Progress.withinBudget_work out c none (c.jobs files) hstart
  rcases Progress.used_or_failed_of_misses hstart hv hskipped hmisses with hused | ⟨hfailed, hfull⟩
  · left
    rw [← hused, ← hend.totalEdits_eq, hrun]
    rfl
  · refine .inr ⟨v, hv, hfailed, ?_, hmisses, hfull⟩
    have hfiles := Progress.failedFiles_work out c none (c.jobs files) (.start c s)
    have hmem : v.job.file ∈ ((Progress.visits out c none (c.jobs files) (.start c s)).filter
        Visit.failed).map fun v => v.job.file :=
      List.mem_map_of_mem (List.mem_filter.mpr ⟨hv, hfailed⟩)
    rw [hrun, hfiles]
    exact List.mem_append_right _ hmem

end Run

/-- The budget for a file that cannot be written is not used. -/
theorem run_exhausted_or_failed_of_pair :
    oneEdit.maxEdits = some 1 ∧ ∃ r, run sealed oneEdit [path] pair = .ok r ∧
      r.report.budgetExhausted = true ∧ (r.report.totalEdits = 1 ∨
        ∃ v ∈ Progress.visits sealed oneEdit none (oneEdit.jobs [path]) (.start oneEdit pair),
          v.failed = true ∧ v.job.file ∈ r.report.failedFiles) := by
  obtain ⟨r, hr, hexhausted, -⟩ := exists_run_sealed
  refine ⟨rfl, r, hr, hexhausted, ?_⟩
  exact (run_exhausted_or_failed sealed oneEdit [path] pair rfl hr hexhausted).imp_right
    fun ⟨v, hv, hfailed, hfile, _⟩ => ⟨v, hv, hfailed, hfile⟩

/-- The budget of a run can be reported as exhausted when the run has made no edit. -/
theorem run_exhausted_without_edits :
    oneEdit.maxEdits = some 1 ∧ ∃ r, run sealed oneEdit [path] pair = .ok r ∧
      r.report.budgetExhausted = true ∧ r.report.totalEdits ≠ 1 := by
  obtain ⟨r, hr, hexhausted, hnone⟩ := exists_run_sealed
  exact ⟨rfl, r, hr, hexhausted, by rw [hnone]; decide⟩

end DocComments
