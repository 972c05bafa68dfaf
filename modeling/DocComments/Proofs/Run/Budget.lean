import DocComments.Run.Basic
import DocComments.Proofs.Run.Update
import Mathlib.Algebra.GroupWithZero.Nat
import Mathlib.Data.List.Chain
import Mathlib.Order.Basic

/-!
# The budget of a run

A pass asks the budget before each declaration, with the edits that already wait to be committed,
and charges it once, after the commit. What waits therefore never exceeds what is left
(`used_add_countStaged_le`), a pass charges what it staged or, if it fails, nothing
(`FilePass.charges_ofPath`), and a run with a limit stays within it from step to step
(`Progress.Step.withinBudget`) and so in every one of its states (`run_keeps_budget`). A pass that
charges nothing has nothing to commit (`isEmpty_changes_iff`).
-/

set_option autoImplicit false

namespace DocComments

namespace Staging

def takes (w : Staging) (t : Treatment) : Bool :=
  match t.outcome with
  | .accepted batch => (w.changes.stage batch).toBool
  | _ => false

/-- How many of some declarations have their edits staged, if they are taken up in order. -/
def countStaged : Staging → List Treatment → Nat
  | _, [] => 0
  | w, t :: ts => (w.takes t).toNat + (w.take t).countStaged ts

/-- The report counts a declaration as edited if its edits are staged, and only then. -/
theorem edits_take (w : Staging) (t : Treatment) :
    (w.take t).report.edits = w.report.edits + (w.takes t).toNat := by
  unfold take takes
  cases t.outcome with
  | refused => simp
  | unchanged => simp
  | failed => simp
  | accepted batch =>
    cases hstage : w.changes.stage batch with
    | ok changes => simp [hstage, Except.toBool]
    | error e => simp [hstage, Except.toBool]

/-- The report counts the declarations whose edits were staged. -/
theorem edits_foldl_take (w : Staging) (ts : List Treatment) :
    (ts.foldl take w).report.edits = w.report.edits + w.countStaged ts := by
  induction ts generalizing w with
  | nil => rfl
  | cons t ts ih => rw [List.foldl_cons, ih, edits_take, countStaged, Nat.add_assoc]

/-- Edits wait behind a declaration if some did before or if those for the declaration are
staged. -/
theorem isEmpty_changes_take {w : Staging} {t : Treatment} (ht : t.outcome ≠ .accepted []) :
    (w.take t).changes.isEmpty = true ↔ w.changes.isEmpty = true ∧ w.takes t = false := by
  unfold take takes
  cases houtcome : t.outcome with
  | refused => simp
  | unchanged => simp
  | failed => simp
  | accepted batch =>
    have hbatch : batch ≠ [] := fun h => ht (by rw [houtcome, h])
    cases hstage : w.changes.stage batch with
    | error e => simp [hstage, Except.toBool]
    | ok changes =>
      simp [hstage, Changeset.eq_of_stage_eq_ok hstage, Changeset.isEmpty, Except.toBool, hbatch]

theorem isEmpty_changes_foldl_take {w : Staging} {ts : List Treatment}
    (hts : ∀ t ∈ ts, t.outcome ≠ .accepted []) :
    (ts.foldl take w).changes.isEmpty = true ↔
      w.changes.isEmpty = true ∧ w.countStaged ts = 0 := by
  induction ts generalizing w with
  | nil => simp [countStaged]
  | cons t ts ih =>
    rw [List.foldl_cons, ih fun x hx => hts x (List.mem_cons_of_mem _ hx),
      isEmpty_changes_take (hts t List.mem_cons_self), countStaged]
    cases w.takes t <;> simp

end Staging

/-! ## One pass -/

namespace Treated

variable {σ : Type} (out : Outside σ) (c : Config) (style : CommentStyle) (source : Text)
  {budget : Budget} {n : Nat}

/-- What waits to be committed never exceeds what is left of the budget: it is asked before each
declaration, and a declaration adds one at most. -/
theorem used_add_countStaged_le (hlimit : budget.limit = some n) (planned : List Planned)
    (w : Staging) (s : Session σ) (hw : budget.used + w.report.edits ≤ n) :
    budget.used + (w.report.edits + w.countStaged
      ((handled out c style source budget planned w s).map Handled.treatment)) ≤ n := by
  induction planned generalizing w s with
  | nil => exact hw
  | cons p ps ih =>
    unfold handled
    by_cases hbudget : budget.allows w.report.edits = true
    · -- the budget leaves room for one more, and the report counts one more at most
      have hleft := Budget.allows_iff.mp hbudget n hlimit
      simp only [hbudget, if_true, List.map_cons]
      rw [Staging.countStaged, ← Nat.add_assoc w.report.edits, ← Staging.edits_take]
      refine ih _ _ ?_
      have hone : ∀ t, (w.takes t).toNat ≤ 1 := fun t => Bool.toNat_le _
      rw [Staging.edits_take]
      have hadded := hone (Handled.ofPlanned out c style w.report.pass source p s).treatment
      omega
    · simpa [hbudget, Staging.countStaged] using hw

/-- A pass has something to commit if it staged the edits for some declaration: no batch is
empty. -/
theorem isEmpty_changes_iff (file : Path) (pass : Pass) (planned : List Planned) (s : Session σ) :
    (ofPlanned out c style source budget planned (.start file pass) s).staging.changes.isEmpty
        = true ↔
      (Staging.start file pass).countStaged ((handled out c style source budget planned
        (.start file pass) s).map Handled.treatment) = 0 := by
  rw [staging_ofPlanned, Staging.isEmpty_changes_foldl_take]
  · exact and_iff_right rfl
  · intro t ht
    obtain ⟨h, hmem, rfl⟩ := List.mem_map.mp ht
    intro hempty
    -- an accepted batch has the edit that brings the comment in
    obtain ⟨-, comment, -, -, hbatch⟩ := madeBy_of_mem_handled rfl hmem [] hempty
    cases hpass : (Staging.start file pass).report.pass <;> simp [hpass, Pass.edits] at hbatch

end Treated

namespace FilePass

variable {σ : Type}

/-- How many declarations a pass over a file stages edits for, whatever the commit comes to. -/
def countStaged (out : Outside σ) (c : Config) (pass : Pass) (file : Path) (budget : Budget)
    (s : Session σ) : Nat :=
  match FilePlan.ofPath out c pass file s.outside with
  | .ok found =>
    (Staging.start file pass).countStaged
      ((Treated.handled out c found.style found.source budget found.planned (.start file pass)
        s).map Handled.treatment)
  | .error _ => 0

section Charge

variable (out : Outside σ) (c : Config) (pass : Pass) (file : Path) (budget : Budget)
  (s : Session σ)

/-- What a pass does to the budget: it charges the edits that it staged if they were committed, and
nothing if it fails. -/
structure Charges (before : Budget) (staged : Nat) (done : FilePass σ) : Prop where
  limit : done.budget.limit = before.limit
  used_of_ok : ∀ r, done.result = .ok r →
    r.edits = staged ∧ done.budget.used = before.used + staged
  used_of_error : ∀ e, done.result = .error e → done.budget.used = before.used

theorem charges_ofPath :
    Charges budget (countStaged out c pass file budget s) (ofPath out c pass file budget s) := by
  unfold ofPath countStaged
  cases FilePlan.ofPath out c pass file s.outside with
  | error e => exact ⟨rfl, fun _ h => (by cases h), fun _ _ => rfl⟩
  | ok found =>
    simp only [ofPlan]
    generalize htreated : Treated.ofPlanned out c found.style found.source budget found.planned
      (.start file pass) s = treated
    have hedits : treated.staging.report.edits = (Staging.start file pass).countStaged
        ((Treated.handled out c found.style found.source budget found.planned (.start file pass)
          s).map Handled.treatment) := by
      rw [← htreated, Treated.staging_ofPlanned, Staging.edits_foldl_take]
      exact Nat.zero_add _
    -- a note that a declaration was left out is no edit
    have hnote : (if treated.left.isEmpty then budget else budget.markHit).used = budget.used ∧
        (if treated.left.isEmpty then budget else budget.markHit).limit = budget.limit := by
      split <;> exact ⟨rfl, rfl⟩
    cases hcommit : treated.staging.commit out c found.source treated.session with
    | mk result s' =>
      cases result with
      | error e => exact ⟨hnote.2, fun _ h => (by cases h), fun _ _ => hnote.1⟩
      | ok report =>
        have hreport : report.edits = treated.staging.report.edits :=
          Staging.edits_of_commit_eq_ok (congrArg Prod.fst hcommit)
        refine ⟨hnote.2, fun r h => ?_, fun _ h => (by cases h)⟩
        obtain rfl := Except.ok.inj h
        refine ⟨hreport.trans hedits, ?_⟩
        show _ + report.edits = _
        rw [hnote.1, hreport, hedits]

/-- A pass stages no more than what is left of the budget. -/
theorem used_add_countStaged_le {n : Nat} (hlimit : budget.limit = some n)
    (hused : budget.used ≤ n) :
    budget.used + countStaged out c pass file budget s ≤ n := by
  unfold countStaged
  cases FilePlan.ofPath out c pass file s.outside with
  | error e => exact hused
  | ok found =>
    have hstart : (Staging.start file pass).report.edits = 0 := rfl
    have hle := Treated.used_add_countStaged_le out c found.style found.source hlimit found.planned
      (.start file pass) s hused
    rw [hstart, Nat.zero_add] at hle
    exact hle

end Charge

end FilePass

/-! ## All passes -/

namespace Progress

variable {σ : Type}

/-- A run goes on: it makes a pass over a file, or it stops in front of the jobs that are left when
the budget is used up. -/
inductive Step (out : Outside σ) (c : Config) (jobs : List Job) (p : Progress σ) :
    Progress σ → Prop where
  /-- a pass over a file -/
  | pass {job : Job} (hjob : job ∈ jobs) :
    Step out c jobs p
      (p.take job.file (FilePass.ofPath out c job.pass job.file p.budget p.session))
  /-- nothing more is done -/
  | stop {rest : List Job} (hrest : rest <:+ jobs) (hused : p.budget.isExhausted = true) :
    Step out c jobs p (stop out c rest p)

/-- The states of a run: the first one, one after every pass, and the one in which it stops. -/
def states (out : Outside σ) (c : Config) :
    Option Path → List Job → Progress σ → List (Progress σ)
  | _, [], p => [p]
  | failed, job :: jobs, p =>
    if failed.any (Path.same job.file) then states out c failed jobs p
    else if p.budget.isExhausted then [p, stop out c (job :: jobs) p]
    else
      let done := FilePass.ofPath out c job.pass job.file p.budget p.session
      let failed := match done.result with
        | .ok _ => failed
        | .error _ => some job.file
      if done.endsRun then [p, p.take job.file done]
      else p :: states out c failed jobs (p.take job.file done)

section States

variable (out : Outside σ) (c : Config) (failed : Option Path) (jobs : List Job) (p : Progress σ)

theorem head?_states : (states out c failed jobs p).head? = some p := by
  induction jobs generalizing failed p with
  | nil => rfl
  | cons job jobs ih =>
    unfold states
    split
    · exact ih _ _
    · split
      · rfl
      · dsimp only
        split <;> rfl

/-- The last state is the one in which the work ends. -/
theorem getLast?_states :
    (states out c failed jobs p).getLast? = some (work out c failed jobs p) := by
  induction jobs generalizing failed p with
  | nil => rfl
  | cons job jobs ih =>
    unfold states work
    split
    · exact ih _ _
    · split
      · rfl
      · dsimp only
        split
        · rfl
        · rw [List.getLast?_cons, ih]
          rfl

/-- Each state comes from the one before by a step. -/
theorem isChain_states {all : List Job} (hjobs : jobs <:+ all) :
    (states out c failed jobs p).IsChain (Step out c all) := by
  induction jobs generalizing failed p with
  | nil => exact List.isChain_singleton p
  | cons job jobs ih =>
    have hrest : jobs <:+ all := (List.suffix_cons job jobs).trans hjobs
    have hjob : job ∈ all := hjobs.subset List.mem_cons_self
    unfold states
    split
    · exact ih _ _ hrest
    · split
      · next hused => exact List.isChain_pair.mpr (.stop hjobs hused)
      · dsimp only
        split
        · exact List.isChain_pair.mpr (.pass hjob)
        · refine List.isChain_cons.mpr ⟨fun q hq => ?_, ih _ _ hrest⟩
          -- the states behind this one begin with the one after the pass
          rw [head?_states] at hq
          obtain rfl := Option.some.inj hq
          exact .pass hjob

end States

/-- The budget is charged with the edits of the passes that came to an end, and not exceeded. -/
structure WithinBudget (n : Nat) (p : Progress σ) : Prop where
  limit : p.budget.limit = some n
  used_le : p.budget.used ≤ n
  used_eq : p.budget.used = (p.report.passes.map fun r => r.generated + r.updated).sum

section Within

variable {out : Outside σ} {c : Config} {jobs : List Job} {n : Nat} {p q : Progress σ}

theorem withinBudget_start {s : σ} (hlimit : c.maxEdits = some n) : WithinBudget n (start c s) :=
  ⟨hlimit, Nat.zero_le n, rfl⟩

/-- What is charged does not decrease: a pass adds what it staged or nothing, and a note that
declarations were missed is no edit. -/
theorem Step.used_le (h : Step out c jobs p q) : p.budget.used ≤ q.budget.used := by
  cases h with
  | @pass job _ =>
    obtain ⟨-, hok, herror⟩ :=
      FilePass.charges_ofPath out c job.pass job.file p.budget p.session
    show p.budget.used ≤ (FilePass.ofPath out c job.pass job.file p.budget p.session).budget.used
    cases hresult : (FilePass.ofPath out c job.pass job.file p.budget p.session).result with
    | error e => exact (herror e hresult).ge
    | ok r =>
      have hused := (hok r hresult).2
      omega
  | stop _ _ =>
    unfold Progress.stop
    split <;> exact Nat.le_refl _

/-- A step keeps to the budget: a pass charges the edits that it reports, and stages no more than
what is left. -/
theorem Step.withinBudget (h : Step out c jobs p q) (hp : WithinBudget n p) :
    WithinBudget n q := by
  cases h with
  | @pass job _ =>
    obtain ⟨hlimit, hok, herror⟩ :=
      FilePass.charges_ofPath out c job.pass job.file p.budget p.session
    have hle := FilePass.used_add_countStaged_le out c job.pass job.file p.budget p.session
      hp.limit hp.used_le
    generalize FilePass.ofPath out c job.pass job.file p.budget p.session = done at *
    cases hresult : done.result with
    | error e =>
      have hsame := herror e hresult
      refine ⟨hlimit.trans hp.limit, hsame.trans_le hp.used_le, ?_⟩
      simp only [Progress.take, hresult]
      exact hsame.trans hp.used_eq
    | ok r =>
      obtain ⟨hedits, hused⟩ := hok r hresult
      refine ⟨hlimit.trans hp.limit, hused.trans_le hle, ?_⟩
      simp only [Progress.take, hresult]
      rw [List.map_append, List.sum_append, ← hp.used_eq, hused, ← hedits]
      simp [PassReport.edits]
  | stop _ _ =>
    unfold Progress.stop
    split
    · exact ⟨hp.limit, hp.used_le, hp.used_eq⟩
    · exact hp

/-- Every state of a run keeps to the budget. -/
theorem withinBudget_of_isChain {states : List (Progress σ)}
    (h : states.IsChain (Step out c jobs)) (hhead : ∀ p ∈ states.head?, WithinBudget n p) :
    ∀ q ∈ states, WithinBudget n q := by
  induction states with
  | nil =>
    intro q hq
    cases hq
  | cons p states ih =>
    obtain ⟨hfirst, hrest⟩ := List.isChain_cons.mp h
    have hp : WithinBudget n p := hhead p rfl
    intro q hq
    rcases List.mem_cons.mp hq with rfl | hq
    · exact hp
    · exact ih hrest (fun r hr => (hfirst r hr).withinBudget hp) q hq

/-- What is charged never decreases in a run. -/
theorem pairwise_used_of_isChain {states : List (Progress σ)}
    (h : states.IsChain (Step out c jobs)) :
    states.Pairwise fun p q => p.budget.used ≤ q.budget.used := by
  have hused : (states.map fun p => p.budget.used).IsChain (· ≤ ·) :=
    (List.isChain_map _).mpr (h.imp fun _ _ hstep => hstep.used_le)
  exact List.pairwise_map.mp (List.isChain_iff_pairwise.mp hused)

end Within

end Progress

/-- A run with a limit, whatever the files, the models and the writes do. It goes from state to
state by passes over files, up to the state in which it ends. In every state the charged edits are
within the limit, and they are the edits that the reports of the finished passes count; they never
decrease. A pass that comes to an end is charged with what it staged, and a pass that fails with
nothing. In the end the run has no more edits than the limit allows. -/
theorem run_keeps_budget {σ : Type} (out : Outside σ) (c : Config) (files : List Path) (s : σ)
    {n : Nat} (hlimit : c.maxEdits = some n) :
    let states := Progress.states out c none (c.jobs files) (.start c s)
    states.head? = some (.start c s) ∧
    states.IsChain (Progress.Step out c (c.jobs files)) ∧
    (∀ p ∈ states, p.budget.used ≤ n ∧
      p.budget.used = (p.report.passes.map fun r => r.generated + r.updated).sum) ∧
    (states.Pairwise fun p q => p.budget.used ≤ q.budget.used) ∧
    (∀ p ∈ states, ∀ job : Job,
      let done := FilePass.ofPath out c job.pass job.file p.budget p.session
      let staged := FilePass.countStaged out c job.pass job.file p.budget p.session
      (∀ r, done.result = .ok r →
        r.generated + r.updated = staged ∧ done.budget.used = p.budget.used + staged) ∧
      (∀ e, done.result = .error e → done.budget.used = p.budget.used)) ∧
    ∀ r, run out c files s = .ok r → ∃ last, states.getLast? = some last ∧
      r.report.passes = last.report.passes ∧ r.report.totalEdits = last.budget.used ∧
      r.report.totalEdits ≤ n := by
  intro states
  have hhead : states.head? = some (.start c s) := Progress.head?_states _ _ _ _ _
  have hchain : states.IsChain (Progress.Step out c (c.jobs files)) :=
    Progress.isChain_states _ _ _ _ _ List.suffix_rfl
  have hwithin : ∀ p ∈ states, Progress.WithinBudget n p := by
    refine Progress.withinBudget_of_isChain hchain fun p hp => ?_
    rw [hhead] at hp
    obtain rfl := Option.some.inj hp
    exact Progress.withinBudget_start hlimit
  refine ⟨hhead, hchain, fun p hp => ⟨(hwithin p hp).used_le, (hwithin p hp).used_eq⟩,
    Progress.pairwise_used_of_isChain hchain, ?_, ?_⟩
  · intro p _ job done staged
    have hcharges := FilePass.charges_ofPath out c job.pass job.file p.budget p.session
    exact ⟨hcharges.used_of_ok, hcharges.used_of_error⟩
  · intro r hr
    have hlast : states.getLast? = some (Progress.work out c none (c.jobs files) (.start c s)) :=
      Progress.getLast?_states _ _ _ _ _
    refine ⟨_, hlast, ?_⟩
    have hend := hwithin _ (List.mem_of_getLast? hlast)
    have hpasses : r.report.passes
        = (Progress.work out c none (c.jobs files) (.start c s)).report.passes := by
      unfold run at hr
      split at hr
      · cases hr
      · split at hr
        · cases hr
          rfl
        · cases hr
    have htotal : r.report.totalEdits
        = (Progress.work out c none (c.jobs files) (.start c s)).budget.used := by
      rw [hend.used_eq, RunReport.totalEdits, hpasses, List.sum_eq_foldr]
      rfl
    exact ⟨hpasses, htotal, htotal.trans_le hend.used_le⟩

/-- A run over a file with two lines of comment, limited to one edit. -/
theorem run_keeps_budget_of_one :
    let c : Config := { ClassFile.config with maxEdits := some 1 }
    c.maxEdits = some 1 ∧
      ∃ r, run (ClassFile.twoLines.outside "/// c".toList) c [ClassFile.path]
        ClassFile.twoLines.source = .ok r ∧ r.report.totalEdits ≤ 1 := by
  intro c
  refine ⟨rfl, _, rfl, ?_⟩
  obtain ⟨-, -, -, -, -, htotal⟩ := run_keeps_budget (ClassFile.twoLines.outside "/// c".toList) c
    [ClassFile.path] ClassFile.twoLines.source (show c.maxEdits = some 1 from rfl)
  obtain ⟨last, -, -, -, hle⟩ := htotal _ rfl
  exact hle

end DocComments
