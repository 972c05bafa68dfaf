import DocComments.Proofs.Run.Journal
import DocComments.Proofs.Run.Missing

/-!
# The batches of a pass

The edits for a declaration are staged as one batch, and a budget counts batches.
`Staging.staged` lists the batches that are staged for some declarations. A budget with a limit lets
a pass stage the first batches of those that it stages without a limit, as many as the budget has
left (`Treated.staged_handled_eq_take`). Where the tree fits the source and files can be written,
what is staged is committed unless the changes cannot be shown (`FilePass.ofPath_of_fits`).
-/

set_option autoImplicit false

namespace DocComments

/-! ## Trees that fit their source -/

/-- Children stand one behind the other within their parent, and every node begins and ends between
two characters of the source. -/
structure Tree.Fits (t : Tree) (source : Text) : Prop where
  laidOut : t.LaidOut
  fits : ∀ n ∈ (Node.root t).walk, n.range.fits source = true

section Fits

variable {t : Tree} {style : CommentStyle} {source : Text} {n : Node}

theorem CommentStyle.on_of_mem_commentNodes (hn : Node.On t n) {c : Node}
    (h : c ∈ style.commentNodes source n) : Node.On t c := by
  cases style with
  | block =>
    exact hn.of_mem_earlierSiblings (Declaration.mem_earlierSiblings_of_mem_precedingComments h)
  | docstring =>
    obtain ⟨body, statement, hbody, hstatement, hc, -⟩ :=
      Declaration.exists_of_docstring?_eq_some (Option.mem_toList.mp h)
    exact ((hn.of_mem_children hbody).of_mem_children hstatement).of_mem_children hc
  | slashes =>
    exact hn.of_mem_earlierSiblings (Declaration.mem_earlierSiblings_of_mem_precedingComments h)

/-- The edits for a declaration begin and end between two characters of the source. -/
theorem Planned.fits_of_mem_edits (ht : t.Fits source) (hn : Node.On t n) {pass : Pass}
    {p : Planned} (h : Planned.ofNode? style pass source n = some p) {comment : Comment} {e : Edit}
    (he : e ∈ pass.edits p comment) : e.range.fits source = true := by
  cases pass with
  | missing =>
    obtain ⟨point, hpoint, hanchor⟩ := Planned.exists_point_of_ofNode?_eq_some h
    have hon := CommentStyle.on_of_insertionPoint? hn hpoint
    have hbegins := (ByteRange.fits_iff.mp (ht.fits point (Node.mem_walk_root_iff.mpr hon))).2.1
    rw [List.mem_singleton.mp he]
    refine ByteRange.fits_iff.mpr ⟨Nat.le_refl _, ?_, ?_⟩ <;>
      exact hanchor ▸ Snapshot.start_ofNode hbegins ▸ hbegins
  | update =>
    obtain ⟨first, more, hnodes, hanchor, hcomments⟩ := Planned.exists_of_ofNode?_eq_some h
    have hfits : ∀ c ∈ first :: more, c.range.fits source = true := fun c hc =>
      ht.fits c (Node.mem_walk_root_iff.mpr
        (CommentStyle.on_of_mem_commentNodes hn (hnodes ▸ hc)))
    have hordered := CommentStyle.pairwise_commentNodes ht.laidOut style source hn
    rw [hnodes] at hordered
    have hsnapshots : ∀ s ∈ (first :: more).map (Snapshot.ofNode source),
        s.range.fits source = true := by
      intro s hs
      obtain ⟨c, hc, rfl⟩ := List.mem_map.mp hs
      rw [Snapshot.range_ofNode (hfits c hc)]
      exact hfits c hc
    have hplaced : ((first :: more).map (Snapshot.ofNode source)).Pairwise
        fun a b => a.range.stop ≤ b.range.start := by
      rw [List.pairwise_map]
      refine hordered.imp_of_mem fun {a b} ha hb hab => ?_
      rw [Snapshot.range_ofNode (hfits a ha), Snapshot.range_ofNode (hfits b hb)]
      exact hab
    rw [Planned.edits_update, hanchor, hcomments] at he
    rcases List.mem_cons.mp he with rfl | he
    · exact hsnapshots _ List.mem_cons_self
    · exact Planned.fits_of_mem_clearings hplaced hsnapshots he

end Fits

/-! ## Batches -/

def editsOf (batches : List (Path × List Edit)) : List (Path × Edit) :=
  batches.flatMap fun batch => batch.2.map (Prod.mk batch.1)

theorem editsOf_map (file : Path) (batches : List (List Edit)) :
    editsOf (batches.map (Prod.mk file)) = batches.flatten.map (Prod.mk file) := by
  rw [editsOf, List.flatMap_map, List.map_flatten, List.flatMap_def]

/-- Where every batch is one edit the edits of the first batches are the first edits. -/
theorem editsOf_take_of_length_eq_one {batches : List (Path × List Edit)}
    (h : ∀ batch ∈ batches, batch.2.length = 1) (n : Nat) :
    editsOf (batches.take n) = (editsOf batches).take n := by
  induction batches generalizing n with
  | nil => simp [editsOf]
  | cons batch batches ih =>
    obtain ⟨hone, hrest⟩ := List.forall_mem_cons.mp h
    obtain ⟨e, he⟩ := List.length_eq_one_iff.mp hone
    cases n with
    | zero => rfl
    | succ n =>
      have hcons : ∀ bs, editsOf (batch :: bs) = (batch.1, e) :: editsOf bs := by
        intro bs
        rw [editsOf, List.flatMap_cons, he]
        rfl
      rw [List.take_succ_cons, hcons, hcons, List.take_succ_cons, ih hrest]

namespace Staging

def batch? (w : Staging) (t : Treatment) : Option (List Edit) :=
  match t.outcome with
  | .accepted batch => if (w.changes.stage batch).toBool then some batch else none
  | _ => none

/-- The batches that are staged for some declarations, if they are taken up in order. -/
def staged : Staging → List Treatment → List (List Edit)
  | _, [] => []
  | w, t :: ts => (w.batch? t).toList ++ (w.take t).staged ts

theorem length_batch? (w : Staging) (t : Treatment) :
    (w.batch? t).toList.length = (w.takes t).toNat := by
  unfold batch? takes
  cases t.outcome with
  | accepted batch => cases h : w.changes.stage batch <;> simp [h, Except.toBool]
  | _ => rfl

theorem length_staged (w : Staging) (ts : List Treatment) :
    (w.staged ts).length = w.countStaged ts := by
  induction ts generalizing w with
  | nil => rfl
  | cons t ts ih => rw [staged, List.length_append, ih, length_batch?, countStaged]

theorem outcome_of_batch?_eq_some {w : Staging} {t : Treatment} {batch : List Edit}
    (h : w.batch? t = some batch) : t.outcome = .accepted batch := by
  unfold batch? at h
  split at h
  · next houtcome =>
    split at h
    · rw [houtcome, Option.some.inj h]
    · cases h
  · cases h

theorem exists_of_mem_staged {w : Staging} {ts : List Treatment} {batch : List Edit}
    (h : batch ∈ w.staged ts) : ∃ t ∈ ts, t.outcome = .accepted batch := by
  induction ts generalizing w with
  | nil => cases h
  | cons t ts ih =>
    rcases List.mem_append.mp h with h | h
    · exact ⟨t, List.mem_cons_self, outcome_of_batch?_eq_some (Option.mem_toList.mp h)⟩
    · obtain ⟨x, hx, hbatch⟩ := ih h
      exact ⟨x, List.mem_cons_of_mem t hx, hbatch⟩

theorem edits_changes_take (w : Staging) (t : Treatment) :
    (w.take t).changes.edits = w.changes.edits ++ (w.batch? t).toList.flatten := by
  unfold take batch?
  cases t.outcome with
  | accepted batch =>
    cases hstage : w.changes.stage batch with
    | error e => simp [hstage, Except.toBool]
    | ok changes => simp [hstage, Changeset.eq_of_stage_eq_ok hstage, Except.toBool]
  | _ => simp

/-- What waits to be committed are the batches, one behind the other. -/
theorem edits_changes_foldl_take (w : Staging) (ts : List Treatment) :
    (ts.foldl take w).changes.edits = w.changes.edits ++ (w.staged ts).flatten := by
  induction ts generalizing w with
  | nil => simp [staged]
  | cons t ts ih =>
    rw [List.foldl_cons, ih, edits_changes_take, staged, List.flatten_append, List.append_assoc]

theorem file_foldl_take (w : Staging) (ts : List Treatment) :
    (ts.foldl take w).report.file = w.report.file := by
  induction ts generalizing w with
  | nil => rfl
  | cons t ts ih => rw [List.foldl_cons, ih, (take_same w t).2]

section Commit

variable {σ : Type} {out : Outside σ} {c : Config} {source : Text} {w : Staging} {s : Session σ}

/-- Edits that fit the source are committed, unless the changes cannot be shown. -/
theorem commit_of_fits (hfits : ∀ e ∈ w.changes.edits, e.range.fits source = true)
    (hwrites : ∀ file t s, (out.write file t s).1 = .ok ())
    (hshown : (w.commit out c source s).1 ≠ .error (.noDiff w.report.file)) :
    (∃ r, (w.commit out c source s).1 = .ok r) ∧
      editsOf (w.committed source) = w.changes.edits.map (Prod.mk w.report.file) := by
  have hok : ∃ r, (w.commit out c source s).1 = .ok r := by
    cases hresult : (w.commit out c source s).1 with
    | ok r => exact ⟨r, rfl⟩
    | error e =>
      rcases commit_eq_error hresult with ⟨x, hbad, -⟩ | ⟨-, rfl⟩ | ⟨r, x, -, hunwritten, -⟩
      · obtain ⟨edit, hedit, -⟩ := Changeset.commit_eq_badEdit_iff.mp hbad
        have hmisplaced := List.find?_some hedit
        rw [hfits edit (List.mem_of_find?_eq_some hedit)] at hmisplaced
        cases hmisplaced
      · exact absurd hresult hshown
      · rw [hwrites] at hunwritten
        cases hunwritten
  refine ⟨hok, ?_⟩
  obtain ⟨r, hr⟩ := hok
  unfold committed
  cases hempty : w.changes.isEmpty with
  | true =>
    have hnil : w.changes.edits = [] := List.isEmpty_iff.mp hempty
    rw [if_pos rfl, hnil]
    rfl
  | false =>
    rw [if_neg Bool.false_ne_true]
    cases hcommit : w.changes.commit source with
    | ok r => simp [editsOf]
    | error e =>
      unfold commit at hr
      rw [if_neg (by simp [hempty]), hcommit] at hr
      cases e <;> cases hr

end Commit

end Staging

/-! ## With a limit and without -/

namespace Treated

variable {σ : Type} {out : Outside σ} {c : Config} {style : CommentStyle} {source : Text}
  {limited free : Budget} {n : Nat}

/-- A limit lets the first batches through, as many as are left of it. -/
theorem staged_handled_eq_take (hlimit : limited.limit = some n) (hfree : free.limit = none)
    (planned : List Planned) (w : Staging) (s : Session σ) :
    w.staged ((handled out c style source limited planned w s).map Handled.treatment)
      = (w.staged ((handled out c style source free planned w s).map Handled.treatment)).take
          (n - (limited.used + w.report.edits)) := by
  induction planned generalizing w s with
  | nil => simp [handled, Staging.staged]
  | cons p ps ih =>
    unfold handled
    rw [if_pos (Budget.allows_of_limit_eq_none hfree w.report.edits)]
    by_cases hallows : limited.allows w.report.edits = true
    · have hleft := Budget.allows_iff.mp hallows n hlimit
      rw [if_pos hallows]
      simp only [List.map_cons, Staging.staged]
      generalize Handled.ofPlanned out c style w.report.pass source p s = h
      -- what the declaration adds to the batches it takes from the budget
      have hlength := w.length_batch? h.treatment
      have hedits := w.edits_take h.treatment
      have hone : (w.takes h.treatment).toNat ≤ 1 := Bool.toNat_le _
      have htake : (w.batch? h.treatment).toList.take (n - (limited.used + w.report.edits))
          = (w.batch? h.treatment).toList := List.take_of_length_le (by omega)
      rw [ih, List.take_append, htake, hlength, hedits]
      congr 2
      omega
    · obtain ⟨m, hm, hle⟩ := Budget.allows_eq_false_iff.mp (eq_false_of_ne_true hallows)
      obtain rfl := Option.some.inj (hlimit.symm.trans hm)
      rw [if_neg hallows, Nat.sub_eq_zero_of_le hle, List.take_zero]
      rfl

/-- If the limit leaves no declaration out, the pass is the same as without it. -/
theorem ofPlanned_eq_of_left_eq_nil (hfree : free.limit = none) (planned : List Planned)
    (w : Staging) (s : Session σ)
    (h : (ofPlanned out c style source limited planned w s).left = []) :
    ofPlanned out c style source free planned w s
      = ofPlanned out c style source limited planned w s := by
  induction planned generalizing w s with
  | nil => rfl
  | cons p ps ih =>
    unfold ofPlanned at h ⊢
    rw [if_pos (Budget.allows_of_limit_eq_none hfree w.report.edits)]
    by_cases hallows : limited.allows w.report.edits = true
    · rw [if_pos hallows] at h ⊢
      exact ih _ _ h
    · rw [if_neg hallows] at h
      cases h

end Treated

/-! ## Files -/

namespace FilePass

variable {σ : Type} {out : Outside σ} {c : Config}

def batches (out : Outside σ) (c : Config) (pass : Pass) (file : Path) (budget : Budget)
    (s : Session σ) : List (List Edit) :=
  match FilePlan.ofPath out c pass file s.outside with
  | .ok found =>
    (Staging.start file pass).staged
      ((Treated.handled out c found.style found.source budget found.planned (.start file pass)
        s).map Handled.treatment)
  | .error _ => []

theorem length_batches (pass : Pass) (file : Path) (budget : Budget) (s : Session σ) :
    (batches out c pass file budget s).length = countStaged out c pass file budget s := by
  unfold batches countStaged
  cases FilePlan.ofPath out c pass file s.outside with
  | error e => rfl
  | ok found => exact Staging.length_staged _ _

/-- Every declaration that is planned is one of the tree. -/
theorem exists_node_of_mem_planned {pass : Pass} {file : Path} {state : σ} {found : FilePlan}
    (h : FilePlan.ofPath out c pass file state = .ok found) {p : Planned}
    (hp : p ∈ found.planned) :
    ∃ lang n, Node.On (out.parse lang found.source) n ∧
      Planned.ofNode? found.style pass found.source n = some p := by
  unfold FilePlan.ofPath at h
  split at h
  · cases h
  · next lang hlang =>
    split at h
    · cases h
    · next source hsource =>
      split at h
      · cases h
      · next planned hplan =>
        obtain rfl := Except.ok.inj h
        unfold plan at hplan
        cases hsearch : (pass.rule lang.style c.request).search lang source
            (out.parse lang source) with
        | error e =>
          rw [hsearch] at hplan
          cases hplan
        | ok matched =>
          rw [hsearch] at hplan
          obtain rfl := Except.ok.inj hplan
          obtain ⟨n, hn, hof⟩ := List.mem_filterMap.mp hp
          exact ⟨lang, n, Rule.on_of_mem_search hsearch hn, hof⟩

variable (out c) in
/-- What waits to be committed after a pass over a file are its batches. -/
theorem edits_staging (found : FilePlan) (pass : Pass) (file : Path) (budget : Budget)
    (s : Session σ) :
    (Treated.ofPlanned out c found.style found.source budget found.planned (.start file pass)
        s).staging.changes.edits
      = ((Staging.start file pass).staged ((Treated.handled out c found.style found.source budget
          found.planned (.start file pass) s).map Handled.treatment)).flatten := by
  rw [Treated.staging_ofPlanned, Staging.edits_changes_foldl_take]
  exact List.nil_append _

variable (out c) in
theorem file_staging (found : FilePlan) (pass : Pass) (file : Path) (budget : Budget)
    (s : Session σ) :
    (Treated.ofPlanned out c found.style found.source budget found.planned (.start file pass)
      s).staging.report.file = file := by
  rw [Treated.staging_ofPlanned, Staging.file_foldl_take]
  rfl

/-- The report of a pass is about its file. -/
theorem file_of_ofPath_eq_ok {pass : Pass} {file : Path} {budget : Budget} {s : Session σ}
    {r : PassReport} (h : (ofPath out c pass file budget s).result = .ok r) : r.file = file := by
  unfold ofPath at h
  cases hplan : FilePlan.ofPath out c pass file s.outside with
  | error e =>
    rw [hplan] at h
    cases h
  | ok found =>
    rw [hplan] at h
    dsimp only at h
    rw [(ofPlan_eq out c pass file found budget s rfl).1] at h
    obtain ⟨diff, rfl⟩ := Staging.exists_diff_of_commit_eq_ok h
    exact file_staging out c found pass file budget s

/-- The edits of a batch bring the comment for a planned declaration into the file. -/
theorem exists_of_mem_staged {found : FilePlan} {pass : Pass} {file : Path} {budget : Budget}
    {s : Session σ} {batch : List Edit}
    (h : batch ∈ (Staging.start file pass).staged ((Treated.handled out c found.style found.source
      budget found.planned (.start file pass) s).map Handled.treatment)) :
    ∃ p ∈ found.planned, ∃ comment, batch = pass.edits p comment := by
  obtain ⟨t, ht, houtcome⟩ := Staging.exists_of_mem_staged h
  obtain ⟨handled, hhandled, rfl⟩ := List.mem_map.mp ht
  have hmade : handled.MadeBy found.style pass := Treated.madeBy_of_mem_handled rfl hhandled
  obtain ⟨-, comment, -, -, hbatch⟩ := hmade batch houtcome
  have hplanned := planned_handled_start out c pass file budget s found
  exact ⟨handled.planned,
    hplanned ▸ List.mem_append_left _ (List.mem_map_of_mem hhandled), comment, hbatch⟩

/-- What a pass stages fits the source. -/
theorem fits_of_mem_staged (hparse : ∀ lang source, (out.parse lang source).Fits source)
    {pass : Pass} {file : Path} {state : σ} {found : FilePlan}
    (h : FilePlan.ofPath out c pass file state = .ok found) {budget : Budget} {s : Session σ}
    {e : Edit}
    (he : e ∈ (Treated.ofPlanned out c found.style found.source budget found.planned
      (.start file pass) s).staging.changes.edits) : e.range.fits found.source = true := by
  rw [edits_staging] at he
  obtain ⟨batch, hbatch, hmem⟩ := List.mem_flatten.mp he
  obtain ⟨p, hplanned, comment, rfl⟩ := exists_of_mem_staged hbatch
  obtain ⟨lang, n, hn, hof⟩ := exists_node_of_mem_planned h hplanned
  exact Planned.fits_of_mem_edits (hparse lang found.source) hn hof hmem

/-- Where the tree fits the source and the file can be written, a pass that does not end the run
commits what it stages. -/
theorem ofPath_of_fits (hparse : ∀ lang source, (out.parse lang source).Fits source)
    (hwrites : ∀ file t s, (out.write file t s).1 = .ok ()) (pass : Pass) (file : Path)
    (budget : Budget) (s : Session σ) (hends : (ofPath out c pass file budget s).endsRun = false) :
    editsOf (committed out c pass file budget s)
        = editsOf ((batches out c pass file budget s).map (Prod.mk file)) ∧
      ∀ found, FilePlan.ofPath out c pass file s.outside = .ok found →
        ∃ r, (ofPath out c pass file budget s).result = .ok r := by
  unfold committed batches
  cases h : FilePlan.ofPath out c pass file s.outside with
  | error e => exact ⟨rfl, fun found hfound => by cases hfound⟩
  | ok found =>
    dsimp only
    have hfits : ∀ e ∈ (Treated.ofPlanned out c found.style found.source budget found.planned
        (.start file pass) s).staging.changes.edits, e.range.fits found.source = true :=
      fun e he => fits_of_mem_staged hparse h he
    have hedits := edits_staging out c found pass file budget s
    have hfile := file_staging out c found pass file budget s
    have hresult := (ofPlan_eq out c pass file found budget s rfl).1
    rw [endsRun, ofPath_of_plan h, hresult] at hends
    rw [ofPath_of_plan h, hresult]
    generalize Treated.ofPlanned out c found.style found.source budget found.planned
      (.start file pass) s = treated at *
    obtain ⟨hok, hcommitted⟩ := Staging.commit_of_fits hfits hwrites fun hnone => by
      rw [hnone] at hends
      cases hends
    refine ⟨?_, fun _ _ => hok⟩
    rw [editsOf_map, hcommitted, hedits, hfile]

end FilePass

end DocComments
