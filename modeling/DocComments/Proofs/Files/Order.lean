import DocComments.Files.Discover
import Mathlib.Data.List.Basic

/-!
# The order of paths

Paths are compared component by component. The comparison is a linear order in which two paths come
out equal exactly if they name the same path (`Path.order_eq_eq_iff`), so that a sorted list has
equal paths side by side: `Discover.sorted` leaves a strictly increasing list with one path for each
one that it is given (`Discover.pairwise_sorted`, `Discover.exists_same_mem_sorted`), and only what
is given decides which components it leaves (`Discover.map_components_sorted_congr`).
-/

set_option autoImplicit false

namespace DocComments

open Std

namespace Path

/-! ## Comparisons -/

theorem compareText_eq_compareLex : compareText = List.compareLex (compareOn Char.toNat) := by
  funext s t
  induction s generalizing t with
  | nil => cases t <;> rfl
  | cons c s ih =>
    cases t with
    | nil => rfl
    | cons d t =>
      rw [compareText, ih, List.compareLex_cons_cons]
      rfl

theorem compareComponents_eq_compareLex : compareComponents = List.compareLex compareComponent := by
  funext p q
  induction p generalizing q with
  | nil => cases q <;> rfl
  | cons a p ih =>
    cases q with
    | nil => rfl
    | cons b q => rw [compareComponents, ih, List.compareLex_cons_cons]

instance : LawfulEqCmp (compareOn Char.toNat) where
  compare_self := ReflCmp.compare_self
  eq_of_compare h := Char.toNat_inj.mp (LawfulEqCmp.eq_of_compare h)

instance : TransCmp compareText := by
  rw [compareText_eq_compareLex]
  infer_instance

instance : LawfulEqCmp compareText := by
  rw [compareText_eq_compareLex]
  infer_instance

instance : TransCmp fun a b : Component => compareText a.text b.text where
  eq_swap := (inferInstance : TransCmp compareText).eq_swap
  isLE_trans := (inferInstance : TransCmp compareText).isLE_trans

instance : TransCmp compareComponent :=
  inferInstanceAs (TransCmp (compareLex (compareOn Component.rank)
    fun a b : Component => compareText a.text b.text))

instance : LawfulEqCmp compareComponent where
  compare_self := ReflCmp.compare_self
  eq_of_compare {a b} h := by
    -- the kind of a component is its rank, and entries are told apart by their names
    obtain ⟨hrank, htext⟩ := Ordering.then_eq_eq.mp h
    have hrank : a.rank = b.rank := LawfulEqCmp.eq_of_compare hrank
    have htext : a.text = b.text := LawfulEqCmp.eq_of_compare htext
    cases a <;> cases b
    case entry.entry => exact congrArg Component.entry htext
    all_goals simp_all [Component.rank]

instance : TransCmp compareComponents := by
  rw [compareComponents_eq_compareLex]
  infer_instance

instance : LawfulEqCmp compareComponents := by
  rw [compareComponents_eq_compareLex]
  infer_instance

instance : TransCmp order where
  eq_swap := (inferInstance : TransCmp compareComponents).eq_swap
  isLE_trans := (inferInstance : TransCmp compareComponents).isLE_trans

/-- Paths that come out equal are the same, however they are spelled. -/
theorem order_eq_eq_iff {p q : Path} : p.order q = .eq ↔ p.components = q.components :=
  show compareComponents _ _ = .eq ↔ _ from LawfulEqCmp.compare_eq_iff_eq

theorem same_iff {p q : Path} : p.same q = true ↔ p.components = q.components := beq_iff_eq

theorem lt_of_isLE_of_ne {p q : Path} (hle : (p.order q).isLE = true)
    (hne : p.components ≠ q.components) : p.order q = .lt := by
  rcases Ordering.isLE_iff_eq_lt_or_eq_eq.mp hle with hlt | heq
  · exact hlt
  · exact absurd (order_eq_eq_iff.mp heq) hne

end Path

namespace Discover

open DocComments.Path (order same_iff order_eq_eq_iff)

/-! ## Paths that stand once -/

/-- Paths are left out, and nothing else. -/
theorem dedup_sublist (paths : List Path) : (dedup paths).Sublist paths := by
  fun_induction dedup paths with
  | case1 => exact List.Sublist.refl _
  | case2 p => exact List.Sublist.refl _
  | case3 p q rest hsame ih => exact ih.trans ((List.sublist_cons_self q rest).cons_cons p)
  | case4 p q rest hsame ih => exact ih.cons_cons p

/-- A path that is left out is the same as one that stays. -/
theorem exists_same_mem_dedup {p : Path} {paths : List Path} (hp : p ∈ paths) :
    ∃ q ∈ dedup paths, p.same q = true := by
  fun_induction dedup paths generalizing p with
  | case1 => cases hp
  | case2 first =>
    exact ⟨p, hp, same_iff.mpr rfl⟩
  | case3 first second rest hsame ih =>
    rcases List.mem_cons.mp hp with rfl | hp
    · exact ih List.mem_cons_self
    · rcases List.mem_cons.mp hp with rfl | hp
      · obtain ⟨q, hq, hfirst⟩ := ih List.mem_cons_self
        refine ⟨q, hq, same_iff.mpr ?_⟩
        exact (same_iff.mp hsame).symm.trans (same_iff.mp hfirst)
      · exact ih (List.mem_cons_of_mem _ hp)
  | case4 first second rest hsame ih =>
    rcases List.mem_cons.mp hp with rfl | hp
    · exact ⟨p, List.mem_cons_self, same_iff.mpr rfl⟩
    · obtain ⟨q, hq, hpq⟩ := ih hp
      exact ⟨q, List.mem_cons_of_mem _ hq, hpq⟩

/-- Of paths in order, one of each kind is left, still in order. -/
theorem pairwise_dedup {paths : List Path}
    (h : paths.Pairwise fun p q => (order p q).isLE = true) :
    (dedup paths).Pairwise fun p q => order p q = .lt := by
  fun_induction dedup paths with
  | case1 => exact List.Pairwise.nil
  | case2 p => exact List.pairwise_singleton _ p
  | case3 p q rest hsame ih =>
    exact ih (h.sublist ((List.sublist_cons_self q rest).cons_cons p))
  | case4 p q rest hsame ih =>
    obtain ⟨hp, hrest⟩ := List.pairwise_cons.mp h
    refine List.pairwise_cons.mpr ⟨fun r hr => ?_, ih hrest⟩
    -- the next path is greater, and everything behind it is not less than it
    have hpq : order p q = .lt :=
      Path.lt_of_isLE_of_ne (hp q List.mem_cons_self) fun heq => hsame (same_iff.mpr heq)
    rcases List.mem_cons.mp ((dedup_sublist _).mem hr) with rfl | hmem
    · exact hpq
    · exact TransCmp.lt_of_lt_of_isLE hpq ((List.pairwise_cons.mp hrest).1 r hmem)

/-! ## Paths in order -/

/-- A sorted list increases strictly. -/
theorem pairwise_sorted (paths : List Path) :
    (sorted paths).Pairwise fun p q => order p q = .lt := by
  refine pairwise_dedup ((List.pairwise_mergeSort ?_ ?_ paths).imp ?_)
  · intro p q r hpq hqr
    simp only [bne_iff_ne, ← Ordering.isLE_iff_ne_gt] at hpq hqr ⊢
    exact TransCmp.isLE_trans hpq hqr
  · intro p q
    have hswap : order q p = (order p q).swap := OrientedCmp.eq_swap
    rw [hswap]
    cases order p q <;> rfl
  · intro p q hpq
    exact Ordering.isLE_iff_ne_gt.mpr (bne_iff_ne.mp hpq)

theorem mem_of_mem_sorted {p : Path} {paths : List Path} (h : p ∈ sorted paths) : p ∈ paths :=
  List.mem_mergeSort.mp ((dedup_sublist _).mem h)

theorem exists_same_mem_sorted {p : Path} {paths : List Path} (h : p ∈ paths) :
    ∃ q ∈ sorted paths, p.same q = true :=
  exists_same_mem_dedup (List.mem_mergeSort.mpr h)

theorem mem_map_components_sorted {cs : List Path.Component} {paths : List Path} :
    cs ∈ (sorted paths).map Path.components ↔ cs ∈ paths.map Path.components := by
  rw [List.mem_map, List.mem_map]
  constructor
  · rintro ⟨p, hp, rfl⟩
    exact ⟨p, mem_of_mem_sorted hp, rfl⟩
  · rintro ⟨p, hp, rfl⟩
    obtain ⟨q, hq, hsame⟩ := exists_same_mem_sorted hp
    exact ⟨q, hq, (same_iff.mp hsame).symm⟩

/-- What a sorted list names depends only on what the list names that it is made of, not on how
often or in which order. -/
theorem map_components_sorted_congr {paths others : List Path}
    (h : ∀ cs, cs ∈ paths.map Path.components ↔ cs ∈ others.map Path.components) :
    (sorted paths).map Path.components = (sorted others).map Path.components := by
  have hincreasing : ∀ ps : List Path, ((sorted ps).map Path.components).Pairwise
      fun a b => Path.compareComponents a b = .lt :=
    fun ps => List.pairwise_map.mpr (pairwise_sorted ps)
  have hnodup : ∀ ps : List Path, ((sorted ps).map Path.components).Nodup := by
    intro ps
    refine (hincreasing ps).imp fun {a b} hab heq => ?_
    have hself : Path.compareComponents b b = .eq := ReflCmp.compare_self
    rw [heq, hself] at hab
    cases hab
  refine List.Perm.eq_of_pairwise ?_ (hincreasing paths) (hincreasing others) ?_
  · intro a b _ _ hab hba
    -- nothing is less than something that is less than it
    exact absurd hba (OrientedCmp.not_lt_of_lt hab)
  · refine (List.perm_ext_iff_of_nodup (hnodup paths) (hnodup others)).mpr fun cs => ?_
    rw [mem_map_components_sorted, mem_map_components_sorted, h]

end Discover

end DocComments
