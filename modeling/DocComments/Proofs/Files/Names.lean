import DocComments.Proofs.Files.Tree

/-!
# Names in paths

The names that a path leads to can be read off the path, whatever the tree, if it leads anywhere:
each step up takes back the last name (`FileEntry.locate_eq_resolve`). A name that is joined to a
path is its last component (`Path.components_join`), and leads from what the path leads to into it
(`FileEntry.locateFrom_pieces_join`).
-/

set_option autoImplicit false

namespace DocComments

namespace Path

/-! ## Steps -/

/-- Where a component leads from the directory behind some names, if nothing is in the way. -/
def Component.follow (names : List Text) : Component → List Text
  | .root => names
  | .here => names
  | .up => names.dropLast
  | .entry name => names ++ [name]

/-- The names that a path leads to, if it leads anywhere. -/
def resolve (p : Path) : List Text := p.components.foldl Component.follow []

theorem foldl_follow_map_entry (here names : List Text) :
    (names.map Component.entry).foldl Component.follow here = here ++ names := by
  induction names generalizing here with
  | nil => exact (List.append_nil here).symm
  | cons name names ih =>
    rw [List.map_cons, List.foldl_cons, ih]
    exact List.append_assoc _ _ _

theorem step?_ne {piece : Text} {c : Component} (h : step? piece = some c) :
    c ≠ .root ∧ c ≠ .here := by
  unfold step? at h
  split at h
  · cases h
  · split at h <;> cases h <;> simp

/-- Without a step up every step is an entry. -/
theorem filterMap_step?_of_up_not_mem {ps : List Text} (hup : ['.', '.'] ∉ ps) :
    ps.filterMap step? = (ps.filter fun piece => (step? piece).isSome).map .entry := by
  induction ps with
  | nil => rfl
  | cons piece ps ih =>
    have hpiece : piece ≠ ['.', '.'] := fun heq => hup (heq ▸ List.mem_cons_self)
    have hps := ih fun hmem => hup (List.mem_cons_of_mem _ hmem)
    by_cases hnone : piece = [] ∨ piece = ['.']
    · have hstep : step? piece = none := if_pos hnone
      rw [List.filter_cons_of_neg (by simp [hstep]), List.filterMap_cons_none hstep, hps]
    · have hstep : step? piece = some (.entry piece) := by simp [step?, hnone, hpiece]
      rw [List.filter_cons_of_pos (by simp [hstep]), List.map_cons,
        List.filterMap_cons_some hstep, hps]

/-- A path is where it begins, if that is the top or a dot, and its steps behind it. -/
theorem exists_components_eq (p : Path) :
    ∃ start : List Component, p.components = start ++ (pieces p).filterMap step? ∧
      (start = [.root] ∧ isAbsolute p = true ∨ start = [.here] ∨ start = []) := by
  obtain ⟨first, more, hpieces⟩ := List.exists_cons_of_ne_nil (pieces_ne_nil p)
  unfold components
  rw [hpieces]
  dsimp only
  split
  · next habsolute =>
    -- the piece in front of the first slash is empty, and no step
    have hfirst : first = [] := by
      cases p with
      | nil => cases habsolute
      | cons c rest =>
        obtain rfl : c = '/' := by simpa [isAbsolute] using habsolute
        exact (List.cons.inj hpieces).1.symm
    exact ⟨[.root], by rw [hfirst]; rfl, .inl ⟨rfl, habsolute⟩⟩
  · split
    · next hfirst => exact ⟨[.here], by rw [hfirst]; rfl, .inr (.inl rfl)⟩
    · refine ⟨[], ?_, .inr (.inr rfl)⟩
      cases hstep : step? first with
      | none => rw [List.filterMap_cons_none hstep]; rfl
      | some c => rw [List.filterMap_cons_some hstep]; rfl

/-- The components of a path that are no beginning are its steps. -/
theorem filter_components (p : Path) :
    p.components.filter (fun c => c ≠ .root ∧ c ≠ .here) = (pieces p).filterMap step? := by
  have hsteps : ((pieces p).filterMap step?).filter (fun c => c ≠ .root ∧ c ≠ .here)
      = (pieces p).filterMap step? := by
    refine List.filter_eq_self.mpr fun c hc => ?_
    obtain ⟨piece, -, hstep⟩ := List.mem_filterMap.mp hc
    exact decide_eq_true (step?_ne hstep)
  obtain ⟨start, hcomponents, hstart⟩ := exists_components_eq p
  rw [hcomponents, List.filter_append, hsteps]
  rcases hstart with ⟨rfl, -⟩ | rfl | rfl <;> rfl

/-- Where a path begins is no step. -/
theorem resolve_eq_foldl_pieces (p : Path) :
    p.resolve = ((pieces p).filterMap step?).foldl Component.follow [] := by
  rw [← filter_components, List.foldl_filter, resolve]
  congr 1
  funext names c
  cases c <;> rfl

end Path

/-- The names that pieces lead to are those of their steps. -/
theorem FileEntry.eq_foldl_of_locateFrom {top : FileEntry} {here pieces names : List Text}
    (h : locateFrom top here pieces = .ok names) :
    names = (pieces.filterMap Path.step?).foldl Path.Component.follow here := by
  -- a piece that leads on is no step, a step up or an entry, and the tree decides no more than that
  induction pieces generalizing here with
  | nil => exact (Except.ok.inj h).symm
  | cons piece pieces ih =>
    rw [locateFrom] at h
    split at h
    · split at h
      · next hnone =>
        rw [ih h, List.filterMap_cons_none (by simp [Path.step?, hnone])]
      · next hsome =>
        split at h
        · next hup =>
          split at h
          · cases h
          · rw [ih h, List.filterMap_cons_some (b := .up) (by simp [Path.step?, hup])]
            rfl
        · next hname =>
          split at h
          · cases h
          · split at h
            · rw [ih h, List.filterMap_cons_some (b := .entry piece)
                (by simp [Path.step?, hsome, hname])]
              rfl
            · cases h
    · cases h

/-- A path leads to the names that it resolves to, if it leads anywhere. -/
theorem FileEntry.locate_eq_resolve {top : FileEntry} {p : Path} {names : List Text}
    (h : top.locate p = .ok names) : names = p.resolve := by
  unfold locate at h
  split at h
  · cases h
  · rw [Path.resolve_eq_foldl_pieces]
    exact eq_foldl_of_locateFrom h

namespace Path

/-! ## Pieces -/

theorem pieces_cons_of_ne {c : Char} {t first : Text} {more : List Text} (hc : c ≠ '/')
    (h : pieces t = first :: more) : pieces (c :: t) = (c :: first) :: more := by
  rw [pieces, h]
  exact hc

theorem pieces_of_not_mem {t : Text} (h : '/' ∉ t) : pieces t = [t] := by
  induction t with
  | nil => rfl
  | cons c t ih =>
    obtain ⟨hc, ht⟩ := List.ne_and_not_mem_of_not_mem_cons h
    exact pieces_cons_of_ne hc.symm (ih ht)

theorem pieces_append_slash (s t : Text) : pieces (s ++ '/' :: t) = pieces s ++ pieces t := by
  induction s with
  | nil => rfl
  | cons c s ih =>
    by_cases hc : c = '/'
    · subst hc
      exact congrArg ([] :: ·) ih
    · obtain ⟨first, more, hs⟩ := List.exists_cons_of_ne_nil (pieces_ne_nil s)
      rw [pieces_cons_of_ne hc hs]
      exact pieces_cons_of_ne hc (ih.trans (congrArg (· ++ pieces t) hs))

/-! ## Names behind a path -/

/-- A directory can hold an entry of this name. -/
structure IsName (name : Text) : Prop where
  ne_nil : name ≠ []
  ne_here : name ≠ ['.']
  ne_up : name ≠ ['.', '.']
  slash_not_mem : '/' ∉ name
  zero_not_mem : '\x00' ∉ name
  isTooLong_eq : FileEntry.isTooLong name = false

section Join

variable {d : Path} {name : Text}

theorem IsName.step?_eq (h : IsName name) : step? name = some (.entry name) := by
  simp [step?, h.ne_nil, h.ne_here, h.ne_up]

/-- A name is joined to a path with a slash between them, unless there is one. -/
theorem exists_join_eq (hd : d ≠ []) (hname : '/' ∉ name) :
    ∃ front, join d name = front ++ '/' :: name ∧ (d = front ∨ d = front ++ ['/']) := by
  have hrelative : isAbsolute name = false := by
    cases name with
    | nil => rfl
    | cons c rest => simpa [isAbsolute] using (List.ne_of_not_mem_cons hname).symm
  unfold join
  rw [if_neg (by simp [hrelative])]
  split
  · next hlast =>
    obtain ⟨front, hfront⟩ := List.getLast?_eq_some_iff.mp (hlast.resolve_left hd)
    refine ⟨front, ?_, .inr hfront⟩
    rw [hfront, List.append_assoc]
    rfl
  · exact ⟨d, rfl, .inl rfl⟩

theorem prefix_join (hd : d ≠ []) (hname : '/' ∉ name) : d <+: join d name := by
  obtain ⟨front, hjoin, rfl | rfl⟩ := exists_join_eq hd hname
  · exact ⟨_, hjoin.symm⟩
  · exact ⟨name, by rw [hjoin, List.append_assoc]; rfl⟩

theorem join_ne_nil (hd : d ≠ []) (hname : '/' ∉ name) : join d name ≠ [] := by
  intro h
  exact hd (List.prefix_nil.mp (h ▸ prefix_join hd hname))

theorem isAbsolute_join (hd : d ≠ []) (hname : '/' ∉ name) :
    isAbsolute (join d name) = isAbsolute d := by
  obtain ⟨back, hback⟩ := prefix_join hd hname
  obtain ⟨c, rest, rfl⟩ := List.exists_cons_of_ne_nil hd
  rw [← hback]
  rfl

/-- The pieces of a path with a name joined to it. An empty last piece of the path is not among
them. -/
theorem exists_pieces_join (hd : d ≠ []) (hname : '/' ∉ name) :
    ∃ first more, pieces (join d name) = first :: (more ++ [name]) ∧
      (pieces d = first :: more ∨ pieces d = first :: (more ++ [[]])) := by
  obtain ⟨front, hjoin, hfront⟩ := exists_join_eq hd hname
  obtain ⟨first, more, hpieces⟩ := List.exists_cons_of_ne_nil (pieces_ne_nil front)
  refine ⟨first, more, ?_, ?_⟩
  · rw [hjoin, pieces_append_slash, pieces_of_not_mem hname, hpieces]
    rfl
  · rcases hfront with rfl | rfl
    · exact .inl hpieces
    · refine .inr ?_
      rw [pieces_append_slash, hpieces]
      rfl

/-- A name that is joined to a path is its last component. -/
theorem components_join (hd : d ≠ []) (hname : IsName name) :
    (join d name).components = d.components ++ [.entry name] := by
  obtain ⟨first, more, hjoin, hpieces⟩ := exists_pieces_join hd hname.slash_not_mem
  have hlast : (more ++ [name]).filterMap step? = more.filterMap step? ++ [.entry name] := by
    rw [List.filterMap_append, List.filterMap_cons_some hname.step?_eq, List.filterMap_nil]
  have hmore : ∃ rest, pieces d = first :: rest ∧ rest.filterMap step? = more.filterMap step? := by
    rcases hpieces with h | h
    · exact ⟨more, h, rfl⟩
    · exact ⟨more ++ [[]], h, by rw [List.filterMap_append]; exact List.append_nil _⟩
  obtain ⟨rest, hrest, hsteps⟩ := hmore
  unfold components
  rw [hjoin, hrest]
  dsimp only
  rw [isAbsolute_join hd hname.slash_not_mem, hlast, hsteps]
  split
  · rfl
  · split
    · rfl
    · exact (List.append_assoc _ _ _).symm

theorem components_foldl_join (hd : d ≠ []) {names : List Text}
    (hnames : ∀ name ∈ names, IsName name) :
    (names.foldl join d).components = d.components ++ names.map .entry := by
  induction names generalizing d with
  | nil => exact (List.append_nil _).symm
  | cons name names ih =>
    obtain ⟨hname, hnames⟩ := List.forall_mem_cons.mp hnames
    rw [List.foldl_cons, ih (join_ne_nil hd hname.slash_not_mem) hnames, components_join hd hname,
      List.append_assoc]
    rfl

end Join

end Path

namespace FileEntry

open DocComments.Path (IsName join pieces)

/-! ## Paths that lead somewhere -/

variable {d : Path} {name : Text}

/-- A path with nothing wrong in itself. -/
theorem fault?_eq_none_iff {p : Path} :
    fault? p = none ↔
      '\x00' ∉ p ∧ p ≠ [] ∧ Text.byteSize p ≤ pathLimit ∧ p.isAbsolute = false := by
  unfold fault?
  split
  · next h => simp_all
  · next hzero =>
    split
    · next h => simp [h]
    · next hne =>
      split
      · next h =>
        have : ¬ Text.byteSize p ≤ pathLimit := by omega
        simp [this]
      · next hshort =>
        have : Text.byteSize p ≤ pathLimit := by omega
        split
        · next h => split <;> simp [h]
        · next h => simp_all

/-- A name leads from what a path leads to into it, whether or not the path ends in a slash. -/
theorem locateFrom_pieces_join (top : FileEntry) (hd : d ≠ []) (hname : '/' ∉ name) :
    locateFrom top [] (pieces (join d name))
      = (locateFrom top [] (pieces d)).bind fun here => locateFrom top here [name] := by
  obtain ⟨first, more, hjoin, hpieces | hpieces⟩ := Path.exists_pieces_join hd hname
  · rw [hjoin, hpieces, ← List.cons_append, locateFrom_append]
  · rw [hjoin, hpieces, ← List.cons_append, ← List.cons_append, locateFrom_append,
      locateFrom_append]
    -- the empty piece asks for a directory, as the name does
    cases locateFrom top [] (first :: more) with
    | error e => rfl
    | ok here =>
      show locateFrom top here [name]
        = (locateFrom top here [[]]).bind fun here => locateFrom top here [name]
      by_cases hdirectory : (top.at? here).any isDirectory = true
      · have hempty : locateFrom top here [[]] = .ok here := by simp [locateFrom, hdirectory]
        rw [hempty]
        rfl
      · simp [locateFrom, hdirectory, Except.bind]

theorem locateFrom_pieces_foldl_join (top : FileEntry) (hd : d ≠ []) {names : List Text}
    (hnames : ∀ name ∈ names, IsName name) :
    locateFrom top [] (pieces (names.foldl join d))
      = (locateFrom top [] (pieces d)).bind fun here => locateFrom top here names := by
  induction names generalizing d with
  | nil =>
    rw [List.foldl_nil]
    cases locateFrom top [] (pieces d) <;> rfl
  | cons name names ih =>
    obtain ⟨hname, hnames⟩ := List.forall_mem_cons.mp hnames
    have hslash := hname.slash_not_mem
    rw [List.foldl_cons, ih (Path.join_ne_nil hd hslash) hnames,
      locateFrom_pieces_join top hd hslash]
    cases locateFrom top [] (pieces d) with
    | error e => rfl
    | ok here => exact (locateFrom_append top here [name] names).symm

end FileEntry

end DocComments
