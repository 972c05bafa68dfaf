import DocComments.Files.Entry

/-!
# Writing into directory trees

A write to a file that is there puts new bytes where its names lead. Every path leads where it led
before (`FileEntry.locate_put`), and what it denotes is another entry only if it leads to the same
names (`FileEntry.find_put`).
-/

set_option autoImplicit false

namespace DocComments

theorem Path.pieces_ne_nil (p : Path) : pieces p ≠ [] := by
  unfold pieces
  split
  · simp
  · simp
  · split <;> simp

namespace FileEntry

/-! ## Entries under names -/

theorem at?_append (e : FileEntry) (front back : List Text) :
    e.at? (front ++ back) = (e.at? front).bind fun d => d.at? back := by
  induction front generalizing e with
  | nil => rfl
  | cons name front ih =>
    rw [List.cons_append, at?, at?, Option.bind_assoc]
    exact congrArg _ (funext fun d => ih d)

/-- What is above of something is a directory. -/
theorem isDirectory_dropLast {e : FileEntry} {names : List Text} (hnames : names ≠ [])
    {p : FileEntry → Bool} (h : (e.at? names).any p = true) :
    (e.at? names.dropLast).any isDirectory = true := by
  rw [← List.dropLast_concat_getLast hnames, at?_append] at h
  cases habove : e.at? names.dropLast with
  | none =>
    rw [habove] at h
    cases h
  | some d =>
    rw [habove, Option.bind_some] at h
    cases d with
    | file bytes => cases h
    | directory entries => rfl

theorem lookup_putEntry (name other : Text) (e : FileEntry) (entries : List (Text × FileEntry)) :
    (putEntry name e entries).lookup other
      = if other = name then some e else entries.lookup other := by
  have hbeq : ∀ {key : Text}, other ≠ key → (other == key) = false := beq_eq_false_iff_ne.mpr
  induction entries with
  | nil =>
    by_cases h : other = name
    · simp [putEntry, h]
    · simp [putEntry, List.lookup_cons, hbeq h, h]
  | cons entry entries ih =>
    obtain ⟨first, old⟩ := entry
    unfold putEntry
    by_cases hfirst : first = name
    · rw [if_pos hfirst, List.lookup_cons, List.lookup_cons, hfirst]
      by_cases h : other = name
      · simp [h]
      · simp [hbeq h, h]
    · rw [if_neg hfirst, List.lookup_cons, List.lookup_cons, ih]
      by_cases h : other = first
      · subst h
        simp [hfirst]
      · simp [hbeq h]

/-- The names where something is put lead to it. -/
theorem at?_put_self (new e : FileEntry) (names : List Text) :
    (put new names e).at? names = some new := by
  induction names generalizing e with
  | nil => rfl
  | cons name names ih =>
    unfold put
    dsimp only
    rw [at?, child?, lookup_putEntry, if_pos rfl, Option.bind_some, ih]

/-! ## Bytes that are put in the place of others -/

/-- A function of entries that does not look into directories. -/
def Shallow {α : Type} (f : FileEntry → α) : Prop :=
  ∀ entries others, f (directory entries) = f (directory others)

theorem shallow_isDirectory : Shallow isDirectory := fun _ _ => rfl

section Put

variable {α : Type} {top : FileEntry} {names : List Text} {old : ByteArray}

/-- Other names than those of the file lead to what they led to, but for what is in directories. -/
theorem at?_put_of_ne {f : FileEntry → α} (hf : Shallow f) (new : ByteArray)
    (h : top.at? names = some (file old)) {other : List Text} (hother : other ≠ names) :
    ((put (file new) names top).at? other).map f = (top.at? other).map f := by
  -- below the first name both trees are those of the induction, beside it they are the same
  induction names generalizing top other with
  | nil =>
    obtain rfl : top = file old := Option.some.inj h
    cases other with
    | nil => exact absurd rfl hother
    | cons name other => rfl
  | cons name names ih =>
    obtain ⟨d, hchild, hd⟩ := Option.bind_eq_some_iff.mp h
    cases top with
    | file bytes => cases hchild
    | directory entries =>
      have hlookup : entries.lookup name = some d := hchild
      have hput : put (file new) (name :: names) (directory entries)
          = directory (putEntry name (put (file new) names d) entries) := by
        rw [put, hlookup]
        rfl
      rw [hput]
      cases other with
      | nil => exact congrArg some (hf _ _)
      | cons first other =>
        rw [at?, at?, child?, lookup_putEntry, child?]
        by_cases hfirst : first = name
        · subst hfirst
          rw [if_pos rfl, hlookup]
          exact ih hd fun heq => hother (congrArg (first :: ·) heq)
        · rw [if_neg hfirst]

/-- All names lead to a file or to a directory as before. -/
theorem kind_put (new : ByteArray) (h : top.at? names = some (file old)) (other : List Text) :
    ((put (file new) names top).at? other).map isDirectory = (top.at? other).map isDirectory := by
  by_cases hother : other = names
  · rw [hother, at?_put_self, h]
    rfl
  · exact at?_put_of_ne shallow_isDirectory new h hother

end Put

/-! ## Following paths -/

/-- A path leads through directories, whatever is in the files. -/
theorem locateFrom_congr {top other : FileEntry}
    (h : ∀ names, (top.at? names).map isDirectory = (other.at? names).map isDirectory)
    (here pieces : List Text) : locateFrom top here pieces = locateFrom other here pieces := by
  -- a path asks only what is there and what of it is a directory
  have hany : ∀ names, (top.at? names).any isDirectory = (other.at? names).any isDirectory := by
    intro names
    have hkind := h names
    cases htop : top.at? names <;> cases hother : other.at? names <;> simp_all
  have hsome : ∀ names, (top.at? names).isSome = (other.at? names).isSome := by
    intro names
    rw [← Option.isSome_map, h names, Option.isSome_map]
  induction pieces generalizing here with
  | nil => rfl
  | cons piece pieces ih =>
    simp only [locateFrom, hany, hsome, ih]

section Put

variable {α : Type} {top : FileEntry} {names : List Text} {old : ByteArray}

/-- Every path leads where it led. -/
theorem locate_put (new : ByteArray) (h : top.at? names = some (file old)) (p : Path) :
    locate (put (file new) names top) p = locate top p := by
  unfold locate
  rw [locateFrom_congr (kind_put new h)]

/-- A path that leads to the names of the file denotes the new bytes. -/
theorem find_put_self (new : ByteArray) (h : top.at? names = some (file old)) {p : Path}
    (hp : locate top p = .ok names) : find (put (file new) names top) p = .ok (file new) := by
  unfold find
  rw [locate_put new h, hp]
  dsimp only
  rw [at?_put_self]
  rfl

/-- What another path denotes stays, but for what is in directories. -/
theorem find_put_of_ne {f : FileEntry → α} (hf : Shallow f) (new : ByteArray)
    (h : top.at? names = some (file old)) {p : Path} (hp : locate top p ≠ .ok names) :
    (find (put (file new) names top) p).map f = (find top p).map f := by
  unfold find
  rw [locate_put new h]
  cases hlocate : locate top p with
  | error e => rfl
  | ok there =>
    have hother : there ≠ names := fun heq => hp (hlocate.trans (congrArg Except.ok heq))
    have hat := at?_put_of_ne hf new h hother
    dsimp only
    cases hput : (put (file new) names top).at? there <;> cases htop : top.at? there <;>
      simp_all [Except.map]

/-! ## Writing -/

theorem locateFrom_append (top : FileEntry) (here front back : List Text) :
    locateFrom top here (front ++ back)
      = (locateFrom top here front).bind fun there => locateFrom top there back := by
  induction front generalizing here with
  | nil => rfl
  | cons piece front ih =>
    rw [List.cons_append, locateFrom, locateFrom]
    split
    · split
      · exact ih here
      · split
        · split
          · rfl
          · exact ih _
        · split
          · rfl
          · split
            · exact ih _
            · rfl
    · rfl

/-- The last piece of a path to a file is its name in a directory. -/
theorem locateFrom_file {here : List Text} {piece : Text}
    (hpath : locateFrom top here [piece] = .ok names) (h : top.at? names = some (file old)) :
    (top.at? here).any isDirectory = true ∧
      ¬ (piece = [] ∨ piece = ['.'] ∨ piece = ['.', '.']) ∧ isTooLong piece = false ∧
      names = here ++ [piece] := by
  have hdirectory : ∀ {ns : List Text}, (top.at? ns).any isDirectory = true → ns ≠ names := by
    rintro ns hns rfl
    rw [h] at hns
    cases hns
  rw [locateFrom] at hpath
  split at hpath
  · next hhere =>
    refine ⟨hhere, ?_⟩
    split at hpath
    · exact absurd (Except.ok.inj hpath) (hdirectory hhere)
    · next hplain =>
      split at hpath
      · -- the directory above is a directory, too
        split at hpath
        · cases hpath
        · next hbelow =>
          refine absurd (Except.ok.inj hpath) (hdirectory ?_)
          exact isDirectory_dropLast hbelow hhere
      · next hup =>
        split at hpath
        · cases hpath
        · next hshort =>
          split at hpath
          · refine ⟨fun hnone => ?_, Bool.eq_false_iff.mpr hshort, (Except.ok.inj hpath).symm⟩
            rcases hnone with hnone | hnone | hnone
            · exact hplain (.inl hnone)
            · exact hplain (.inr hnone)
            · exact hup hnone
          · cases hpath
  · cases hpath

theorem exists_names_of_find {p : Path} {e : FileEntry} (h : find top p = .ok e) :
    ∃ names, locate top p = .ok names ∧ top.at? names = some e := by
  unfold find at h
  cases hlocate : locate top p with
  | error error =>
    rw [hlocate] at h
    cases h
  | ok names =>
    rw [hlocate] at h
    dsimp only at h
    cases hat : top.at? names with
    | none =>
      rw [hat] at h
      cases h
    | some d =>
      rw [hat] at h
      exact ⟨names, rfl, hat.trans (congrArg some (Except.ok.inj h))⟩

/-- A write to a file that is there puts the bytes where its names lead. -/
theorem write_of_locate {p : Path} (hp : locate top p = .ok names)
    (h : top.at? names = some (file old)) (bytes : ByteArray) :
    write top p bytes = .ok (put (file bytes) names top) := by
  unfold locate at hp
  unfold write
  cases hfault : fault? p with
  | some e =>
    rw [hfault] at hp
    cases hp
  | none =>
    rw [hfault] at hp
    have hpieces : Path.pieces p = (Path.pieces p).dropLast ++ [(Path.pieces p).getLastD []] := by
      rw [List.getLastD_eq_getLast?, List.getLast?_eq_some_getLast (Path.pieces_ne_nil p)]
      exact (List.dropLast_concat_getLast (Path.pieces_ne_nil p)).symm
    dsimp only at hp ⊢
    generalize (Path.pieces p).dropLast = front at hpieces ⊢
    generalize (Path.pieces p).getLastD [] = last at hpieces ⊢
    rw [hpieces, locateFrom_append] at hp
    obtain ⟨here, hfront, hlast⟩ : ∃ here, locateFrom top [] front = .ok here ∧
        locateFrom top here [last] = .ok names := by
      cases hfront : locateFrom top [] front with
      | error e =>
        rw [hfront] at hp
        cases hp
      | ok here => exact ⟨here, rfl, by rwa [hfront] at hp⟩
    obtain ⟨hdirectory, hname, hshort, rfl⟩ := locateFrom_file hlast h
    rw [hfront]
    dsimp only
    rw [hdirectory, if_neg (by simp), if_neg hname, if_neg (by simp [hshort]), h,
      if_neg (by simp [isDirectory])]

end Put

end FileEntry

end DocComments
