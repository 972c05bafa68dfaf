import DocComments.Proofs.Files.Discover
import DocComments.Proofs.Files.Names
import Mathlib.Data.List.Pairwise
import Mathlib.Data.List.Permutation

/-!
# Files that are returned twice

In a tree without links a path that discovery returns leads to the names that it resolves to
(`Discover.Names.locate_eq`). Two of them denote the same file exactly if they resolve to the same
names. Paths are told apart by their components, so that this happens where one of them begins with
a dot and the other does not, or where one of them steps up (`discover_repeats_iff`).
-/

set_option autoImplicit false

namespace DocComments

namespace FileEntry

open DocComments.Path (IsName)

/-! ## Trees with names -/

/-- Every directory of the tree holds entries of different names. -/
inductive WellNamed : FileEntry → Prop where
  | file (bytes : ByteArray) : WellNamed (file bytes)
  | directory {entries : List (Text × FileEntry)} (hdistinct : (entries.map Prod.fst).Nodup)
      (hnames : ∀ entry ∈ entries, IsName entry.1) (hbelow : ∀ entry ∈ entries, WellNamed entry.2) :
      WellNamed (directory entries)

/-- The two paths lead to the same names. -/
def SameFile (top : FileEntry) (p q : Path) : Prop :=
  ∃ names, top.locate p = .ok names ∧ top.locate q = .ok names

theorem SameFile.symm {top : FileEntry} {p q : Path} (h : SameFile top p q) : SameFile top q p :=
  h.imp fun _ => And.symm

theorem SameFile.resolve_eq {top : FileEntry} {p q : Path} (h : SameFile top p q) :
    p.resolve = q.resolve := by
  obtain ⟨names, hp, hq⟩ := h
  exact (locate_eq_resolve hp).symm.trans (locate_eq_resolve hq)

section WellNamed

variable {top e : FileEntry} {entries : List (Text × FileEntry)} {name : Text}
  {here names : List Text}

/-- An entry is found under its name. -/
theorem lookup_eq_some_of_mem (hdistinct : (entries.map Prod.fst).Nodup)
    (h : (name, e) ∈ entries) : entries.lookup name = some e := by
  induction entries with
  | nil => cases h
  | cons entry entries ih =>
    obtain ⟨hfirst, hrest⟩ := List.nodup_cons.mp hdistinct
    rcases List.mem_cons.mp h with rfl | h
    · exact List.lookup_cons_self
    · have hne : (name == entry.1) = false :=
        beq_eq_false_iff_ne.mpr fun heq => hfirst (heq ▸ List.mem_map_of_mem (f := Prod.fst) h)
      rw [List.lookup_cons, hne]
      exact ih hrest h

theorem WellNamed.isName_of_hasFile (h : e.WellNamed) (hfile : e.HasFile names) :
    ∀ name ∈ names, IsName name := by
  induction hfile with
  | here bytes => exact fun _ hmem => absurd hmem List.not_mem_nil
  | behind hentry _ ih =>
    cases h with
    | directory hdistinct hnames hbelow =>
      exact List.forall_mem_cons.mpr ⟨hnames _ hentry, ih (hbelow _ hentry)⟩

/-- The names behind which a tree holds a file lead to it. -/
theorem WellNamed.exists_at?_of_hasFile (h : e.WellNamed) (hfile : e.HasFile names) :
    ∃ bytes, e.at? names = some (.file bytes) := by
  induction hfile with
  | here bytes => exact ⟨bytes, rfl⟩
  | behind hentry _ ih =>
    cases h with
    | directory hdistinct hnames hbelow =>
      obtain ⟨bytes, hat⟩ := ih (hbelow _ hentry)
      refine ⟨bytes, ?_⟩
      rw [at?, child?, lookup_eq_some_of_mem hdistinct hentry]
      exact hat

theorem WellNamed.of_at? (h : top.WellNamed) (hat : top.at? names = some e) : e.WellNamed := by
  induction names generalizing top with
  | nil => exact Option.some.inj hat ▸ h
  | cons name names ih =>
    obtain ⟨d, hchild, hd⟩ := Option.bind_eq_some_iff.mp hat
    cases h with
    | file bytes => cases hchild
    | directory hdistinct hnames hbelow =>
      obtain ⟨front, back, rfl, -⟩ := List.lookup_eq_some_iff.mp hchild
      exact ih (hbelow (name, d) (by simp)) hd

/-- From a directory on, the names of a file in it lead to the file. -/
theorem WellNamed.locateFrom_eq (h : e.WellNamed) (hhere : top.at? here = some e)
    (hfile : e.HasFile names) : locateFrom top here names = .ok (here ++ names) := by
  induction hfile generalizing here with
  | here bytes => exact congrArg Except.ok (List.append_nil here).symm
  | @behind entries name d names hentry _ ih =>
    cases h with
    | directory hdistinct hnames hbelow =>
      have hname := hnames _ hentry
      have hnext : top.at? (here ++ [name]) = some d := by
        rw [at?_append, hhere, Option.bind_some, at?, child?,
          lookup_eq_some_of_mem hdistinct hentry]
        rfl
      have hdirectory : (FileEntry.directory entries).isDirectory = true := rfl
      rw [locateFrom, hhere, Option.any_some, if_pos hdirectory,
        if_neg (by simp [hname.ne_nil, hname.ne_here]), if_neg hname.ne_up,
        if_neg (by simp [hname.isTooLong_eq]), hnext, Option.isSome_some, if_pos rfl,
        ih (hbelow _ hentry) hnext, List.append_assoc]
      rfl

end WellNamed

end FileEntry

namespace Path

/-! ## Names behind a directory -/

theorem mem_join {d name : Path} {c : Char} (h : c ∈ join d name) :
    c ∈ d ∨ c = '/' ∨ c ∈ name := by
  unfold join at h
  split at h
  · exact .inr (.inr h)
  · split at h
    · exact (List.mem_append.mp h).imp_right .inr
    · exact (List.mem_append.mp h).imp_right List.mem_cons.mp

/-- A path with names joined to it has nothing wrong in itself but perhaps its size, as the path
in front of them. -/
theorem foldl_join_sound {d : Path} {names : List Text} (hnames : ∀ name ∈ names, IsName name)
    (hd : '\x00' ∉ d ∧ d ≠ [] ∧ isAbsolute d = false) :
    '\x00' ∉ names.foldl join d ∧ names.foldl join d ≠ [] ∧
      isAbsolute (names.foldl join d) = false := by
  induction names generalizing d with
  | nil => exact hd
  | cons name names ih =>
    obtain ⟨hzero, hne, hrelative⟩ := hd
    obtain ⟨hname, hnames⟩ := List.forall_mem_cons.mp hnames
    refine ih hnames ⟨fun hmem => ?_, join_ne_nil hne hname.slash_not_mem, ?_⟩
    · rcases mem_join hmem with hmem | hslash | hmem
      · exact hzero hmem
      · exact absurd hslash (by decide)
      · exact hname.zero_not_mem hmem
    · rw [isAbsolute_join hne hname.slash_not_mem, hrelative]

/-! ## Paths that resolve to the same names -/

/-- A relative path is its steps, perhaps with a dot in front. -/
theorem components_eq_cons_or_eq {p : Path} (hrelative : isAbsolute p = false) :
    p.components = .here :: (pieces p).filterMap step? ∨
      p.components = (pieces p).filterMap step? := by
  obtain ⟨start, hcomponents, ⟨-, habsolute⟩ | rfl | rfl⟩ := exists_components_eq p
  · rw [habsolute] at hrelative
    cases hrelative
  · exact .inl hcomponents
  · exact .inr hcomponents

/-- Steps without a step up are the names that the path resolves to. -/
theorem steps_eq_map_entry {p : Path} (hup : .up ∉ p.components) :
    (pieces p).filterMap step? = p.resolve.map .entry := by
  have hentries : ∀ cs : List Component, (∀ c ∈ cs, (c ≠ .root ∧ c ≠ .here) ∧ c ≠ .up) →
      cs = (cs.foldl Component.follow []).map .entry := by
    intro cs hcs
    have hnames : ∃ names : List Text, cs = names.map .entry := by
      induction cs with
      | nil => exact ⟨[], rfl⟩
      | cons c cs ih =>
        obtain ⟨hc, hcs⟩ := List.forall_mem_cons.mp hcs
        obtain ⟨names, rfl⟩ := ih hcs
        cases c with
        | root => exact absurd rfl hc.1.1
        | here => exact absurd rfl hc.1.2
        | up => exact absurd rfl hc.2
        | entry name => exact ⟨name :: names, rfl⟩
    obtain ⟨names, rfl⟩ := hnames
    rw [foldl_follow_map_entry, List.nil_append]
  rw [resolve_eq_foldl_pieces]
  refine hentries _ fun c hc => ?_
  rw [← filter_components, List.mem_filter, decide_eq_true_eq] at hc
  exact ⟨hc.2, fun heq => hup (heq ▸ hc.1)⟩

/-- Relative paths without a step up that resolve to the same names are the same path, if both or
none of them begin with a dot. -/
theorem components_eq_of_resolve_eq {p q : Path} (hp : isAbsolute p = false)
    (hq : isAbsolute q = false) (hpup : .up ∉ p.components) (hqup : .up ∉ q.components)
    (hhere : .here ∈ p.components ↔ .here ∈ q.components) (h : p.resolve = q.resolve) :
    p.components = q.components := by
  have hplain : ∀ names : List Text, Component.here ∉ names.map .entry := by simp
  have hpcases := components_eq_cons_or_eq hp
  have hqcases := components_eq_cons_or_eq hq
  rw [steps_eq_map_entry hpup] at hpcases
  rw [steps_eq_map_entry hqup, ← h] at hqcases
  rcases hpcases with hpeq | hpeq <;> rcases hqcases with hqeq | hqeq
  · rw [hpeq, hqeq]
  · rw [hpeq, hqeq] at hhere
    exact absurd (hhere.mp List.mem_cons_self) (hplain _)
  · rw [hpeq, hqeq] at hhere
    exact absurd (hhere.mpr List.mem_cons_self) (hplain _)
  · rw [hpeq, hqeq]

end Path

namespace Discover

open FileEntry (pathLimit)

variable {top : FileEntry} {inputs : List Path} {p inside : Path}

/-! ## Where paths lead that inputs name -/

theorem exists_locate_of_find {d : Path} {e : FileEntry} (h : top.find d = .ok e) :
    ∃ here, top.locate d = .ok here ∧ top.at? here = some e ∧ FileEntry.fault? d = none := by
  obtain ⟨here, hlocate, hat⟩ := FileEntry.exists_names_of_find h
  refine ⟨here, hlocate, hat, ?_⟩
  unfold FileEntry.locate at hlocate
  split at hlocate
  · cases hlocate
  · assumption

/-- A path that inputs name is an input with names joined to it, perhaps none. -/
theorem Names.exists_components (h : Names top inputs p inside) (htop : top.WellNamed) :
    p.isAbsolute = false ∧
      ∃ d ∈ inputs, ∃ names : List Text, p.components = d.components ++ names.map .entry := by
  cases h with
  | itself hinput hfind =>
    obtain ⟨here, -, -, hfault⟩ := exists_locate_of_find hfind
    obtain ⟨-, -, -, hrelative⟩ := FileEntry.fault?_eq_none_iff.mp hfault
    exact ⟨hrelative, p, hinput, [], (List.append_nil _).symm⟩
  | walked hinput hfind hfile hopen =>
    obtain ⟨here, -, hat, hfault⟩ := exists_locate_of_find hfind
    obtain ⟨hzero, hne, -, hrelative⟩ := FileEntry.fault?_eq_none_iff.mp hfault
    have hnames := (htop.of_at? hat).isName_of_hasFile hfile
    exact ⟨(Path.foldl_join_sound hnames ⟨hzero, hne, hrelative⟩).2.2, _, hinput, _,
      Path.components_foldl_join hne hnames⟩

/-- A path that inputs name leads to a file, unless the path is too long. -/
theorem Names.locate_eq (h : Names top inputs p inside) (htop : top.WellNamed)
    (hshort : Text.byteSize p ≤ pathLimit) :
    ∃ bytes, top.locate p = .ok p.resolve ∧ top.at? p.resolve = some (.file bytes) := by
  cases h with
  | @itself _ bytes hinput hfind =>
    obtain ⟨here, hlocate, hat, -⟩ := exists_locate_of_find hfind
    obtain rfl := FileEntry.locate_eq_resolve hlocate
    exact ⟨bytes, hlocate, hat⟩
  | @walked d entries names hinput hfind hfile hopen =>
    obtain ⟨here, hlocate, hat, hfault⟩ := exists_locate_of_find hfind
    obtain ⟨hzero, hne, -, hrelative⟩ := FileEntry.fault?_eq_none_iff.mp hfault
    have hdirectory := htop.of_at? hat
    have hnames := hdirectory.isName_of_hasFile hfile
    obtain ⟨hzero', hne', hrelative'⟩ := Path.foldl_join_sound hnames ⟨hzero, hne, hrelative⟩
    have hfault' := FileEntry.fault?_eq_none_iff.mpr ⟨hzero', hne', hshort, hrelative'⟩
    have hfrom : FileEntry.locateFrom top [] (Path.pieces d) = .ok here := by
      simpa [FileEntry.locate, hfault] using hlocate
    have hend : top.locate (names.foldl Path.join d) = .ok (here ++ names) := by
      unfold FileEntry.locate
      rw [hfault']
      dsimp only
      rw [FileEntry.locateFrom_pieces_foldl_join top hne hnames, hfrom]
      exact hdirectory.locateFrom_eq hat hfile
    obtain ⟨bytes, hbytes⟩ := hdirectory.exists_at?_of_hasFile hfile
    refine ⟨bytes, ?_⟩
    rw [← FileEntry.locate_eq_resolve hend]
    refine ⟨hend, ?_⟩
    rw [FileEntry.at?_append, hat]
    exact hbytes

theorem byteSize_le_of_locate {names : List Text} (h : top.locate p = .ok names) :
    Text.byteSize p ≤ pathLimit := by
  unfold FileEntry.locate at h
  split at h
  · cases h
  · next hfault => exact (FileEntry.fault?_eq_none_iff.mp hfault).2.2.1

end Discover

open Discover
open FileEntry (pathLimit SameFile)

/-- Each path that is returned leads to a file, if it is not too long for any use. No two of them
denote the same file exactly if no two of them resolve to the same names. So it is if no input steps
up and all inputs, or none of them, begin with a dot. -/
theorem discover_repeats_iff {top : FileEntry} {inputs paths : List Path} {glob : Option Text}
    (htop : top.WellNamed) (h : discover top inputs glob = .ok paths) :
    (∀ p ∈ paths, Text.byteSize p ≤ pathLimit →
      ∃ bytes, top.locate p = .ok p.resolve ∧ top.at? p.resolve = some (.file bytes)) ∧
    ((paths.Pairwise fun p q => ¬ SameFile top p q) ↔
      ∀ p ∈ paths, ∀ q ∈ paths, Text.byteSize p ≤ pathLimit → Text.byteSize q ≤ pathLimit →
        p.resolve = q.resolve → p = q) ∧
    ((∀ d ∈ inputs, .up ∉ d.components) →
      (∀ d ∈ inputs, .here ∈ d.components) ∨ (∀ d ∈ inputs, .here ∉ d.components) →
        paths.Pairwise fun p q => ¬ SameFile top p q) := by
  obtain ⟨hordered, hnames⟩ := pairwise_and_names_of_discover h
  have hleads : ∀ p ∈ paths, Text.byteSize p ≤ pathLimit →
      ∃ bytes, top.locate p = .ok p.resolve ∧ top.at? p.resolve = some (.file bytes) := by
    intro p hp hshort
    obtain ⟨inside, hp⟩ := hnames p hp
    exact hp.locate_eq htop hshort
  have hdiffer : paths.Pairwise fun p q => p.components ≠ q.components := by
    refine hordered.imp fun {p q} hlt heq => ?_
    rw [Path.order_eq_eq_iff.mpr heq] at hlt
    cases hlt
  refine ⟨hleads, ⟨fun hapart p hp q hq hpshort hqshort hresolve => ?_, fun honce => ?_⟩, ?_⟩
  · -- two paths that resolve to the same names would both lead to the file there
    by_contra hne
    obtain ⟨_, hplocate, -⟩ := hleads p hp hpshort
    obtain ⟨_, hqlocate, -⟩ := hleads q hq hqshort
    have hsymm : Std.Symm fun p q => ¬ SameFile top p q := ⟨fun p q hpq hqp => hpq hqp.symm⟩
    exact hapart.forall hp hq hne ⟨_, hplocate, hresolve ▸ hqlocate⟩
  · refine hdiffer.imp_of_mem fun {p q} hp hq hne hsame => hne ?_
    have hresolve := hsame.resolve_eq
    obtain ⟨_, hplocate, hqlocate⟩ := hsame
    rw [honce p hp q hq (byteSize_le_of_locate hplocate) (byteSize_le_of_locate hqlocate) hresolve]
  · intro hup hhere
    refine hdiffer.imp_of_mem fun {p q} hp hq hne hsame => hne ?_
    obtain ⟨_, hp⟩ := hnames p hp
    obtain ⟨_, hq⟩ := hnames q hq
    obtain ⟨hprelative, d, hd, pnames, hpcomponents⟩ := hp.exists_components htop
    obtain ⟨hqrelative, e, he, qnames, hqcomponents⟩ := hq.exists_components htop
    refine Path.components_eq_of_resolve_eq hprelative hqrelative ?_ ?_ ?_ hsame.resolve_eq
    · simpa [hpcomponents] using hup d hd
    · simpa [hqcomponents] using hup e he
    · -- only the inputs can begin with a dot
      simp only [hpcomponents, hqcomponents, List.mem_append, List.mem_map, reduceCtorEq, and_false,
        exists_false, or_false]
      rcases hhere with hall | hnone
      · exact iff_of_true (hall d hd) (hall e he)
      · exact iff_of_false (hnone d hd) (hnone e he)

theorem wellNamed_sampleTree : sampleTree.WellNamed := by
  have hnames : ∀ name ∈ ["src".toList, "e.cs".toList, "a.ts".toList, ".git".toList, "lib".toList,
      "c.ts".toList, "d.PY".toList], Path.IsName name := by
    simp only [List.forall_mem_cons]
    refine ⟨?_, ?_, ?_, ?_, ?_, ?_, ?_, List.forall_mem_nil _⟩ <;> constructor <;> decide
  have hfile : FileEntry.WellNamed (.file ⟨#[]⟩) := .file _
  have halone : ∀ name ∈ ["c.ts".toList, "d.PY".toList],
      FileEntry.WellNamed (.directory [(name, .file ⟨#[]⟩)]) := by
    intro name hname
    refine .directory (List.pairwise_singleton _ _) (List.forall_mem_singleton.mpr ?_)
      (List.forall_mem_singleton.mpr hfile)
    exact hnames name (by simp_all)
  have hentries : FileEntry.WellNamed (.directory sampleEntries) := by
    refine .directory (by decide) ?_ ?_ <;> simp only [sampleEntries, List.forall_mem_cons]
    · exact ⟨hnames _ (by simp), hnames _ (by simp), hnames _ (by simp), List.forall_mem_nil _⟩
    · exact ⟨hfile, halone _ (by simp), halone _ (by simp), List.forall_mem_nil _⟩
  refine .directory (by decide) ?_ ?_ <;> simp only [List.forall_mem_cons]
  · exact ⟨hnames _ (by simp), hnames _ (by simp), List.forall_mem_nil _⟩
  · exact ⟨hentries, hfile, List.forall_mem_nil _⟩

theorem discover_repeats_iff_of_sampleTree :
    sampleTree.WellNamed ∧
    discover sampleTree ["src".toList, "e.cs".toList, "src/lib".toList] none
      = .ok ["e.cs".toList, "src/a.ts".toList, "src/lib/d.PY".toList] ∧
    ["e.cs".toList, "src/a.ts".toList, "src/lib/d.PY".toList].Pairwise
      fun p q => ¬ SameFile sampleTree p q := by
  have hfiles : FileEntry.filesIn (fun name => !isSkipped name) sampleEntries
      = [["a.ts".toList], ["lib".toList, "d.PY".toList]] := by
    have hgit : isSkipped ".git".toList = true := by decide +kernel
    have hlib : isSkipped "lib".toList = false := by decide +kernel
    simp only [sampleEntries, FileEntry.filesIn, hgit, hlib]
    rfl
  have hsrc : ofInput sampleTree "src".toList = [⟨"src/a.ts".toList, "a.ts".toList⟩,
      ⟨"src/lib/d.PY".toList, "lib/d.PY".toList⟩] := by
    rw [ofInput_of_directory find_directory_sampleTree, hfiles]
    rfl
  have hlib : ofInput sampleTree "src/lib".toList
      = [⟨"src/lib/d.PY".toList, "d.PY".toList⟩] := by
    rw [ofInput_of_directory rfl, FileEntry.filesIn, FileEntry.filesIn]
    rfl
  have hfound : files sampleTree ["src".toList, "e.cs".toList, "src/lib".toList] none
      = sorted ["src/a.ts".toList, "src/lib/d.PY".toList, "e.cs".toList,
        "src/lib/d.PY".toList] := by
    simp only [files, List.flatMap_cons, hsrc, hlib, ofInput_of_file find_file_sampleTree]
    exact congrArg sorted (by decide +kernel)
  have hsorted : sorted ["src/a.ts".toList, "src/lib/d.PY".toList, "e.cs".toList,
      "src/lib/d.PY".toList] = ["e.cs".toList, "src/a.ts".toList, "src/lib/d.PY".toList] := by cbv
  have hdiscover : discover sampleTree ["src".toList, "e.cs".toList, "src/lib".toList] none
      = .ok ["e.cs".toList, "src/a.ts".toList, "src/lib/d.PY".toList] :=
    congrArg Except.ok (hfound.trans hsorted)
  refine ⟨wellNamed_sampleTree, hdiscover, ?_⟩
  obtain ⟨-, -, halike⟩ := discover_repeats_iff wellNamed_sampleTree hdiscover
  exact halike (by decide) (.inr (by decide))

/-- The working directory and a file in it, which is returned under two paths. -/
theorem discover_repeats_behind_dot :
    ∃ paths, discover (.directory [("a.ts".toList, .file ⟨#[]⟩)]) [".".toList, "a.ts".toList] none
        = .ok paths ∧
      ¬ paths.Pairwise fun p q => ¬ SameFile (.directory [("a.ts".toList, .file ⟨#[]⟩)]) p q := by
  have hdot : ofInput (.directory [("a.ts".toList, .file ⟨#[]⟩)]) ".".toList
      = [⟨"./a.ts".toList, "a.ts".toList⟩] := by
    rw [ofInput_of_directory rfl, FileEntry.filesIn, FileEntry.filesIn]
    rfl
  have hbeside : FileEntry.find (.directory [("a.ts".toList, .file ⟨#[]⟩)]) "a.ts".toList
      = .ok (.file ⟨#[]⟩) := rfl
  have hfound : files (.directory [("a.ts".toList, .file ⟨#[]⟩)]) [".".toList, "a.ts".toList] none
      = sorted ["./a.ts".toList, "a.ts".toList] := by
    simp only [files, List.flatMap_cons, hdot, ofInput_of_file hbeside]
    exact congrArg sorted (by decide +kernel)
  have hsorted : sorted ["./a.ts".toList, "a.ts".toList]
      = ["./a.ts".toList, "a.ts".toList] := by cbv
  refine ⟨["./a.ts".toList, "a.ts".toList], congrArg Except.ok (hfound.trans hsorted), ?_⟩
  rw [List.pairwise_pair, Classical.not_not]
  exact ⟨["a.ts".toList], rfl, rfl⟩

end DocComments
