import DocComments.Proofs.Files.Order

/-!
# What is discovered

A walk lists the files that a directory tree holds behind directories that are entered
(`FileEntry.mem_filesIn_iff`). So discovery finds exactly the source files that inputs name
(`Discover.Wanted`): it returns them in order, each once, and neither the order of the inputs nor
how often one is given matters (`discover_wanted`).
-/

set_option autoImplicit false

namespace DocComments

namespace FileEntry

/-! ## Files in a tree -/

/-- The tree holds a file behind the given names. -/
inductive HasFile : FileEntry → List Text → Prop where
  | here (bytes : ByteArray) : HasFile (file bytes) []
  | behind {entries : List (Text × FileEntry)} {name : Text} {e : FileEntry} {names : List Text}
      (hentry : (name, e) ∈ entries) (h : HasFile e names) :
      HasFile (directory entries) (name :: names)

section HasFile

variable {bytes : ByteArray} {entries : List (Text × FileEntry)} {name : Text} {e : FileEntry}
  {names : List Text}

@[simp] theorem hasFile_file_iff : (file bytes).HasFile names ↔ names = [] := by
  constructor
  · rintro ⟨⟩
    rfl
  · rintro rfl
    exact .here bytes

theorem HasFile.ne_nil (h : (directory entries).HasFile names) : names ≠ [] := by
  cases h
  exact List.cons_ne_nil _ _

theorem not_hasFile_directory_nil : ¬ (directory []).HasFile names := by
  rintro (_ | ⟨hentry, -⟩)
  cases hentry

theorem hasFile_directory_cons_iff :
    (directory ((name, e) :: entries)).HasFile names ↔
      (∃ rest, e.HasFile rest ∧ names = name :: rest) ∨ (directory entries).HasFile names := by
  constructor
  · rintro (_ | ⟨hentry, h⟩)
    rcases List.mem_cons.mp hentry with heq | hentry
    · cases heq
      exact .inl ⟨_, h, rfl⟩
    · exact .inr (.behind hentry h)
  · rintro (⟨rest, h, rfl⟩ | h)
    · exact .behind List.mem_cons_self h
    · cases h with
      | behind hentry h => exact .behind (List.mem_cons_of_mem _ hentry) h

end HasFile

/-- The files that are listed are those behind directories that are all entered. -/
theorem mem_filesIn_iff {enter : Text → Bool} {entries : List (Text × FileEntry)}
    {names : List Text} :
    names ∈ filesIn enter entries ↔
      (directory entries).HasFile names ∧ ∀ name ∈ names.dropLast, enter name = true := by
  induction entries using filesIn.induct generalizing names with
  | case1 => simp [filesIn, not_hasFile_directory_nil]
  | case2 name bytes more ih =>
    -- a file is listed whatever is entered: there is no directory on the way to it
    rw [filesIn, List.mem_cons, ih, hasFile_directory_cons_iff, or_and_right]
    refine or_congr_left ?_
    constructor
    · rintro rfl
      exact ⟨⟨[], .here bytes, rfl⟩, by simp⟩
    · rintro ⟨⟨rest, hrest, rfl⟩, -⟩
      rw [hasFile_file_iff.mp hrest]
  | case3 name entries more ihentries ihmore =>
    rw [filesIn, List.mem_append, ihmore, hasFile_directory_cons_iff, or_and_right]
    refine or_congr_left ?_
    -- there is a file behind the directory, so that it is one on the way
    have hway : ∀ rest, (directory entries).HasFile rest →
        ((∀ d ∈ (name :: rest).dropLast, enter d = true) ↔
          enter name = true ∧ ∀ d ∈ rest.dropLast, enter d = true) := by
      intro rest hrest
      rw [List.dropLast_cons_of_ne_nil hrest.ne_nil, List.forall_mem_cons]
    split
    · next henter =>
      rw [List.mem_map]
      constructor
      · rintro ⟨rest, hmem, rfl⟩
        obtain ⟨hrest, hopen⟩ := ihentries.mp hmem
        exact ⟨⟨rest, hrest, rfl⟩, (hway rest hrest).mpr ⟨henter, hopen⟩⟩
      · rintro ⟨⟨rest, hrest, rfl⟩, hopen⟩
        exact ⟨rest, ihentries.mpr ⟨hrest, ((hway rest hrest).mp hopen).2⟩, rfl⟩
    · next henter =>
      refine iff_of_false List.not_mem_nil ?_
      rintro ⟨⟨rest, hrest, rfl⟩, hopen⟩
      exact henter ((hway rest hrest).mp hopen).1

end FileEntry

namespace Language

/-- A path has a language if its extension, in lower case, belongs to one. -/
theorem isSome_ofPath?_iff {p : Path} :
    (ofPath? p).isSome = true ↔ ∃ extension, p.extension? = some extension ∧
      String.ofList (Text.toLower extension) ∈ allExtensions := by
  have hlisted : ∀ e : String, (ofExtension? e).isSome = true ↔ e ∈ allExtensions := by
    intro e
    rw [ofExtension?, List.find?_isSome, allExtensions, List.mem_flatMap]
    simp only [List.contains_iff_mem]
  unfold ofPath?
  cases p.extension? with
  | none => simp
  | some extension => simp [hlisted]

end Language

namespace Discover

open FileEntry (HasFile mem_filesIn_iff)

/-! ## What is looked for -/

/-- The glob can be read and describes the path. Without a glob every path is described. -/
def Describes (glob : Option Text) (p : Path) : Prop :=
  ∀ g ∈ glob, ∃ pieces, Glob.read g = .ok pieces ∧ Glob.accepts pieces p = true

/-- Inputs name a path, which has another spelling relative to the input that it is found
through. -/
inductive Names (top : FileEntry) (inputs : List Path) : Path → Path → Prop where
  /-- an input that is a file -/
  | itself {p : Path} {bytes : ByteArray} (hinput : p ∈ inputs)
      (hfind : top.find p = .ok (.file bytes)) : Names top inputs p p
  /-- a file below an input, behind directories that are neither hidden nor left out -/
  | walked {d : Path} {entries : List (Text × FileEntry)} {names : List Text} (hinput : d ∈ inputs)
      (hfind : top.find d = .ok (.directory entries))
      (hfile : (FileEntry.directory entries).HasFile names)
      (hopen : ∀ name ∈ names.dropLast, isSkipped name = false) :
      Names top inputs (names.foldl Path.join d) (names.foldl Path.join [])

/-- The path is one of a source file that inputs name and the glob describes. -/
structure Wanted (top : FileEntry) (inputs : List Path) (glob : Option Text) (p : Path) : Prop where
  supported : ∃ extension, p.extension? = some extension ∧
    String.ofList (Text.toLower extension) ∈ Language.allExtensions
  named : ∃ inside, Names top inputs p inside ∧ (Describes glob inside ∨ Describes glob p)

/-- The walk comes to every file below the inputs. -/
def WalksAll (top : FileEntry) (inputs : List Path) : Prop :=
  ∀ d ∈ inputs, ∀ entries names, top.find d = .ok (.directory entries) →
    (FileEntry.directory entries).HasFile names → isEntered d names = true

/-! ## What is found -/

variable {top : FileEntry} {inputs : List Path} {glob : Option Text}

/-- A glob that can be read describes what its pieces accept. -/
theorem exists_pieces (hglob : ∀ g ∈ glob, ∃ pieces, Glob.read g = .ok pieces) :
    ∃ pieces : Option (List GlobPiece),
      (∀ inputs, discover top inputs glob = .ok (files top inputs pieces)) ∧
        ∀ p, Describes glob p ↔ pieces.all (Glob.accepts · p) = true := by
  cases glob with
  | none => exact ⟨none, fun inputs => rfl, fun p => by simp [Describes]⟩
  | some g =>
    obtain ⟨pieces, hread⟩ := hglob g rfl
    refine ⟨some pieces, fun inputs => ?_, fun p => ?_⟩
    · rw [discover, hread]
    · simp [Describes, hread]

theorem ofInput_of_file {d : Path} {bytes : ByteArray} (h : top.find d = .ok (.file bytes)) :
    ofInput top d = [⟨d, d⟩] := by
  rw [ofInput, h]

theorem ofInput_of_directory {d : Path} {entries : List (Text × FileEntry)}
    (h : top.find d = .ok (.directory entries)) :
    ofInput top d =
      ((FileEntry.filesIn (fun name => !isSkipped name) entries).filter (isEntered d)).map
        (Found.below d) := by
  rw [ofInput, h]

/-- What is found through an input. -/
theorem mem_ofInput_iff {d : Path} {f : Found} :
    f ∈ ofInput top d ↔
      (∃ bytes, top.find d = .ok (.file bytes) ∧ f = ⟨d, d⟩) ∨
        ∃ entries names, top.find d = .ok (.directory entries) ∧
          (FileEntry.directory entries).HasFile names ∧
          (∀ name ∈ names.dropLast, isSkipped name = false) ∧ isEntered d names = true ∧
          f = Found.below d names := by
  unfold ofInput
  split
  · next bytes hfind => simp [hfind]
  · next entries hfind =>
    simp only [List.mem_map, List.mem_filter, mem_filesIn_iff, Bool.not_eq_true', hfind,
      Except.ok.injEq, reduceCtorEq, FileEntry.directory.injEq, false_and, exists_false, false_or,
      and_assoc]
    constructor
    · rintro ⟨names, hfile, hopen, henter, rfl⟩
      exact ⟨entries, names, rfl, hfile, hopen, henter, rfl⟩
    · rintro ⟨_, names, rfl, hfile, hopen, henter, rfl⟩
      exact ⟨names, hfile, hopen, henter, rfl⟩
  · next e hfind => simp [hfind]

/-- What is found through the inputs is named by them. -/
theorem names_of_mem_flatMap {p inside : Path}
    (h : ⟨p, inside⟩ ∈ inputs.flatMap (ofInput top)) : Names top inputs p inside := by
  obtain ⟨d, hd, hmem⟩ := List.mem_flatMap.mp h
  rcases mem_ofInput_iff.mp hmem with ⟨bytes, hfind, heq⟩ |
    ⟨entries, names, hfind, hfile, hopen, -, heq⟩
  · cases heq
    exact .itself hd hfind
  · cases heq
    exact .walked hd hfind hfile hopen

/-- What the inputs name is found through them, if the walk comes to everything. -/
theorem mem_flatMap_of_names (hwalk : WalksAll top inputs) {p inside : Path}
    (h : Names top inputs p inside) : ⟨p, inside⟩ ∈ inputs.flatMap (ofInput top) := by
  rw [List.mem_flatMap]
  cases h with
  | itself hinput hfind => exact ⟨p, hinput, mem_ofInput_iff.mpr (.inl ⟨_, hfind, rfl⟩)⟩
  | walked hinput hfind hfile hopen =>
    have henter := hwalk _ hinput _ _ hfind hfile
    exact ⟨_, hinput, mem_ofInput_iff.mpr (.inr ⟨_, _, hfind, hfile, hopen, henter, rfl⟩)⟩

/-- The paths that are put in order are those that are wanted. -/
theorem mem_map_path_iff (hwalk : WalksAll top inputs) {pieces : Option (List GlobPiece)}
    (hpieces : ∀ p, Describes glob p ↔ pieces.all (Glob.accepts · p) = true) {p : Path} :
    p ∈ ((inputs.flatMap (ofInput top)).filter (accepts pieces)).map Found.path ↔
      Wanted top inputs glob p := by
  have haccepts : ∀ inside, accepts pieces ⟨p, inside⟩ = true ↔
      (∃ extension, p.extension? = some extension ∧
        String.ofList (Text.toLower extension) ∈ Language.allExtensions) ∧
      (Describes glob inside ∨ Describes glob p) := by
    intro inside
    rw [accepts, Bool.and_eq_true, Language.isSome_ofPath?_iff, hpieces, hpieces]
    cases pieces <;> simp
  rw [List.mem_map]
  constructor
  · rintro ⟨⟨_, inside⟩, hmem, rfl⟩
    obtain ⟨hfound, hacc⟩ := List.mem_filter.mp hmem
    obtain ⟨hsupported, hdescribes⟩ := (haccepts inside).mp hacc
    exact ⟨hsupported, inside, names_of_mem_flatMap hfound, hdescribes⟩
  · rintro ⟨hsupported, inside, hnames, hdescribes⟩
    refine ⟨⟨p, inside⟩, List.mem_filter.mpr ⟨?_, ?_⟩, rfl⟩
    · exact mem_flatMap_of_names hwalk hnames
    · exact (haccepts inside).mpr ⟨hsupported, hdescribes⟩

/-! ## What is returned -/

/-- What is returned are sorted paths that the inputs name. -/
theorem pairwise_and_names_of_discover {paths : List Path}
    (h : discover top inputs glob = .ok paths) :
    paths.Pairwise (fun p q => p.order q = .lt) ∧
      ∀ p ∈ paths, ∃ inside, Names top inputs p inside := by
  have hfiles : ∃ pieces, paths = files top inputs pieces := by
    unfold discover at h
    split at h
    · exact ⟨none, (Except.ok.inj h).symm⟩
    · split at h
      · exact ⟨some _, (Except.ok.inj h).symm⟩
      · cases h
  obtain ⟨pieces, rfl⟩ := hfiles
  refine ⟨pairwise_sorted _, fun p hp => ?_⟩
  obtain ⟨⟨_, inside⟩, hmem, rfl⟩ := List.mem_map.mp (mem_of_mem_sorted hp)
  exact ⟨inside, names_of_mem_flatMap (List.mem_of_mem_filter hmem)⟩

end Discover

open Discover

/-- If the glob can be read and the walk comes to every file, discovery returns a list that
increases strictly. Its paths are wanted, and each wanted path is in it in one spelling. Other inputs
that are the same up to order and repetition give the same paths. -/
theorem discover_wanted (top : FileEntry) (inputs : List Path) (glob : Option Text)
    (hglob : ∀ g ∈ glob, ∃ pieces, Glob.read g = .ok pieces) (hwalk : WalksAll top inputs) :
    ∃ paths, discover top inputs glob = .ok paths ∧
      paths.Pairwise (fun p q => p.order q = .lt) ∧
      (∀ p ∈ paths, Wanted top inputs glob p) ∧
      (∀ p, Wanted top inputs glob p → ∃ q ∈ paths, p.same q = true) ∧
      ∀ others, (∀ p, p ∈ others ↔ p ∈ inputs) →
        ∃ paths', discover top others glob = .ok paths' ∧
          paths'.map Path.components = paths.map Path.components := by
  obtain ⟨pieces, hdiscover, hpieces⟩ := exists_pieces hglob
  refine ⟨files top inputs pieces, hdiscover inputs, pairwise_sorted _, fun p hp => ?_,
    fun p hp => ?_, fun others hothers => ?_⟩
  · exact (mem_map_path_iff hwalk hpieces).mp (mem_of_mem_sorted hp)
  · exact exists_same_mem_sorted ((mem_map_path_iff hwalk hpieces).mpr hp)
  · refine ⟨files top others pieces, hdiscover others, map_components_sorted_congr fun cs => ?_⟩
    -- the same is found, though elsewhere in the list
    simp only [List.mem_map, List.mem_filter, List.mem_flatMap, hothers]

/-! ## A small tree -/

/-- What is in the directory of a small tree: a source, a hidden directory with one, and another
directory with one. -/
def sampleEntries : List (Text × FileEntry) :=
  [("a.ts".toList, .file ⟨#[]⟩),
    (".git".toList, .directory [("c.ts".toList, .file ⟨#[]⟩)]),
    ("lib".toList, .directory [("d.PY".toList, .file ⟨#[]⟩)])]

def sampleTree : FileEntry :=
  .directory [("src".toList, .directory sampleEntries), ("e.cs".toList, .file ⟨#[]⟩)]

theorem find_directory_sampleTree :
    sampleTree.find "src".toList = .ok (.directory sampleEntries) := rfl

theorem find_file_sampleTree : sampleTree.find "e.cs".toList = .ok (.file ⟨#[]⟩) := rfl

theorem discover_wanted_of_sampleTree :
    (∀ g ∈ some "*?".toList, ∃ pieces, Glob.read g = .ok pieces) ∧
    WalksAll sampleTree ["src".toList, "e.cs".toList] ∧
    ∃ paths, discover sampleTree ["src".toList, "e.cs".toList] (some "*?".toList) = .ok paths ∧
      paths.Pairwise (fun p q => p.order q = .lt) ∧
      (∀ p ∈ paths, Wanted sampleTree ["src".toList, "e.cs".toList] (some "*?".toList) p) ∧
      (∀ p, Wanted sampleTree ["src".toList, "e.cs".toList] (some "*?".toList) p →
        ∃ q ∈ paths, p.same q = true) ∧
      ∀ others, (∀ p, p ∈ others ↔ p ∈ ["src".toList, "e.cs".toList]) →
        ∃ paths', discover sampleTree others (some "*?".toList) = .ok paths' ∧
          paths'.map Path.components = paths.map Path.components := by
  have hglob : ∀ g ∈ some "*?".toList, ∃ pieces, Glob.read g = .ok pieces := by
    rintro g ⟨⟩
    exact ⟨[.star, .any], by cbv⟩
  have hwalk : WalksAll sampleTree ["src".toList, "e.cs".toList] := by
    intro d hd entries names hfind hfile
    -- the files below an input are those of a walk that enters every directory
    have hmem : names ∈ FileEntry.filesIn (fun _ => true) entries :=
      FileEntry.mem_filesIn_iff.mpr ⟨hfile, fun _ _ => rfl⟩
    rcases List.mem_pair.mp hd with rfl | rfl
    · cases find_directory_sampleTree.symm.trans hfind
      simp only [sampleEntries, FileEntry.filesIn, if_true, List.map_cons, List.map_nil,
        List.cons_append, List.nil_append, List.mem_cons, List.not_mem_nil, or_false] at hmem
      rcases hmem with rfl | rfl | rfl <;> rfl
    · cases find_file_sampleTree.symm.trans hfind
  exact ⟨hglob, hwalk, discover_wanted sampleTree _ _ hglob hwalk⟩

end DocComments
