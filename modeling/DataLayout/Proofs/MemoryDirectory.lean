import DataLayout.Proofs.FileTrees
import DataLayout.Proofs.IncludeCycles
import DataLayout.Proofs.Requests

/-!
# Files in memory and in a directory

Files with plain names can be held in memory or in a directory. If all paths that are written are
plain too, a path means the file of the same name, whose text is the same, and files have the same
identity exactly if they have the same name. Then nothing tells the two apart, unless a file is so
far down in the system that its absolute path is too long.
-/

set_option autoImplicit false

namespace DataLayout
open Relation

namespace MemorySources

variable {files : List (String × String)}

theorem lookup_insert (m : MemorySources) (name text other : String) :
    (m.insert name text).files.lookup other =
      if other = Path.normalize name then some text else m.files.lookup other :=
  lookup_cons_filter _ _ _ _

theorem of_list_concat (files : List (String × String)) (file : String × String) :
    ofList (files ++ [file]) = (ofList files).insert file.1 file.2 := by
  rw [ofList, List.foldl_append]
  rfl

theorem target_eq (origin : Option String) (path : String) :
    target origin path = Path.normalize (Path.join ((origin.bind Path.parent?).getD "") path) := by
  rw [target]
  cases origin.bind Path.parent? with
  | some directory => rfl
  | none => rw [Option.getD_none, Path.join_empty]

theorem fetch_of_lookup {m : MemorySources} {origin : Option String} {path text : String}
    (h : m.files.lookup (target origin path) = some text) :
    m.fetch origin path = .ok ⟨target origin path, target origin path, text⟩ := by
  simp only [fetch, h]

theorem fetch_of_lookup_none {m : MemorySources} {origin : Option String} {path : String}
    (h : m.files.lookup (target origin path) = none) :
    m.fetch origin path = .error (.notFound path) := by
  simp only [fetch, h]

theorem lookup_of_fetch {m : MemorySources} {origin : Option String} {path : String} {s : Source}
    (h : m.fetch origin path = .ok s) :
    m.files.lookup s.name = some s.text ∧ s.identity = s.name := by
  simp only [fetch] at h
  split at h
  · next text htext =>
    cases h
    exact ⟨htext, rfl⟩
  · cases h

theorem lookup_of_list (hplain : ∀ file ∈ files, Path.Plain file.1)
    (hone : ∀ file ∈ files, ∀ file' ∈ files, file.1 = file'.1 → file.2 = file'.2)
    (name text : String) :
    (ofList files).files.lookup name = some text ↔ (name, text) ∈ files := by
  induction files using List.reverseRecOn with
  | nil => simp [ofList, empty]
  | append_singleton files file ih =>
    obtain ⟨hplains, hlast⟩ := List.forall_mem_append.mp hplain
    have hname := (hlast file (List.mem_singleton_self file)).normalize_eq
    have hfiles := ih hplains fun f hf f' hf' =>
      hone f (List.mem_append_left _ hf) f' (List.mem_append_left _ hf')
    rw [of_list_concat, lookup_insert, hname, List.mem_append, List.mem_singleton]
    by_cases h : name = file.1
    · rw [if_pos h, Option.some.injEq]
      constructor
      · rintro rfl
        exact .inr (by rw [h])
      · rintro (hm | rfl)
        · exact (hone _ (List.mem_append_left _ hm) file (by simp) h).symm
        · rfl
    · rw [if_neg h, hfiles]
      refine ⟨.inl, fun hm => hm.resolve_right fun he => h ?_⟩
      rw [← he]

end MemorySources

namespace FileTree

structure HoldsExactly (t : FileTree) (files : List (String × String)) : Prop where
  file_iff : ∀ below ≠ [], ∀ content,
    t.lookup (t.workingDirectory ++ below) = some (.file content) ↔
      ∃ file ∈ files, Path.parts file.1 = below ∧ file.2.toUTF8 = content
  directory : ∀ file ∈ files, ∀ above ≠ [], ∀ below ≠ [], above ++ below = Path.parts file.1 →
    t.lookup (t.workingDirectory ++ above) = some .directory
  unlinked : ∀ below ≠ [], ∀ target,
    t.lookup (t.workingDirectory ++ below) ≠ some (.link target)

def absolute (t : FileTree) (path : String) : String :=
  (if t.workingDirectory = [] then "/" else placeText t.workingDirectory ++ "/") ++ path

/-- The system takes a path below the working directory as an absolute one too: neither the path nor
a name in it is too long. -/
def Addressable (t : FileTree) (path : String) : Prop :=
  (∀ name ∈ Path.parts path, name.utf8ByteSize ≤ maxNameBytes) ∧
    (t.absolute path).utf8ByteSize ≤ maxPathBytes

instance (t : FileTree) (path : String) : Decidable (t.Addressable path) :=
  inferInstanceAs (Decidable (_ ∧ _))

variable {t : FileTree} {files : List (String × String)} {path text : String}

theorem absolute_injective (t : FileTree) : Function.Injective t.absolute :=
  fun _ _ h => (String.append_right_inj _).mp h

theorem place_text_parts (t : FileTree) (path : String) :
    placeText (t.workingDirectory ++ Path.parts path) = t.absolute path := by
  rw [placeText, absolute]
  by_cases hroot : t.workingDirectory = []
  · rw [if_pos hroot, hroot, List.nil_append, Path.of_parts_parts]
  · rw [if_neg hroot, Path.of_parts_append hroot (Path.parts_ne_nil path), Path.of_parts_parts,
      placeText]
    simp only [String.append_assoc]

theorem resolve_plain (t : FileTree) (hp : Path.Plain path) : ∃ follow, t.resolve path =
    if maxPathBytes < path.utf8ByteSize then .error .nameTooLong
    else t.walkWith follow (Path.parts path) t.workingDirectory := by
  obtain ⟨follow, hfollow⟩ := t.exists_walk_with maxLinks
  refine ⟨follow, ?_⟩
  rw [resolve, if_neg hp.ne_empty, hfollow, origin, hp.not_is_absolute]
  rfl

section Fetching

variable {origin : Option String}

theorem fetch_of_file? {place : Place}
    (hfile : t.file? (Path.join ((origin.bind Path.parent?).getD "") path) =
      some (place, text.toUTF8))
    (hsize : (placeText place).utf8ByteSize ≤ maxPathBytes) :
    t.fetch [] origin path =
      .ok ⟨Path.normalize (Path.join ((origin.bind Path.parent?).getD "") path), placeText place,
        text⟩ := by
  have htext : String.fromUTF8? text.toUTF8 = some text := dif_pos text.isValidUTF8
  unfold fetch
  rw [candidates, firstFile?, hfile]
  simp only [if_neg (Nat.not_lt.mpr hsize), htext]

theorem fetch_of_file?_none
    (hfile : t.file? (Path.join ((origin.bind Path.parent?).getD "") path) = none) :
    t.fetch [] origin path = .error (.notFound path) := by
  unfold fetch
  rw [candidates, firstFile?, hfile]
  rfl

end Fetching

namespace HoldsExactly

theorem eq_of_name (h : t.HoldsExactly files) :
    ∀ file ∈ files, ∀ file' ∈ files, file.1 = file'.1 → file.2 = file'.2 := by
  intro file hfile file' hfile' hname
  have hne := Path.parts_ne_nil file.1
  have hlookup := (h.file_iff _ hne _).mpr ⟨file, hfile, rfl, rfl⟩
  have hlookup' := (h.file_iff _ hne _).mpr ⟨file', hfile', by rw [hname], rfl⟩
  rw [hlookup, Option.some.injEq, Entry.file.injEq] at hlookup'
  exact String.toByteArray_inj.mp hlookup'

theorem file?_of_mem (h : t.HoldsExactly files) (ha : t.Addressable path) (hp : Path.Plain path)
    (hm : (path, text) ∈ files) :
    t.file? path = some (t.workingDirectory ++ Path.parts path, text.toUTF8) := by
  have hne := Path.parts_ne_nil path
  have hfile := (h.file_iff _ hne _).mpr ⟨_, hm, rfl, rfl⟩
  obtain ⟨hnames, hplace⟩ := ha
  have hsize : path.utf8ByteSize ≤ maxPathBytes := by
    rw [absolute, String.utf8ByteSize_append] at hplace
    omega
  obtain ⟨follow, hfollow⟩ := t.resolve_plain hp
  have hwalk : t.walkWith follow (Path.parts path) t.workingDirectory =
      .ok (t.workingDirectory ++ Path.parts path) :=
    walk_with_of_file hp hnames hne (h.directory (path, text) hm) hfile
  rw [if_neg (Nat.not_lt.mpr hsize), hwalk] at hfollow
  rw [file?, hfollow]
  dsimp only
  rw [hfile]

theorem file?_of_not_mem (h : t.HoldsExactly files) (hp : Path.Plain path)
    (hm : ∀ text, (path, text) ∉ files) : t.file? path = none := by
  have hnone : ∀ content,
      t.lookup (t.workingDirectory ++ Path.parts path) ≠ some (.file content) := by
    intro content hfile
    obtain ⟨file, hfile, hparts, _⟩ := (h.file_iff _ (Path.parts_ne_nil path) _).mp hfile
    have hname : file.1 = path := by rw [← Path.of_parts_parts file.1, hparts, Path.of_parts_parts]
    exact hm file.2 (hname ▸ hfile)
  obtain ⟨follow, hfollow⟩ := t.resolve_plain hp
  by_cases hsize : maxPathBytes < path.utf8ByteSize
  · rw [if_pos hsize] at hfollow
    rw [file?, hfollow]
  · rw [if_neg hsize] at hfollow
    cases hwalk : t.walkWith follow (Path.parts path) t.workingDirectory with
    | error e => rw [file?, hfollow, hwalk]
    | ok place =>
      rw [file?, hfollow, hwalk]
      dsimp only
      rw [eq_of_walk_with hp h.unlinked hwalk]
      split
      · next content hfile => exact absurd hfile (hnone content)
      · rfl

theorem answers (h : t.HoldsExactly files) (ha : ∀ file ∈ files, t.Addressable file.1)
    (hplain : ∀ file ∈ files, Path.Plain file.1) {origin : Option String}
    (hp : Path.Plain (Path.join ((origin.bind Path.parent?).getD "") path)) :
    LoadState.Answers t.absolute (MemorySources.ofList files).sources (t.sources [])
      (origin, path) := by
  have htarget : MemorySources.target origin path =
      Path.join ((origin.bind Path.parent?).getD "") path := by
    rw [MemorySources.target_eq, hp.normalize_eq]
  have hlookup := MemorySources.lookup_of_list hplain h.eq_of_name
    (Path.join ((origin.bind Path.parent?).getD "") path)
  change t.fetch [] origin path =
    ((MemorySources.ofList files).fetch origin path).map (·.identifiedBy t.absolute)
  cases hfound : (MemorySources.ofList files).files.lookup (MemorySources.target origin path) with
  | none =>
    rw [MemorySources.fetch_of_lookup_none hfound]
    refine fetch_of_file?_none (h.file?_of_not_mem hp fun text hm => ?_)
    rw [htarget, (hlookup text).mpr hm] at hfound
    cases hfound
  | some text =>
    rw [MemorySources.fetch_of_lookup hfound, htarget]
    rw [htarget] at hfound
    have hm := (hlookup text).mp hfound
    have haddress := ha _ hm
    have hsize := haddress.2
    rw [← place_text_parts] at hsize
    rw [fetch_of_file? (h.file?_of_mem haddress hp hm) hsize, hp.normalize_eq, place_text_parts]
    rfl

end HoldsExactly

end FileTree

theorem Requested.opens {sources : Sources} {root : String} {r : Request}
    (h : Requested sources root r) :
    r = (none, root) ∨ ∃ source, Opens sources root source ∧ r.1 = some source.name ∧
      r.2 ∈ source.inclusions := by
  cases h with
  | root => exact .inl rfl
  | @inclusion source n _ hroot hr =>
    refine .inr ?_
    have hnests := LoadState.consistent_iterate sources source n
    cases hstate : (LoadState.step sources)^[n] (.reading (.start source) []) with
    | finished result =>
      rw [hstate] at hr
      cases hr
    | reading frame waiting =>
      rw [hstate] at hr hnests
      obtain ⟨file, statements, unit⟩ := frame
      have hnests : LoadState.Nests sources source ⟨file, statements, unit⟩ waiting := hnests
      cases statements with
      | nil => cases hr
      | cons statement rest =>
        cases statement with
        | struct | constant => cases hr
        | inclusion loc path =>
          cases hr
          refine ⟨file, ⟨source, hroot, hnests.reached⟩, rfl, ?_⟩
          exact List.mem_filterMap.mpr ⟨_, hnests.left.subset List.mem_cons_self, rfl⟩

theorem Opens.mem_files {files : List (String × String)} {root : String} {source : Source}
    (h : Opens (MemorySources.ofList files).sources root source)
    (hplain : ∀ file ∈ files, Path.Plain file.1)
    (hone : ∀ file ∈ files, ∀ file' ∈ files, file.1 = file'.1 → file.2 = file'.2) :
    (source.name, source.text) ∈ files ∧ source = ⟨source.name, source.name, source.text⟩ := by
  obtain ⟨hlookup, hidentity⟩ := MemorySources.lookup_of_fetch h.fetch_name
  refine ⟨(MemorySources.lookup_of_list hplain hone _ _).mp hlookup, ?_⟩
  conv_lhs => rw [show source = ⟨source.name, source.identity, source.text⟩ from rfl, hidentity]

/-- A compilation of files in memory and one of the same files in the working directory of a system
give the same unit or the same error, if all names and paths are plain and the system takes the
absolute path of each file. -/
theorem compile_memory_eq_directory (files : List (String × String)) (t : FileTree) (root : String)
    (hplain : ∀ file ∈ files, Path.Plain file.1) (hholds : t.HoldsExactly files)
    (haddress : ∀ file ∈ files, t.Addressable file.1) (hroot : Path.Plain root)
    (hinclude : ∀ file ∈ files, ∀ path ∈ (Source.mk file.1 file.1 file.2).inclusions,
      Path.Plain path) :
    compile (MemorySources.ofList files).sources root = compile (t.sources []) root := by
  symm
  refine compile_identified_by t.absolute_injective fun r hr => ?_
  obtain ⟨origin, path⟩ := r
  apply hholds.answers haddress hplain
  rcases hr.opens with hr | ⟨source, hopens, horigin, hpath⟩
  · cases hr
    rwa [Option.bind_none, Option.getD_none, Path.join_empty]
  · obtain ⟨hm, hsource⟩ := hopens.mem_files hplain hholds.eq_of_name
    cases horigin
    rw [hsource] at hpath
    have hname := hplain (source.name, source.text) hm
    exact (hinclude (source.name, source.text) hm path hpath).join_plain hname

/-- Two files of a directory that include each other, and a file above that includes one of them. -/
def circularFiles : List (String × String) :=
  [("a", "include\"d/b\""), ("d/b", "include\"c\""), ("d/c", "const C=1 include\"b\"")]

def circularTree : FileTree :=
  ⟨[(["w"], .directory), (["w", "a"], .file "include\"d/b\"".toUTF8), (["w", "d"], .directory),
    (["w", "d", "b"], .file "include\"c\"".toUTF8),
    (["w", "d", "c"], .file "const C=1 include\"b\"".toUTF8)], ["w"]⟩

theorem circular_tree_holds_exactly : circularTree.HoldsExactly circularFiles where
  file_iff below hne content := by
    constructor
    · intro h
      have hm := FileTree.mem_entries_of_lookup h (by simp [circularTree])
      simp only [circularTree, List.cons_append, List.nil_append, List.mem_cons, Prod.mk.injEq,
        Entry.file.injEq, reduceCtorEq, and_false, false_or, or_false, List.cons.injEq, true_and,
        List.not_mem_nil] at hm
      rcases hm with ⟨rfl, rfl⟩ | ⟨rfl, rfl⟩ | ⟨rfl, rfl⟩
      · exact ⟨("a", _), by simp [circularFiles], by decide, rfl⟩
      · exact ⟨("d/b", _), by simp [circularFiles], by decide, rfl⟩
      · exact ⟨("d/c", _), by simp [circularFiles], by decide, rfl⟩
    · rintro ⟨file, hfile, rfl, rfl⟩
      simp only [circularFiles, List.mem_cons, List.not_mem_nil, or_false] at hfile
      rcases hfile with rfl | rfl | rfl <;> rfl
  directory file hfile above habove below hbelow h := by
    have hparts : Path.parts file.1 = ["a"] ∨ ∃ name, Path.parts file.1 = ["d", name] := by
      simp only [circularFiles, List.mem_cons, List.not_mem_nil, or_false] at hfile
      rcases hfile with rfl | rfl | rfl
      · exact .inl (by decide)
      · exact .inr ⟨"b", by decide⟩
      · exact .inr ⟨"c", by decide⟩
    have hd : above = ["d"] := by
      rcases hparts with hparts | ⟨name, hparts⟩ <;> rw [hparts] at h <;>
        simp [List.append_eq_cons_iff, List.cons_eq_append_iff, habove, hbelow] at h
      exact h.1
    rw [hd]
    rfl
  unlinked below hne target h := by
    have hm := FileTree.mem_entries_of_lookup h (by simp [circularTree])
    simp [circularTree] at hm

theorem compile_memory_eq_directory_circular :
    circularTree.HoldsExactly circularFiles ∧
    compile (circularTree.sources []) "a" =
      .error (.parse ⟨⟨"d/c", 1⟩, .includeCycle "b"⟩) := by
  refine ⟨circular_tree_holds_exactly, ?_⟩
  rw [← compile_memory_eq_directory circularFiles circularTree "a" (by decide +kernel)
    circular_tree_holds_exactly (by decide +kernel) (by decide +kernel) (by decide +kernel)]
  decide +kernel

def deepFiles : List (String × String) := [("a", "const A=1")]

/-- A directory so far down that the absolute path of a file in it is too long. -/
def deepDirectory : Place := List.replicate 17 (String.ofList (List.replicate 250 'd'))

def deepTree : FileTree :=
  ⟨(deepDirectory ++ ["a"], .file "const A=1".toUTF8) ::
    (List.range 17).map fun n => (deepDirectory.take (n + 1), .directory), deepDirectory⟩

theorem deep_tree_holds_exactly : deepTree.HoldsExactly deepFiles := by
  have hparts : Path.parts "a" = ["a"] := by decide
  refine ⟨fun below hne content => ⟨fun h => ?_, ?_⟩, ?_, fun below hne target h => ?_⟩
  · have hm := FileTree.mem_entries_of_lookup h (by simp [hne])
    simp only [deepTree, List.mem_cons, Prod.mk.injEq, List.append_cancel_left_eq,
      Entry.file.injEq, List.mem_map, reduceCtorEq, and_false, exists_false, or_false] at hm
    obtain ⟨rfl, rfl⟩ := hm
    exact ⟨("a", _), List.mem_singleton_self _, hparts, rfl⟩
  · rintro ⟨file, hfile, rfl, rfl⟩
    cases List.mem_singleton.mp hfile
    rw [hparts, FileTree.lookup, if_neg (by simp)]
    exact List.lookup_cons_self
  · intro file hfile above habove below hbelow h
    cases List.mem_singleton.mp hfile
    rw [hparts] at h
    simp [List.append_eq_singleton_iff, habove, hbelow] at h
  · have hm := FileTree.mem_entries_of_lookup h (by simp [hne])
    simp [deepTree] at hm

/-- Names and paths are plain and the directory holds the same file as the memory does. But only the
memory gives the file, since the system does not take its absolute path. -/
theorem compile_memory_ne_directory :
    (∀ file ∈ deepFiles, Path.Plain file.1) ∧ deepTree.HoldsExactly deepFiles ∧
    Path.Plain "a" ∧ (∀ file ∈ deepFiles, ∀ path ∈ (Source.mk file.1 file.1 file.2).inclusions,
      Path.Plain path) ∧
    (∃ u, compile (MemorySources.ofList deepFiles).sources "a" = .ok u) ∧
    compile (deepTree.sources []) "a" = .error (.source "a" (.unreadable "a" .nameTooLong)) := by
  have hmemory : (compile (MemorySources.ofList deepFiles).sources "a").toOption.isSome = true := by
    decide +kernel
  obtain ⟨u, hu⟩ := Option.isSome_iff_exists.mp hmemory
  have hfetch : (deepTree.sources []).fetch none "a" = .error (.unreadable "a" .nameTooLong) := by
    decide +kernel
  refine ⟨by decide +kernel, deep_tree_holds_exactly, by decide +kernel, by decide +kernel,
    ⟨u, except_to_option_eq_some.mp hu⟩, ?_⟩
  rw [compile, hfetch]

end DataLayout
