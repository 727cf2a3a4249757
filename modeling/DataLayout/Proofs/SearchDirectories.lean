import DataLayout.Proofs.Requests
import DataLayout.Source.Directories

/-!
# Directories to look for files in

The first directory that has a file decides. Directories behind those that were enough to find
every file are never looked at, whether the files could be read or not.
-/

set_option autoImplicit false

namespace DataLayout.FileTree

variable {t : FileTree} {directories : List String}

theorem first_file?_append {paths : List String} {found : String × Place × ByteArray}
    (h : t.firstFile? paths = some found) (more : List String) :
    t.firstFile? (paths ++ more) = some found := by
  induction paths with
  | nil => cases h
  | cons path paths ih =>
    rw [List.cons_append]
    rw [firstFile?] at h ⊢
    cases hp : t.file? path with
    | some place =>
      rw [hp] at h
      exact h
    | none =>
      rw [hp] at h
      exact ih h

theorem candidates_append (more : List String) (origin : Option String) (path : String) :
    candidates (directories ++ more) origin path =
      candidates directories origin path ++ more.map (Path.join · path) := by
  simp [candidates]

theorem fetch_append {origin : Option String} {path : String}
    (h : t.fetch directories origin path ≠ .error (.notFound path)) (more : List String) :
    t.fetch (directories ++ more) origin path = t.fetch directories origin path := by
  unfold fetch at h ⊢
  rw [candidates_append]
  cases hfound : t.firstFile? (candidates directories origin path) with
  | none =>
    rw [hfound] at h
    exact absurd rfl h
  | some found => rw [first_file?_append hfound]

/-- Further directories change nothing for a compilation that finds all the files it asks for, even
if it then fails. -/
theorem compile_append_directories (t : FileTree) (directories more : List String) (root : String)
    (h : ∀ r, Requested (t.sources directories) root r →
      (t.sources directories).fetch r.1 r.2 ≠ .error (.notFound r.2)) :
    compile (t.sources (directories ++ more)) root = compile (t.sources directories) root := by
  refine compile_identified_by Function.injective_id fun r hr => ?_
  have hsame : (t.sources (directories ++ more)).fetch r.1 r.2 =
      (t.sources directories).fetch r.1 r.2 := fetch_append (h r hr) more
  rw [LoadState.Answers, hsame]
  cases (t.sources directories).fetch r.1 r.2 <;> rfl

/-- A file that includes `b`, which is found in the directory `first` and includes `c`. The `c`
beside it is no text, the one in the directory `second` is. -/
def searchedTree : FileTree :=
  ⟨[(["w", "a"], .file "include\"b\"".toUTF8), (["w", "first"], .directory),
    (["w", "first", "b"], .file "include\"c\"".toUTF8),
    (["w", "first", "c"], .file ⟨#[255]⟩), (["w", "second"], .directory),
    (["w", "second", "b"], .file "const B=2".toUTF8),
    (["w", "second", "c"], .file "const C=3".toUTF8)], ["w"]⟩

theorem compile_append_directories_unreadable :
    (∀ r, Requested (searchedTree.sources ["first"]) "a" r →
      (searchedTree.sources ["first"]).fetch r.1 r.2 ≠ .error (.notFound r.2)) ∧
    compile (searchedTree.sources ["first", "second"]) "a" =
      .error (.parse ⟨⟨"first/b", 1⟩, .includeNotFound "c"
        "could not read 'first/c': stream did not contain valid UTF-8"⟩) := by
  have hroot : (searchedTree.sources ["first"]).fetch none "a" =
      .ok ⟨"a", "/w/a", "include\"b\""⟩ := by decide +kernel
  have hfound : ∀ r, Requested (searchedTree.sources ["first"]) "a" r →
      (searchedTree.sources ["first"]).fetch r.1 r.2 ≠ .error (.notFound r.2) := by
    have hrun : (((LoadState.step (searchedTree.sources ["first"]))^[2]
        (.reading (.start ⟨"a", "/w/a", "include\"b\""⟩) [])).isFinished &&
        (List.range 2).all fun k => (((LoadState.step (searchedTree.sources ["first"]))^[k]
          (.reading (.start ⟨"a", "/w/a", "include\"b\""⟩) [])).request?).all fun r =>
            decide ((searchedTree.sources ["first"]).fetch r.1 r.2 ≠ .error (.notFound r.2))) =
        true := by decide +kernel
    rw [Bool.and_eq_true, List.all_eq_true] at hrun
    refine Requested.forall_of_finished hroot hrun.1 (by rw [hroot]; simp) fun k hk r hr => ?_
    have hall := hrun.2 k (List.mem_range.mpr hk)
    rw [hr, Option.all_some, decide_eq_true_iff] at hall
    exact hall
  have hfirst : compile (searchedTree.sources ["first"]) "a" =
      .error (.parse ⟨⟨"first/b", 1⟩, .includeNotFound "c"
        "could not read 'first/c': stream did not contain valid UTF-8"⟩) := by decide +kernel
  exact ⟨hfound, (compile_append_directories searchedTree ["first"] ["second"] "a" hfound).trans
    hfirst⟩

end DataLayout.FileTree
