import DataLayout.Path
import Mathlib.Data.List.Basic

/-!
# Plain paths

A plain path leads from a directory down to a file: names between single slashes, none of which
leads up, stays, or has a backslash in it. The path that a plain path means in the directory of a
file with a plain path is plain again, and has the names of both.
-/

set_option autoImplicit false

namespace DataLayout.Path

theorem split_chars_ne_nil (cs : List Char) : splitChars cs ≠ [] := by
  cases cs with
  | nil => simp [splitChars]
  | cons c cs =>
    rw [splitChars]
    split_ifs
    · simp
    · split <;> simp

theorem split_chars_append (as bs : List Char) :
    splitChars (as ++ '/' :: bs) = splitChars as ++ splitChars bs := by
  induction as with
  | nil => simp [splitChars]
  | cons a as ih =>
    rw [List.cons_append, splitChars, splitChars]
    split_ifs with ha
    · rw [ih, List.cons_append]
    · rw [ih]
      cases hs : splitChars as with
      | nil => exact absurd hs (split_chars_ne_nil as)
      | cons part parts => rfl

theorem intercalate_split_chars (cs : List Char) : ['/'].intercalate (splitChars cs) = cs := by
  induction cs with
  | nil => simp [splitChars]
  | cons c cs ih =>
    rw [splitChars]
    split_ifs with hc
    · rw [List.intercalate_cons_of_ne_nil (split_chars_ne_nil cs), ih, hc]
      rfl
    · cases hs : splitChars cs with
      | nil => exact absurd hs (split_chars_ne_nil cs)
      | cons part parts =>
        rw [hs] at ih
        cases parts with
        | nil => simpa using ih
        | cons next parts => simpa using ih

theorem split_chars_of_no_slash {cs : List Char} (h : '/' ∉ cs) : splitChars cs = [cs] := by
  induction cs with
  | nil => rfl
  | cons c cs ih =>
    rw [List.mem_cons, not_or] at h
    rw [splitChars, if_neg (Ne.symm h.1), ih h.2]

theorem exists_mem_split_chars {c : Char} {cs : List Char} (h : c ∈ cs) (hc : c ≠ '/') :
    ∃ part ∈ splitChars cs, c ∈ part := by
  induction cs with
  | nil => cases h
  | cons d cs ih =>
    rw [splitChars]
    rcases List.mem_cons.mp h with rfl | h
    · rw [if_neg hc]
      split <;> simp
    · obtain ⟨part, hpart, hmem⟩ := ih h
      split_ifs
      · exact ⟨part, List.mem_cons_of_mem _ hpart, hmem⟩
      · cases hs : splitChars cs with
        | nil => exact absurd hs (split_chars_ne_nil cs)
        | cons first parts =>
          rw [hs] at hpart
          rcases List.mem_cons.mp hpart with rfl | hpart
          · exact ⟨d :: part, List.mem_cons_self, List.mem_cons_of_mem d hmem⟩
          · exact ⟨part, List.mem_cons_of_mem _ hpart, hmem⟩

theorem parts_ne_nil (path : String) : parts path ≠ [] := by
  simpa [parts] using split_chars_ne_nil path.toList

theorem parts_append (a b : String) : parts (a ++ "/" ++ b) = parts a ++ parts b := by
  have hlist : (a ++ "/" ++ b).toList = a.toList ++ '/' :: b.toList := by simp
  rw [parts, hlist, split_chars_append, List.map_append]
  rfl

theorem of_parts_parts (path : String) : ofParts (parts path) = path := by
  apply String.toList_inj.mp
  rw [ofParts, String.toList_intercalate, parts, List.map_map]
  simp [Function.comp_def, intercalate_split_chars]

theorem of_parts_append {ps qs : List String} (hp : ps ≠ []) (hq : qs ≠ []) :
    ofParts (ps ++ qs) = ofParts ps ++ "/" ++ ofParts qs :=
  String.intercalate_append_of_ne_nil hp hq

theorem parts_of_parts {ps : List String} (hne : ps ≠ []) (h : ∀ p ∈ ps, '/' ∉ p.toList) :
    parts (ofParts ps) = ps := by
  induction ps with
  | nil => exact absurd rfl hne
  | cons p ps ih =>
    obtain ⟨hp, hps⟩ := List.forall_mem_cons.mp h
    have hone : parts p = [p] := by simp [parts, split_chars_of_no_slash hp]
    by_cases hnil : ps = []
    · subst hnil
      simpa [ofParts] using hone
    · rw [← List.singleton_append, of_parts_append (List.cons_ne_nil p []) hnil, parts_append,
        ih hnil hps]
      simp [ofParts, hone]

theorem join_empty (path : String) : join "" path = path := by
  rw [join]
  split_ifs
  · rfl
  · simp

def IsName (part : String) : Prop :=
  part ≠ "" ∧ part ≠ "." ∧ part ≠ ".." ∧ '/' ∉ part.toList ∧ '\\' ∉ part.toList

instance (part : String) : Decidable (IsName part) :=
  inferInstanceAs (Decidable (part ≠ "" ∧ part ≠ "." ∧ part ≠ ".." ∧ '/' ∉ part.toList ∧
    '\\' ∉ part.toList))

def Plain (path : String) : Prop := ∀ part ∈ parts path, IsName part

instance (path : String) : Decidable (Plain path) :=
  inferInstanceAs (Decidable (∀ part ∈ parts path, IsName part))

theorem drop_void_names {names : List String} (h : ∀ n ∈ names, IsName n) :
    dropVoid names = names := by
  cases names with
  | nil => rfl
  | cons n names =>
    obtain ⟨hempty, hdot, _⟩ := h n List.mem_cons_self
    cases names with
    | nil => rw [dropVoid, if_neg hempty]
    | cons n' names => rw [dropVoid, if_neg (not_or.mpr ⟨hempty, hdot⟩)]; simp

theorem parts_names {names : List String} (hne : names ≠ []) (h : ∀ n ∈ names, IsName n) :
    parts (ofParts names) = names :=
  parts_of_parts hne fun n hn => (h n hn).2.2.2.1

theorem plain_names {names : List String} (hne : names ≠ []) (h : ∀ n ∈ names, IsName n) :
    Plain (ofParts names) := by
  rw [Plain, parts_names hne h]
  exact h

namespace Plain

variable {path name : String}

theorem not_mem_empty (h : Plain path) : "" ∉ parts path := fun hm => (h "" hm).1 rfl

theorem ne_empty (h : Plain path) : path ≠ "" := by
  rintro rfl
  exact h.not_mem_empty (by simp [parts, splitChars])

theorem not_is_absolute (h : Plain path) : isAbsolute path = false := by
  cases hcs : path.toList with
  | nil => simp [isAbsolute, hcs]
  | cons c cs =>
    by_cases hc : c = '/'
    · refine absurd ?_ h.not_mem_empty
      simp [parts, hcs, hc, splitChars]
    · simp [isAbsolute, hcs, hc]

theorem get_last?_ne_slash (h : Plain path) : path.toList.getLast? ≠ some '/' := by
  intro hlast
  obtain ⟨cs, hcs⟩ := List.getLast?_eq_some_iff.mp hlast
  refine absurd ?_ h.not_mem_empty
  simp [parts, hcs, split_chars_append, splitChars]

theorem normalize_eq (h : Plain path) : normalize path = path := by
  apply String.toList_inj.mp
  rw [normalize, String.toList_map]
  conv_rhs => rw [← List.map_id path.toList]
  refine List.map_congr_left fun c hc => ?_
  by_cases hb : c = '\\'
  · subst hb
    obtain ⟨part, hpart, hmem⟩ := exists_mem_split_chars hc (by decide)
    have hname := h (String.ofList part) (List.mem_map_of_mem hpart)
    exact absurd (by simpa using hmem) hname.2.2.2.2
  · rw [if_neg hb, id]

theorem parent?_eq (h : Plain name) : parent? name = some (ofParts (parts name).dropLast) := by
  have hall : ∀ n ∈ (parts name).reverse, IsName n := fun n hn => h n (List.mem_reverse.mp hn)
  rw [parent?, drop_void_names hall]
  cases hr : (parts name).reverse with
  | nil => exact absurd (List.reverse_eq_nil_iff.mp hr) (parts_ne_nil name)
  | cons last before =>
    have hdrop : (parts name).dropLast = before.reverse := by
      rw [← List.reverse_reverse (parts name), hr, List.reverse_cons, List.dropLast_concat]
    rw [hr] at hall
    dsimp only
    rw [drop_void_names (List.forall_mem_cons.mp hall).2, hdrop]
    cases before with
    | nil => simp [h.not_is_absolute, ofParts]
    | cons n names => rfl

theorem join_eq (h : Plain path) {names : List String} (hn : ∀ n ∈ names, IsName n) :
    join (ofParts names) path = ofParts (names ++ parts path) := by
  rw [join, h.not_is_absolute]
  by_cases hnil : names = []
  · subst hnil
    rw [List.nil_append, of_parts_parts]
    simp [ofParts]
  · have hp := plain_names hnil hn
    rw [of_parts_append hnil (parts_ne_nil path), of_parts_parts]
    cases hlast : (ofParts names).toList.getLast? with
    | none =>
      have hempty : ofParts names = "" := by simpa using hlast
      exact absurd hempty hp.ne_empty
    | some c =>
      have hc : c ≠ '/' := fun hc => hp.get_last?_ne_slash (hc ▸ hlast)
      simp

theorem join_parent (h : Plain path) (hname : Plain name) :
    join ((parent? name).getD "") path = ofParts ((parts name).dropLast ++ parts path) := by
  rw [hname.parent?_eq, Option.getD_some]
  exact h.join_eq fun n hn => hname n (List.dropLast_subset _ hn)

theorem join_plain (h : Plain path) (hname : Plain name) :
    Plain (join ((parent? name).getD "") path) := by
  rw [h.join_parent hname]
  apply plain_names
  · simp [parts_ne_nil]
  · intro n hn
    rcases List.mem_append.mp hn with hn | hn
    · exact hname n (List.dropLast_subset _ hn)
    · exact h n hn

end Plain

end DataLayout.Path
