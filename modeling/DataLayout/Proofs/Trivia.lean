import DataLayout.Token.Stream
import Mathlib.Data.List.Infix

/-!
# Blanks and comments

The characters that may stand in front of a symbol without being part of it. Skipping passes over
all of them and over nothing else.
-/

set_option autoImplicit false

namespace DataLayout

namespace Text

/-- The first of the characters, if there is one, is not of the given kind. -/
def StartsOutside (kind : Char → Bool) (cs : List Char) : Prop :=
  ∀ c, cs.head? = some c → kind c = false

theorem starts_outside_nil (kind : Char → Bool) : StartsOutside kind [] := by
  intro c hc
  cases hc

theorem starts_outside_cons {kind : Char → Bool} {c : Char} {cs : List Char} :
    StartsOutside kind (c :: cs) ↔ kind c = false := by
  simp [StartsOutside]

theorem StartsOutside.take_while_append {kind : Char → Bool} {cs rest : List Char}
    (h : StartsOutside kind rest) (hcs : ∀ c ∈ cs, kind c = true) :
    (cs ++ rest).takeWhile kind = cs := by
  have hrest : rest.takeWhile kind = [] := by
    cases rest with
    | nil => rfl
    | cons c cs => simp [starts_outside_cons.mp h]
  rw [List.takeWhile_append_of_pos hcs, hrest, List.append_nil]

theorem StartsOutside.drop_while_append {kind : Char → Bool} {cs rest : List Char}
    (h : StartsOutside kind rest) (hcs : ∀ c ∈ cs, kind c = true) :
    (cs ++ rest).dropWhile kind = rest := by
  have hrest : rest.dropWhile kind = rest := by
    cases rest with
    | nil => rfl
    | cons c cs => simp [starts_outside_cons.mp h]
  rw [List.dropWhile_append_of_pos hcs, hrest]

theorem Ranges.exists_of_holds {ranges : Ranges} {n : Nat} (h : ranges.holds n = true) :
    ∃ r ∈ ranges, n ∈ List.range' r.1 (r.2 + 1 - r.1) := by
  induction ranges with
  | nil => cases h
  | cons r ranges ih =>
    rw [holds] at h
    split at h
    · next hlast =>
      have hfirst := of_decide_eq_true h
      exact ⟨r, List.mem_cons_self, List.mem_range'_1.mpr (by omega)⟩
    · obtain ⟨r', hr', hn⟩ := ih h
      exact ⟨r', List.mem_cons_of_mem r hr', hn⟩

end Text

namespace Lexeme

open Text

section Characters

variable {c : Char}

theorem blank_outside : ∀ r ∈ blankRanges, ∀ n ∈ List.range' r.1 (r.2 + 1 - r.1),
    alphabeticRanges.holds n = false ∧ numericRanges.holds n = false ∧ n ≠ '_'.toNat := by
  decide +kernel

theorem is_word_part_of_is_blank (h : isBlank c = true) : isWordPart c = false := by
  obtain ⟨r, hr, hc⟩ := Ranges.exists_of_holds h
  obtain ⟨ha, hn, hu⟩ := blank_outside r hr c.toNat hc
  have hne : c ≠ '_' := fun he => hu (congrArg Char.toNat he)
  simp [isWordPart, isAlphabetic, isNumeric, ha, hn, hne]

theorem is_blank_of_is_word_start (h : isWordStart c = true) : isBlank c = false := by
  by_contra hb
  have hpart := is_word_part_of_is_blank (Bool.not_eq_false _ ▸ hb)
  rw [is_word_part_of_is_word_start h] at hpart
  cases hpart

theorem digit_outside : ∀ n ∈ List.range' '0'.toNat 10,
    alphabeticRanges.holds n = false ∧ blankRanges.holds n = false ∧ n ≠ '_'.toNat ∧
      n ≠ '/'.toNat := by
  decide

theorem outside_of_is_digit (h : c.isDigit = true) :
    isWordStart c = false ∧ isBlank c = false ∧ c ≠ '/' := by
  have hc : c.toNat ∈ List.range' '0'.toNat 10 := by
    obtain ⟨hfirst, hlast⟩ := Char.isDigit_iff_toNat.mp h
    exact List.mem_range'_1.mpr ⟨hfirst, Nat.lt_succ_of_le hlast⟩
  obtain ⟨ha, hb, hu, hs⟩ := digit_outside c.toNat hc
  have hne : c ≠ '_' := fun he => hu (congrArg Char.toNat he)
  exact ⟨by simp [isWordStart, isAlphabetic, ha, hne], hb, fun he => hs (congrArg Char.toNat he)⟩

end Characters

def AtLineEnd (cs : List Char) : Prop := StartsOutside (· != '\n') cs

/-- Blanks and comments that stand in front of `rest`. A comment runs up to a line end or to the end
of all characters. -/
inductive Trivia (rest : List Char) : List Char → Prop
  | nil : Trivia rest []
  | blank {c : Char} {w : List Char} (hc : isBlank c = true) (h : Trivia rest w) :
      Trivia rest (c :: w)
  | comment {body w : List Char} (hb : '\n' ∉ body) (he : AtLineEnd (w ++ rest))
      (h : Trivia rest w) : Trivia rest ('/' :: '/' :: (body ++ w))

def StartsPlain (cs : List Char) : Prop := StartsOutside isBlank cs ∧ ¬ ['/', '/'] <+: cs

theorem starts_plain_nil : StartsPlain [] := ⟨starts_outside_nil isBlank, by simp⟩

theorem starts_plain_cons {c : Char} {cs : List Char} (hblank : isBlank c = false)
    (hslash : c ≠ '/') : StartsPlain (c :: cs) := by
  refine ⟨starts_outside_cons.mpr hblank, ?_⟩
  rintro ⟨more, hmore⟩
  injection hmore with hc
  exact hslash hc.symm

theorem is_blank_newline : isBlank '\n' = true := by decide

theorem exists_trivia :
    (∀ (cs : List Char) (line : Nat), StartsPlain (skipTrivia cs line).2 ∧
      ∃ w, cs = w ++ (skipTrivia cs line).2 ∧ Trivia (skipTrivia cs line).2 w) ∧
    ∀ (cs : List Char) (line : Nat), StartsPlain (skipComment cs line).2 ∧
      ∃ body w, cs = body ++ (w ++ (skipComment cs line).2) ∧ '\n' ∉ body ∧
        AtLineEnd (w ++ (skipComment cs line).2) ∧ Trivia (skipComment cs line).2 w := by
  -- the two functions call one another, so one induction gives both halves
  apply skipTrivia.mutual_induct
  case case1 =>
    intro line
    rw [skipTrivia]
    exact ⟨starts_plain_nil, [], rfl, .nil⟩
  case case2 =>
    intro cs line ih
    obtain ⟨hplain, w, hcs, hw⟩ := ih
    rw [skipTrivia]
    exact ⟨hplain, '\n' :: w, congrArg _ hcs, .blank is_blank_newline hw⟩
  case case3 =>
    intro cs line ih
    obtain ⟨hplain, body, w, hcs, hbody, hend, hw⟩ := ih
    rw [skipTrivia]
    refine ⟨hplain, '/' :: '/' :: (body ++ w), ?_, .comment hbody hend hw⟩
    rw [List.cons_append, List.cons_append, List.append_assoc, ← hcs]
  case case4 =>
    intro c cs line hc hslash hblank ih
    obtain ⟨hplain, w, hcs, hw⟩ := ih
    rw [skipTrivia, if_pos hblank]
    · exact ⟨hplain, c :: w, congrArg _ hcs, .blank hblank hw⟩
    · exact hc
    · exact hslash
  case case5 =>
    intro c cs line hc hslash hblank
    rw [skipTrivia, if_neg hblank]
    · refine ⟨⟨starts_outside_cons.mpr (Bool.not_eq_true _ ▸ hblank), ?_⟩, [], rfl, .nil⟩
      rintro ⟨more, hmore⟩
      injection hmore with hfirst hrest
      exact hslash more hfirst.symm hrest.symm
    · exact hc
    · exact hslash
  case case6 =>
    intro line
    rw [skipComment]
    exact ⟨starts_plain_nil, [], [], rfl, List.not_mem_nil, starts_outside_nil _, .nil⟩
  case case7 =>
    intro cs line ih
    obtain ⟨hplain, w, hcs, hw⟩ := ih
    rw [skipComment]
    refine ⟨hplain, [], '\n' :: w, congrArg _ hcs, List.not_mem_nil, ?_,
      .blank is_blank_newline hw⟩
    exact starts_outside_cons.mpr rfl
  case case8 =>
    intro c cs line hc ih
    obtain ⟨hplain, body, w, hcs, hbody, hend, hw⟩ := ih
    rw [skipComment]
    · refine ⟨hplain, c :: body, w, congrArg _ hcs, ?_, hend, hw⟩
      rw [List.mem_cons, not_or]
      exact ⟨fun he => hc he.symm, hbody⟩
    · exact hc

theorem skip_comment_append {body cs : List Char} (hb : '\n' ∉ body) (he : AtLineEnd cs)
    (line : Nat) : skipComment (body ++ cs) line = skipTrivia cs line := by
  induction body with
  | nil =>
    cases cs with
    | nil => simp [skipComment, skipTrivia]
    | cons c cs =>
      have hc : c = '\n' := by simpa using starts_outside_cons.mp he
      rw [hc, List.nil_append, skipComment, skipTrivia]
  | cons c body ih =>
    rw [List.mem_cons, not_or] at hb
    rw [List.cons_append, skipComment]
    · exact ih hb.2
    · exact fun hc => hb.1 hc.symm

theorem skip_trivia_append {w rest : List Char} (hw : Trivia rest w) (hr : StartsPlain rest)
    (line : Nat) : (skipTrivia (w ++ rest) line).2 = rest := by
  induction hw generalizing line with
  | nil =>
    obtain ⟨hblank, hslash⟩ := hr
    cases rest with
    | nil => rw [List.nil_append, skipTrivia]
    | cons c cs =>
      have hc := starts_outside_cons.mp hblank
      rw [List.nil_append, skipTrivia, if_neg (by simp [hc])]
      · rintro rfl
        cases hc
      · rintro more rfl rfl
        exact hslash (List.prefix_append ['/', '/'] more)
  | @blank c w hc _ ih =>
    by_cases hn : c = '\n'
    · rw [hn, List.cons_append, skipTrivia, ih]
    · rw [List.cons_append, skipTrivia, if_pos hc, ih]
      · exact hn
      · rintro _ rfl
        cases hc
  | comment hb he _ ih =>
    rw [List.cons_append, List.cons_append, skipTrivia, List.append_assoc,
      skip_comment_append hb he, ih]

end Lexeme

end DataLayout
