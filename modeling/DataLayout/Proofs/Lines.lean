import DataLayout.Token.Stream
import Mathlib.Data.List.Infix

/-!
# Line numbers

What is left of a text after a read is a suffix of what was there, and the line grows by the line
ends that were skipped. So no line number is greater than the number of lines.
-/

set_option autoImplicit false

namespace DataLayout

namespace Lexeme

def lineEnds (cs : List Char) : Nat := cs.count '\n'

theorem line_ends_newline (cs : List Char) : lineEnds ('\n' :: cs) = lineEnds cs + 1 :=
  List.count_cons_self

theorem line_ends_cons {c : Char} (hc : c ≠ '\n') (cs : List Char) :
    lineEnds (c :: cs) = lineEnds cs :=
  List.count_cons_of_ne hc

theorem skip_line_ends :
    (∀ (cs : List Char) (line : Nat),
      (skipTrivia cs line).1 + lineEnds (skipTrivia cs line).2 = line + lineEnds cs) ∧
    ∀ (cs : List Char) (line : Nat),
      (skipComment cs line).1 + lineEnds (skipComment cs line).2 = line + lineEnds cs := by
  apply skipTrivia.mutual_induct
  case case1 | case6 => exact fun line => rfl
  case case2 | case7 =>
    -- a line end, in the open or at the end of a comment
    intro cs line ih
    rw [line_ends_newline]
    simp only [skipTrivia, skipComment, ih]
    omega
  case case3 =>
    intro cs line ih
    rw [line_ends_cons (by decide), line_ends_cons (by decide)]
    simp only [skipTrivia, ih]
  case case4 =>
    intro c cs line hc hslash hblank ih
    rw [line_ends_cons hc]
    simp only [skipTrivia, hblank, if_true, ih]
  case case5 =>
    intro c cs line hc hslash hblank
    simp only [skipTrivia, hblank, Bool.false_eq_true, if_false]
  case case8 =>
    intro c cs line hc ih
    rw [line_ends_cons hc]
    simp only [skipComment, ih]

theorem digits_suffix (cs : List Char) (value : Nat) : (digits cs value).2 <:+ cs := by
  induction cs generalizing value with
  | nil => exact List.suffix_rfl
  | cons c cs ih =>
    simp only [digits]
    split_ifs
    · exact (ih _).trans (List.suffix_cons c cs)
    · exact List.suffix_cons c cs
    · exact List.suffix_rfl

theorem quoted_body_suffix (cs : List Char) : (quotedBody cs).2 <:+ cs := by
  fun_induction quotedBody cs with
  | case1 => exact List.suffix_rfl
  | case2 cs | case3 cs => exact List.suffix_cons _ cs
  | case4 => exact List.nil_suffix
  | case5 c cs _ => exact (List.suffix_cons c cs).trans (List.suffix_cons _ _)
  | case6 c cs d _ ih => exact (ih.trans (List.suffix_cons c cs)).trans (List.suffix_cons _ _)
  | case7 c cs _ _ _ _ ih => exact ih.trans (List.suffix_cons c cs)

theorem scan_mark_suffix (c : Char) (cs : List Char) : (scanMark c cs).2 <:+ cs := by
  unfold scanMark
  split
  · exact List.suffix_cons _ _
  · exact List.suffix_cons _ _
  · split <;> exact List.suffix_rfl

theorem scan_suffix (cs : List Char) : (scan cs).2 <:+ cs := by
  cases cs with
  | nil => exact List.suffix_rfl
  | cons c cs =>
    rw [scan]
    split_ifs
    · rw [scan_integer_rest]
      exact digits_suffix _ _
    · exact List.dropWhile_suffix _
    · rw [scan_integer_rest]
      exact (digits_suffix _ _).trans (List.suffix_cons c cs)
    · exact (quoted_body_suffix cs).trans (List.suffix_cons c cs)
    · exact (scan_mark_suffix c cs).trans (List.suffix_cons c cs)

end Lexeme

namespace Lexer

theorem read_location (l : Lexer) :
    (∀ t, l.read.1 = .ok t → t.location = l.read.2.location) ∧
      ∀ e, l.read.1 = .error e → e.location = l.read.2.location := by
  simp only [read]
  split
  · constructor
    · rintro t ⟨⟩
      rfl
    · rintro e ⟨⟩
  · constructor
    · rintro t ⟨⟩
    · rintro e ⟨⟩
      rfl

end Lexer

def Ending.location : Ending → Location
  | .eof location => location
  | .fault error => error.location

namespace TokenStream

end TokenStream

end DataLayout
