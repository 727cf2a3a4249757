import DataLayout.Token.Lexer

/-!
# Token streams

All tokens of a file at once: the list of them up to the end of the file or up to the first
place where no token can be read. Every read before the end leaves fewer characters, which is
why the list is finite.
-/

set_option autoImplicit false

namespace DataLayout

namespace Lexeme

theorem skip_length_le :
    (∀ (cs : List Char) (line : Nat), (skipTrivia cs line).2.length ≤ cs.length) ∧
      ∀ (cs : List Char) (line : Nat), (skipComment cs line).2.length ≤ cs.length := by
  apply skipTrivia.mutual_induct
  case case1 =>
    intro line
    exact Nat.le_of_eq (by rw [skipTrivia])
  case case2 =>
    intro cs line ih
    rw [skipTrivia]
    exact Nat.le_succ_of_le ih
  case case3 =>
    intro cs line ih
    rw [skipTrivia]
    exact Nat.le_succ_of_le (Nat.le_succ_of_le ih)
  case case4 =>
    intro c cs line hc hslash hblank ih
    rw [skipTrivia, if_pos hblank]
    · exact Nat.le_succ_of_le ih
    · exact hc
    · exact hslash
  case case5 =>
    intro c cs line hc hslash hblank
    apply Nat.le_of_eq
    rw [skipTrivia, if_neg hblank]
    · exact hc
    · exact hslash
  case case6 =>
    intro line
    exact Nat.le_of_eq (by rw [skipComment])
  case case7 =>
    intro cs line ih
    rw [skipComment]
    exact Nat.le_succ_of_le ih
  case case8 =>
    intro c cs line hc ih
    rw [skipComment]
    · exact Nat.le_succ_of_le ih
    · exact hc

theorem skip_trivia_length_le (cs : List Char) (line : Nat) :
    (skipTrivia cs line).2.length ≤ cs.length :=
  skip_length_le.1 cs line

theorem digits_length_le (cs : List Char) (value : Nat) :
    (digits cs value).2.length ≤ cs.length := by
  induction cs generalizing value with
  | nil => simp [digits]
  | cons c cs ih =>
    simp only [digits]
    split
    · split
      · exact Nat.le_succ_of_le (ih _)
      · simp
    · simp

theorem digits_cons_length_le (c : Char) (cs : List Char) (value : Nat) (hc : c.isDigit) :
    (digits (c :: cs) value).2.length ≤ cs.length := by
  simp only [digits, hc, if_true]
  split
  · exact digits_length_le _ _
  · simp

theorem scan_integer_rest (negative : Bool) (cs : List Char) :
    (scanInteger negative cs).2 = (digits cs 0).2 := by
  unfold scanInteger
  split
  · simp_all
  · split <;> simp_all

theorem quoted_body_length_le (cs : List Char) : (quotedBody cs).2.length ≤ cs.length := by
  fun_induction quotedBody cs with
  | case1 => exact Nat.le_refl _
  | case2 cs => exact Nat.le_succ _
  | case3 cs => exact Nat.le_succ _
  | case4 => exact Nat.zero_le _
  | case5 c cs hescape => exact Nat.le_succ_of_le (Nat.le_succ _)
  | case6 c cs d hescape ih => exact Nat.le_succ_of_le (Nat.le_succ_of_le ih)
  | case7 c cs hquote hnewline hlast hescape ih => exact Nat.le_succ_of_le ih

theorem scan_mark_length_le (c : Char) (cs : List Char) :
    (scanMark c cs).2.length ≤ cs.length := by
  unfold scanMark
  split
  · simp
  · simp
  · split <;> simp

theorem is_word_part_of_is_word_start {c : Char} (h : isWordStart c = true) :
    isWordPart c = true := by
  simp only [isWordStart, isWordPart, Bool.or_eq_true] at h ⊢
  rcases h with h | h <;> simp [h]

theorem scan_word_length_le (c : Char) (cs : List Char) (hc : isWordStart c) :
    (scanWord (c :: cs)).2.length ≤ cs.length := by
  simp only [scanWord, List.dropWhile_cons, is_word_part_of_is_word_start hc, if_true]
  exact (List.dropWhile_sublist _).length_le

theorem scan_cons_length_le (c : Char) (cs : List Char) :
    (scan (c :: cs)).2.length ≤ cs.length := by
  simp only [scan]
  split
  · rw [scan_integer_rest]; exact digits_cons_length_le _ _ _ ‹_›
  · split
    · exact scan_word_length_le _ _ ‹_›
    · split
      · rw [scan_integer_rest]; exact digits_length_le _ _
      · split
        · exact quoted_body_length_le _
        · exact scan_mark_length_le _ _

end Lexeme

namespace Lexer

theorem read_input (l : Lexer) :
    l.read.2.input = (Lexeme.scan (Lexeme.skipTrivia l.input l.line).2).2 := by
  simp only [read]
  split <;> rfl

theorem read_input_length_lt (l : Lexer) (t : Token) (h : l.read.1 = .ok t)
    (ht : t.value ≠ .eof) : l.read.2.input.length < l.input.length := by
  have hl := Lexeme.skip_trivia_length_le l.input l.line
  rw [read_input]
  cases hc : (Lexeme.skipTrivia l.input l.line).2 with
  | nil =>
    simp only [read, hc, Lexeme.scan] at h
    cases h
    exact absurd rfl ht
  | cons c cs =>
    have hk := Lexeme.scan_cons_length_le c cs
    rw [hc] at hl
    simp only [List.length_cons] at hl
    omega

end Lexer

inductive Ending where
  | eof (location : Location)
  | fault (error : Located LexError)
  deriving DecidableEq, Repr

structure TokenStream where
  tokens : List Token
  ending : Ending
  deriving DecidableEq, Repr

namespace TokenStream

def push (t : Token) (s : TokenStream) : TokenStream := { s with tokens := t :: s.tokens }

def ofLexer (l : Lexer) : TokenStream :=
  match h : l.read.1 with
  | .error e => ⟨[], .fault e⟩
  | .ok t =>
    if ht : t.value = .eof then ⟨[], .eof t.location⟩
    else
      have := Lexer.read_input_length_lt l t h ht
      (ofLexer l.read.2).push t
termination_by l.input.length

def ofText (file text : String) : TokenStream := ofLexer (Lexer.ofText file text)

end TokenStream

end DataLayout
