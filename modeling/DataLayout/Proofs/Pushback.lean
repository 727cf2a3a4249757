import DataLayout.Proofs.Lookahead
import DataLayout.Token.Reader

/-!
# Characters given back come first

What a reader has still to read are the characters that were given back, the last one first, and
then the others. On these it does what a lexer does that has them before it as a list. Between calls
no more than one character is given back.
-/

set_option autoImplicit false

namespace DataLayout

namespace Lexeme

theorem skip_comment_eq (cs : List Char) (line : Nat) :
    skipComment cs line = skipTrivia (cs.dropWhile (· != '\n')) line := by
  induction cs with
  | nil => rw [skipComment, List.dropWhile_nil, skipTrivia]
  | cons c cs ih =>
    by_cases hc : c = '\n'
    · subst hc
      rw [skipComment, List.dropWhile_cons_of_neg (by simp), skipTrivia]
    · rw [skipComment, List.dropWhile_cons_of_pos (by simpa using hc), ih]
      exact hc

theorem scan_mark_pair {c : Char} {m : Mark} (cs : List Char)
    (h : (c, m) = ('<', .shiftLeft) ∨ (c, m) = ('>', .shiftRight)) :
    scanMark c cs = if cs.head? = some c then (.ok (.mark m), cs.tail)
      else (.error (.illegalCharacter c), cs) := by
  cases cs with
  | nil => rcases h with h | h <;> cases h <;> rfl
  | cons d cs =>
    by_cases hd : d = c
    · subst hd
      rcases h with h | h <;> cases h <;> rfl
    · rcases h with h | h <;> cases h <;> simp [scanMark, hd, mark?]

end Lexeme

namespace Characters

open Text

variable {s s' : Characters} {c t : Char}

section Unread

theorem peek_fst (s : Characters) : s.peek.1 = s.unread.head? := by
  rw [peek]
  split
  · next h => rw [unread_of_get_none h, List.head?_nil]
  · next c s' h => rw [unread_of_get h, List.head?_cons]

theorem peek_unread (s : Characters) : s.peek.2.unread = s.unread := by
  rw [peek]
  split
  · rfl
  · next c s' h => rw [unread_of_get h, unget_unread]

theorem next_if_fst (t : Char) (s : Characters) :
    (s.nextIf t).1 = decide (s.unread.head? = some t) := by
  rw [nextIf]
  split
  · next h => simp [unread_of_get_none h]
  · next c s' h =>
    rw [unread_of_get h]
    split <;> simp [*]

theorem next_if_unread (t : Char) (s : Characters) :
    s.unread = if (s.nextIf t).1 then t :: (s.nextIf t).2.unread else (s.nextIf t).2.unread := by
  rw [nextIf]
  split
  · rfl
  · next c s' h =>
    rw [unread_of_get h]
    split
    · next hc => rw [hc]; rfl
    · rfl

end Unread

section Simulation

theorem skip_trivia_unread (s : Characters) (line : Nat) :
    (s.skipTrivia line).map id unread = Lexeme.skipTrivia s.unread line := by
  fun_induction skipTrivia s line with
  | case1 s line h =>
    rw [unread_of_get_none h, Lexeme.skipTrivia, Prod.map, unread_of_get_none h]
    rfl
  | case2 s line s' h ih => rw [ih, unread_of_get h, Lexeme.skipTrivia]
  | case3 s line c s' h hc hblank ih =>
    rw [ih, unread_of_get h, Lexeme.skipTrivia, if_pos hblank]
    · exact hc
    · rintro cs rfl
      exact absurd hblank (by decide)
  | case4 s line s' htwice h hc hblank ih =>
    have hrest := s'.next_if_unread '/'
    rw [if_pos htwice] at hrest
    rw [ih, skip_comment_unread, ← Lexeme.skip_comment_eq, unread_of_get h, hrest,
      Lexeme.skipTrivia]
  | case5 s line s' honce h hc hblank =>
    have hrest := s'.next_if_unread '/'
    rw [if_neg honce] at hrest
    rw [next_if_fst, decide_eq_true_eq] at honce
    rw [unread_of_get h, Lexeme.skipTrivia, if_neg hblank]
    · rw [Prod.map, unget_unread, ← hrest]; rfl
    · exact hc
    · intro cs _ hcs
      exact honce (by rw [hcs, List.head?_cons])
  | case6 s line c s' h hc hblank hslash =>
    rw [unread_of_get h, Lexeme.skipTrivia, if_neg hblank]
    · rfl
    · exact hc
    · exact fun _ h _ => hslash h

theorem digits_unread (s : Characters) (value : Nat) :
    (s.digits value).map id unread = Lexeme.digits s.unread value := by
  fun_induction digits s value with
  | case1 s value h =>
    rw [unread_of_get_none h, Lexeme.digits, Prod.map, unread_of_get_none h]
    rfl
  | case2 s value c s' h hdigit hfits ih =>
    simp only [unread_of_get h, Lexeme.digits, if_pos hdigit, if_pos hfits, ih]
  | case3 s value c s' h hdigit hfits =>
    simp only [unread_of_get h, Lexeme.digits, if_pos hdigit, if_neg hfits]
    rfl
  | case4 s value c s' h hdigit =>
    simp only [unread_of_get h, Lexeme.digits, if_neg hdigit]
    rfl

theorem scan_integer_unread (negative : Bool) (s : Characters) :
    (s.scanInteger negative).map id unread = Lexeme.scanInteger negative s.unread := by
  rw [scanInteger, Lexeme.scanInteger, ← digits_unread]
  rcases s.digits 0 with ⟨_ | magnitude, s'⟩
  · rfl
  · cases hv : Lexeme.signed negative magnitude with
    | none => simp [hv]
    | some v => simp [hv]

theorem word_unread (s : Characters) :
    s.word.map id unread =
      (s.unread.takeWhile Lexeme.isWordPart, s.unread.dropWhile Lexeme.isWordPart) := by
  fun_induction word s with
  | case1 s h => rw [Prod.map, unread_of_get_none h]; rfl
  | case2 s c s' h hpart ih =>
    rw [unread_of_get h, List.takeWhile_cons_of_pos hpart, List.dropWhile_cons_of_pos hpart]
    rw [Prod.mk.injEq] at ih ⊢
    exact ⟨congrArg _ ih.1, ih.2⟩
  | case3 s c s' h hpart =>
    rw [unread_of_get h, List.takeWhile_cons_of_neg hpart, List.dropWhile_cons_of_neg hpart]
    rfl

theorem scan_word_unread (s : Characters) :
    s.scanWord.map id unread = Lexeme.scanWord s.unread := by
  rw [scanWord, Lexeme.scanWord, Prod.map_map]
  have hword := s.word_unread
  rw [Prod.mk.injEq] at hword
  exact Prod.ext (congrArg (Except.ok <| Symbol.ofWord <| String.ofList ·) hword.1) hword.2

theorem quoted_body_unread (s : Characters) :
    s.quotedBody.map id unread = Lexeme.quotedBody s.unread := by
  fun_induction quotedBody s with
  | case1 s h =>
    rw [unread_of_get_none h, Lexeme.quotedBody, Prod.map, unread_of_get_none h]
    rfl
  | case2 s s' h | case3 s s' h =>
    rw [unread_of_get h, Lexeme.quotedBody]
    rfl
  | case4 s s' h' h hquote hnewline =>
    rw [unread_of_get h, unread_of_get_none h', Lexeme.quotedBody, Prod.map, unread_of_get_none h']
    rfl
  | case5 s s' d s'' h' hescape h hquote hnewline =>
    rw [unread_of_get h, unread_of_get h', Lexeme.quotedBody, hescape]
    rfl
  | case6 s s' d s'' h' e hescape h hquote hnewline ih =>
    rw [unread_of_get h, unread_of_get h', Lexeme.quotedBody, hescape, ← ih]
    rfl
  | case7 s c s' h hquote hnewline hback ih =>
    rw [unread_of_get h, Lexeme.quotedBody, ← ih]
    · rfl
    · exact hquote
    · exact hnewline
    · exact fun hc _ => hback hc
    · exact fun _ _ hc _ => hback hc

theorem scan_quoted_unread (s : Characters) :
    s.scanQuoted.map id unread = Lexeme.scanQuoted s.unread := by
  rw [scanQuoted, Lexeme.scanQuoted, ← quoted_body_unread]
  rfl

theorem scan_pair_unread (c : Char) (m : Mark) (s : Characters) :
    (s.scanPair c m).map id unread =
      if s.unread.head? = some c then (.ok (.mark m), s.unread.tail)
      else (.error (.illegalCharacter c), s.unread) := by
  have hrest := s.next_if_unread c
  rw [scanPair, Prod.map_map]
  by_cases hc : s.unread.head? = some c
  · have htwice : (s.nextIf c).1 = true := by rw [next_if_fst, decide_eq_true hc]
    rw [if_pos htwice] at hrest
    rw [if_pos hc, hrest, List.tail_cons, Prod.map, htwice]
    rfl
  · have honce : (s.nextIf c).1 = false := by rw [next_if_fst, decide_eq_false hc]
    rw [honce, if_neg Bool.false_ne_true] at hrest
    rw [if_neg hc, hrest, Prod.map, honce]
    rfl

theorem scan_mark_unread (c : Char) (s : Characters) :
    (s.scanMark c).map id unread = Lexeme.scanMark c s.unread := by
  rw [scanMark]
  by_cases hless : c = '<'
  · subst hless
    rw [if_pos rfl, scan_pair_unread, Lexeme.scan_mark_pair _ (.inl rfl)]
  by_cases hgreater : c = '>'
  · subst hgreater
    rw [if_neg hless, if_pos rfl, scan_pair_unread, Lexeme.scan_mark_pair _ (.inr rfl)]
  · rw [if_neg hless, if_neg hgreater, Lexeme.scanMark]
    · cases hm : Lexeme.mark? c with
      | none => rfl
      | some m => rfl
    · exact fun _ h _ => hless h
    · exact fun _ h _ => hgreater h

theorem scan_unread (s : Characters) : s.scan.map id unread = Lexeme.scan s.unread := by
  rw [scan]
  split
  · next h => rw [unread_of_get_none h, Prod.map, unread_of_get_none h]; rfl
  · next c s' h =>
    rw [unread_of_get h, Lexeme.scan]
    by_cases hdigit : c.isDigit
    · rw [if_pos hdigit, if_pos hdigit, scan_integer_unread, unget_unread]
    by_cases hword : Lexeme.isWordStart c
    · rw [if_neg hdigit, if_pos hword, if_neg hdigit, if_pos hword, scan_word_unread, unget_unread]
    rw [if_neg hdigit, if_neg hword, if_neg hdigit, if_neg hword]
    by_cases hminus : c = '-'
    · have hahead : Lexeme.startsWithDigit s'.unread = s'.peek.1.any Char.isDigit := by
        rw [peek_fst]
        cases s'.unread <;> rfl
      rw [if_pos hminus, hahead]
      by_cases hnumber : s'.peek.1.any Char.isDigit = true
      · rw [if_pos hnumber, if_pos ⟨hminus, hnumber⟩, scan_integer_unread, peek_unread]
      · rw [if_neg hnumber, if_neg fun h => hnumber h.2, scan_mark_unread, peek_unread,
          if_neg (by rw [hminus]; decide)]
    · have hnumber : ¬(c = '-' ∧ Lexeme.startsWithDigit s'.unread = true) := fun h => hminus h.1
      rw [if_neg hminus, if_neg hnumber]
      by_cases hquote : c = '"'
      · rw [if_pos hquote, if_pos hquote, scan_quoted_unread]
      · rw [if_neg hquote, if_neg hquote, scan_mark_unread]

end Simulation

section Depth

theorem pushback_of_get_none (h : s.get = none) : s.pushback = [] := by
  obtain ⟨back, chars⟩ := s
  cases back with
  | cons d back => cases h
  | nil => rfl

theorem pushback_of_get (h : s.get = some (c, s')) :
    s'.pushback.length = s.pushback.length - 1 := by
  obtain ⟨back, chars⟩ := s
  cases back with
  | cons d back =>
    cases h
    rfl
  | nil =>
    cases chars with
    | cons d chars =>
      cases h
      rfl
    | nil => cases h

theorem unget_pushback (c : Char) (s : Characters) :
    (s.unget c).pushback.length = s.pushback.length + 1 := rfl

theorem peek_pushback_le (s : Characters) : s.peek.2.pushback.length ≤ max 1 s.pushback.length := by
  rw [peek]
  split
  · exact Nat.le_max_right _ _
  · next c s' h =>
    have hget := pushback_of_get h
    rw [unget_pushback]
    omega

theorem next_if_pushback_le (t : Char) (s : Characters) :
    (s.nextIf t).2.pushback.length ≤ max 1 s.pushback.length := by
  rw [nextIf]
  split
  · exact Nat.le_max_right _ _
  · next c s' h =>
    have hget := pushback_of_get h
    split
    · dsimp only
      omega
    · rw [unget_pushback]
      omega

theorem skip_comment_pushback_le (s : Characters) :
    s.skipComment.pushback.length ≤ max 1 s.pushback.length := by
  fun_induction skipComment s with
  | case1 s h => exact Nat.le_max_right _ _
  | case2 s s' h =>
    have hget := pushback_of_get h
    rw [unget_pushback]
    omega
  | case3 s c s' h hc ih =>
    have hget := pushback_of_get h
    omega

theorem skip_trivia_pushback_le (s : Characters) (line : Nat) :
    (s.skipTrivia line).2.pushback.length ≤ max 2 s.pushback.length := by
  fun_induction skipTrivia s line with
  | case1 s line h => exact Nat.le_max_right _ _
  | case2 s line s' h ih =>
    have hget := pushback_of_get h
    omega
  | case3 s line c s' h hc hblank ih =>
    have hget := pushback_of_get h
    omega
  | case4 s line s' htwice h hc hblank ih =>
    have hget := pushback_of_get h
    have hnext := next_if_pushback_le '/' s'
    have hcomment := skip_comment_pushback_le (s'.nextIf '/').2
    omega
  | case5 s line s' honce h hc hblank =>
    -- the slash goes on top of the character behind it
    have hget := pushback_of_get h
    have hnext := next_if_pushback_le '/' s'
    rw [unget_pushback]
    omega
  | case6 s line c s' h hc hblank hslash =>
    have hget := pushback_of_get h
    rw [unget_pushback]
    omega

theorem digits_pushback_le (s : Characters) (value : Nat) :
    (s.digits value).2.pushback.length ≤ max 1 s.pushback.length := by
  fun_induction digits s value with
  | case1 s value h => exact Nat.le_max_right _ _
  | case2 s value c s' h hdigit hfits ih =>
    have hget := pushback_of_get h
    omega
  | case3 s value c s' h hdigit hfits =>
    have hget := pushback_of_get h
    dsimp only
    omega
  | case4 s value c s' h hdigit =>
    have hget := pushback_of_get h
    rw [unget_pushback]
    omega

theorem scan_integer_snd (negative : Bool) (s : Characters) :
    (s.scanInteger negative).2 = (s.digits 0).2 := by
  rw [scanInteger]
  rcases s.digits 0 with ⟨_ | magnitude, s'⟩
  · rfl
  · cases hv : Lexeme.signed negative magnitude with
    | none => simp [hv]
    | some v => simp [hv]

theorem word_pushback_le (s : Characters) :
    s.word.2.pushback.length ≤ max 1 s.pushback.length := by
  fun_induction word s with
  | case1 s h => exact Nat.le_max_right _ _
  | case2 s c s' h hpart ih =>
    have hget := pushback_of_get h
    rw [Prod.map_snd]
    dsimp only [id]
    omega
  | case3 s c s' h hpart =>
    have hget := pushback_of_get h
    rw [unget_pushback]
    omega

theorem quoted_body_pushback_le (s : Characters) :
    s.quotedBody.2.pushback.length ≤ s.pushback.length := by
  fun_induction quotedBody s with
  | case1 s h => exact Nat.le_refl _
  | case2 s s' h | case3 s s' h =>
    have hget := pushback_of_get h
    dsimp only
    omega
  | case4 s s' h' h hquote hnewline =>
    have hget := pushback_of_get h
    dsimp only
    omega
  | case5 s s' d s'' h' hescape h hquote hnewline =>
    have hget := pushback_of_get h
    have hget' := pushback_of_get h'
    dsimp only
    omega
  | case6 s s' d s'' h' e hescape h hquote hnewline ih =>
    have hget := pushback_of_get h
    have hget' := pushback_of_get h'
    rw [Prod.map_snd]
    dsimp only [id]
    omega
  | case7 s c s' h hquote hnewline hback ih =>
    have hget := pushback_of_get h
    rw [Prod.map_snd]
    dsimp only [id]
    omega

theorem scan_pair_pushback_le (c : Char) (m : Mark) (s : Characters) :
    (s.scanPair c m).2.pushback.length ≤ max 1 s.pushback.length :=
  s.next_if_pushback_le c

theorem scan_mark_pushback_le (c : Char) (s : Characters) :
    (s.scanMark c).2.pushback.length ≤ max 1 s.pushback.length := by
  rw [scanMark]
  split_ifs
  · exact scan_pair_pushback_le _ _ s
  · exact scan_pair_pushback_le _ _ s
  · split <;> exact Nat.le_max_right _ _

/-- A digit that was given back is read again at once. -/
theorem digits_unget_pushback_le (hdigit : c.isDigit = true) (s : Characters) (value : Nat) :
    ((s.unget c).digits value).2.pushback.length ≤ max 1 s.pushback.length := by
  rw [digits]
  split
  · next h => cases h
  · next d s' h =>
    cases h
    rw [if_pos hdigit]
    split_ifs
    · exact digits_pushback_le _ _
    · exact Nat.le_max_right _ _

theorem word_unget_pushback_le (hpart : Lexeme.isWordPart c = true) (s : Characters) :
    (s.unget c).word.2.pushback.length ≤ max 1 s.pushback.length := by
  rw [word]
  split
  · next h => cases h
  · next d s' h =>
    cases h
    rw [if_pos hpart, Prod.map_snd]
    exact word_pushback_le _

theorem scan_pushback_le (h : s.pushback.length ≤ 2) : s.scan.2.pushback.length ≤ 1 := by
  rw [scan]
  split
  · next hnone => simp [pushback_of_get_none hnone]
  · next c s' hsome =>
    have hget := pushback_of_get hsome
    have hone : max 1 s'.pushback.length = 1 := by omega
    split_ifs with hdigit hword hminus hnumber hquote
    · rw [scan_integer_snd, ← hone]
      exact digits_unget_pushback_le hdigit s' 0
    · rw [← hone]
      exact word_unget_pushback_le (Lexeme.is_word_part_of_is_word_start hword) s'
    · have hpeek := s'.peek_pushback_le
      have hdigits := s'.peek.2.digits_pushback_le 0
      rw [scan_integer_snd]
      omega
    · have hpeek := s'.peek_pushback_le
      have hmark := s'.peek.2.scan_mark_pushback_le c
      omega
    · have hbody : s'.scanQuoted.2.pushback.length ≤ _ := s'.quoted_body_pushback_le
      omega
    · have hmark := s'.scan_mark_pushback_le c
      omega

end Depth

end Characters

namespace Reader

open Lexer (Call Answer Outcome)

/-- The lexer that has before it what the reader has still to read. -/
def lexer (r : Reader) : Lexer := ⟨r.file, r.line, r.characters.unread, r.peeked⟩

theorem of_text_lexer (file text : String) : (ofText file text).lexer = Lexer.ofText file text :=
  rfl

section Simulation

variable (r : Reader)

theorem read_lexer : r.read.map id lexer = r.lexer.read := by
  have htrivia := (r.characters.skip_trivia_unread r.line).symm
  simp only [read, Lexer.read, lexer]
  generalize r.characters.skipTrivia r.line = trivia at htrivia ⊢
  have hscan := trivia.2.scan_unread.symm
  rw [htrivia, Prod.map_snd, hscan]
  rcases trivia.2.scan with ⟨_ | _, _⟩ <;> rfl

theorem next_lexer : r.next.map id lexer = r.lexer.next := by
  obtain ⟨file, line, characters, peeked⟩ := r
  cases peeked with
  | none => exact read_lexer _
  | some t => rfl

theorem peek_lexer : r.peek.map id lexer = r.lexer.peek := by
  obtain ⟨file, line, characters, peeked⟩ := r
  cases peeked with
  | none =>
    rw [peek, Lexer.peek, lexer]
    dsimp only
    rw [← lexer.eq_def ⟨file, line, characters, none⟩, ← read_lexer]
    rcases read ⟨file, line, characters, none⟩ with ⟨_ | _, _⟩ <;> rfl
  | some t => rfl

theorem next_if_lexer (k : Kind) : (r.nextIf k).map id lexer = r.lexer.nextIf k := by
  rw [nextIf, Lexer.nextIf, ← peek_lexer]
  rcases r.peek with ⟨_ | t, r'⟩
  · rfl
  · dsimp only [Prod.map, id]
    split_ifs <;> rfl

def call (r : Reader) : Call → Answer × Reader
  | .next => r.next.map (·.map some) id
  | .peek => r.peek.map (·.map some) id
  | .nextIf k => r.nextIf k

theorem call_lexer (c : Call) : (r.call c).map id lexer = r.lexer.call c := by
  cases c with
  | next => rw [call, Lexer.call, ← next_lexer]; rfl
  | peek => rw [call, Lexer.call, ← peek_lexer]; rfl
  | nextIf k => exact next_if_lexer r k

end Simulation

end Reader

end DataLayout
