import DataLayout.Proofs.Positions

/-!
# Integer literals

A run of digits, with or without a minus sign in front, is read as the number that it denotes in
decimal notation, if that number is a signed word, and as an error otherwise. Leading zeros do not
matter. The digits are added up as far as the sum fits in an unsigned word; one that does not is
too great for either sign.
-/

set_option autoImplicit false

namespace DataLayout

namespace Lexeme

open Text

variable {negative : Bool} {n : Nat} {ds rest : List Char}

theorem digits_beyond {value : Nat} (hds : ∀ d ∈ ds, d.isDigit = true)
    (hvalue : value < accumulatorLimit)
    (hlimit : accumulatorLimit ≤ Nat.ofDigitChars 10 ds value) (cs : List Char) :
    (digits (ds ++ cs) value).1 = none := by
  induction ds generalizing value with
  | nil =>
    rw [Nat.ofDigitChars_nil] at hlimit
    exact absurd hvalue (Nat.not_lt.mpr hlimit)
  | cons d ds ih =>
    rw [Nat.ofDigitChars_cons, Nat.mul_comm] at hlimit
    rw [List.cons_append, digits, if_pos (hds d List.mem_cons_self)]
    dsimp only
    split_ifs with hstep
    · exact ih (fun d' hd' => hds d' (List.mem_cons_of_mem d hd')) hstep hlimit
    · rfl

theorem signed_eq_none (h : ∀ v : Int64, v.toInt ≠ withSign negative n) :
    signed negative n = none := by
  cases hs : signed negative n with
  | none => rfl
  | some v => exact absurd (signed_eq_some.mp hs) (h v)

theorem scan_integer_out_of_range (hds : Numeral n ds) (hr : StartsOutside Char.isDigit rest)
    (h : ∀ v : Int64, v.toInt ≠ withSign negative n) :
    (scanInteger negative (ds ++ rest)).1 = .error .integerOutOfRange := by
  by_cases hlimit : n < accumulatorLimit
  · have hdigits := digits_append hds.isDigit hr (hds.value.symm ▸ hlimit)
    simp only [scanInteger, hdigits, hds.value, signed_eq_none h]
  · have hlimit' : accumulatorLimit ≤ Nat.ofDigitChars 10 ds 0 :=
      hds.value.symm ▸ Nat.not_lt.mp hlimit
    have hbeyond := digits_beyond hds.isDigit (by decide) hlimit' rest
    rw [scanInteger]
    split
    · rfl
    · next heq =>
      rw [heq] at hbeyond
      cases hbeyond

def signText (negative : Bool) : List Char := if negative then ['-'] else []

theorem scan_sign_text (negative : Bool) (hds : Numeral n ds) (rest : List Char) :
    scan (signText negative ++ (ds ++ rest)) = scanInteger negative (ds ++ rest) := by
  obtain ⟨d, ds', rfl, hd⟩ := hds.exists_cons
  cases negative with
  | false => exact if_pos hd
  | true =>
    change scan ('-' :: (d :: ds' ++ rest)) = _
    rw [scan, if_neg (by decide), if_neg (by decide), if_pos ⟨rfl, hd⟩]

theorem starts_plain_sign_text (negative : Bool) (hds : Numeral n ds) (rest : List Char) :
    StartsPlain (signText negative ++ (ds ++ rest)) := by
  obtain ⟨d, ds', rfl, hd⟩ := hds.exists_cons
  cases negative with
  | false =>
    obtain ⟨_, hblank, hslash⟩ := outside_of_is_digit hd
    exact starts_plain_cons hblank hslash
  | true => exact starts_plain_cons (by decide) (by decide)

theorem exists_to_int_eq_iff {i : Int} : (∃ v : Int64, v.toInt = i) ↔
    -9223372036854775808 ≤ i ∧ i ≤ 9223372036854775807 := by
  constructor
  · rintro ⟨v, rfl⟩
    exact ⟨v.le_toInt, Int.le_of_lt_add_one v.toInt_lt⟩
  · rintro ⟨hlow, hhigh⟩
    exact ⟨Int64.ofInt i, Int64.toInt_ofInt_of_le hlow (Int.lt_add_one_of_le hhigh)⟩

end Lexeme

namespace Lexer

open Lexeme Text

section Reads

variable {l : Lexer} {line : Nat} {cs : List Char}

theorem read_of_scan_ok {s : Symbol} {rest : List Char}
    (hskip : skipTrivia l.input l.line = (line, cs)) (hscan : scan cs = (.ok s, rest)) :
    l.read = (.ok ⟨⟨l.file, line⟩, s⟩, { l with line := line, input := rest }) := by
  simp only [read, hskip, hscan]
  rfl

theorem read_of_scan_error {e : LexError} (hskip : skipTrivia l.input l.line = (line, cs))
    (hscan : (scan cs).1 = .error e) : l.read.1 = .error ⟨⟨l.file, line⟩, e⟩ := by
  simp only [read, hskip, hscan]
  rfl

end Reads

/-- Where a run of digits is next, with or without a sign, the number it denotes is taken if it is
a signed word, and otherwise it is out of range. While the digits are added up the sum is the number
that the digits so far denote, as long as this is an unsigned word, and none after that. -/
theorem next_integer (l : Lexer) (negative : Bool) {n : Nat} {w ds rest : List Char}
    (hpeeked : l.peeked = none)
    (hinput : l.input = w ++ (signText negative ++ (ds ++ rest)))
    (hw : Trivia (signText negative ++ (ds ++ rest)) w) (hds : Numeral n ds)
    (hr : StartsOutside Char.isDigit rest) :
    (-9223372036854775808 ≤ withSign negative n ∧ withSign negative n ≤ 9223372036854775807 →
      ∃ v : Int64, v.toInt = withSign negative n ∧
        l.next.1 = .ok ⟨⟨l.file, l.line + lineEnds w⟩, .integer v⟩ ∧ l.next.2.input = rest) ∧
    (¬ (-9223372036854775808 ≤ withSign negative n ∧ withSign negative n ≤ 9223372036854775807) →
      l.next.1 = .error ⟨⟨l.file, l.line + lineEnds w⟩, .integerOutOfRange⟩) ∧
    ∀ front back, ds = front ++ back →
      (Nat.ofDigitChars 10 front 0 < accumulatorLimit →
        digits (ds ++ rest) 0 = digits (back ++ rest) (Nat.ofDigitChars 10 front 0)) ∧
      (accumulatorLimit ≤ Nat.ofDigitChars 10 front 0 → (digits (ds ++ rest) 0).1 = none) := by
  have hskip : skipTrivia l.input l.line = (l.line + lineEnds w, _) :=
    hinput ▸ skip_trivia_eq hw (starts_plain_sign_text negative hds rest) l.line
  have hliteral := scan_sign_text negative hds rest
  rw [next_eq_read hpeeked]
  refine ⟨fun hin => ?_, fun hout => ?_, ?_⟩
  · obtain ⟨v, hv⟩ := exists_to_int_eq_iff.mpr hin
    rw [read_of_scan_ok hskip (hliteral.trans (scan_integer_append hds hv hr))]
    exact ⟨v, hv, rfl, rfl⟩
  · have hnone : ∀ v : Int64, v.toInt ≠ withSign negative n :=
      fun v hv => hout (exists_to_int_eq_iff.mp ⟨v, hv⟩)
    refine read_of_scan_error hskip ?_
    rw [hliteral]
    exact scan_integer_out_of_range hds hr hnone
  · rintro front back rfl
    have hfront : ∀ d ∈ front, d.isDigit = true :=
      fun d hd => hds.isDigit d (List.mem_append_left back hd)
    rw [List.append_assoc]
    exact ⟨fun hlimit => digits_front hfront hlimit _,
      fun hlimit => digits_beyond hfront (by decide) hlimit _⟩

theorem next_integer_limits :
    (∃ v : Int64, v.toInt = -9223372036854775808 ∧
      (ofText "a" "// 1\n-09223372036854775808+").next.1 = .ok ⟨⟨"a", 2⟩, .integer v⟩ ∧
      (ofText "a" "// 1\n-09223372036854775808+").next.2.input = ['+']) ∧
    (ofText "a" "18446744073709551616").next.1 = .error ⟨⟨"a", 1⟩, .integerOutOfRange⟩ := by
  have hleast : Numeral 9223372036854775808 "09223372036854775808".toList :=
    ⟨by decide, List.all_eq_true.mp rfl, by decide⟩
  have hgreat : Numeral 18446744073709551616 "18446744073709551616".toList :=
    ⟨by decide, List.all_eq_true.mp rfl, by decide⟩
  have hcomment : Trivia "-09223372036854775808+".toList ('/' :: '/' :: ([' ', '1'] ++ ['\n'])) :=
    .comment (by decide) (starts_outside_cons.mpr rfl) (.blank is_blank_newline .nil)
  have hplus : StartsOutside Char.isDigit ['+'] := starts_outside_cons.mpr rfl
  obtain ⟨hin, _⟩ := next_integer (ofText "a" "// 1\n-09223372036854775808+") true
    rfl rfl hcomment hleast hplus
  obtain ⟨_, hout, _⟩ := next_integer (ofText "a" "18446744073709551616") false
    rfl rfl .nil hgreat (starts_outside_nil _)
  exact ⟨hin (by decide), hout (by decide)⟩

end Lexer

end DataLayout
