import DataLayout.Proofs.Progress
import DataLayout.Proofs.Trivia
import Mathlib.Data.List.TakeWhile

/-!
# How symbols are spelled

The spellings of each symbol, as a relation between characters and what they stand for. The symbol
that is read off the characters is the one that a spelling at their front stands for, provided that
the symbol could not go on behind it.
-/

set_option autoImplicit false

namespace DataLayout

namespace Lexeme

open Text

section Numerals

structure Numeral (n : Nat) (ds : List Char) : Prop where
  ne_nil : ds ≠ []
  isDigit : ∀ d ∈ ds, d.isDigit = true
  value : Nat.ofDigitChars 10 ds 0 = n

theorem Numeral.exists_cons {n : Nat} {ds : List Char} (h : Numeral n ds) :
    ∃ d ds', ds = d :: ds' ∧ d.isDigit = true := by
  obtain ⟨d, ds', rfl⟩ := List.exists_cons_of_ne_nil h.ne_nil
  exact ⟨d, ds', rfl, h.isDigit d List.mem_cons_self⟩

theorem le_of_digit_chars (ds : List Char) (value : Nat) :
    value ≤ Nat.ofDigitChars 10 ds value := by
  induction ds generalizing value with
  | nil => exact Nat.le_of_eq Nat.ofDigitChars_nil.symm
  | cons d ds ih =>
    rw [Nat.ofDigitChars_cons]
    exact Nat.le_trans (by omega) (ih _)

theorem digits_front {ds : List Char} {value : Nat} (hds : ∀ d ∈ ds, d.isDigit = true)
    (hlimit : Nat.ofDigitChars 10 ds value < accumulatorLimit) (cs : List Char) :
    digits (ds ++ cs) value = digits cs (Nat.ofDigitChars 10 ds value) := by
  induction ds generalizing value with
  | nil => rw [List.nil_append, Nat.ofDigitChars_nil]
  | cons d ds ih =>
    rw [Nat.ofDigitChars_cons, Nat.mul_comm] at hlimit
    have hd := hds d List.mem_cons_self
    -- the value only grows, so it is below the limit after each digit if it is after the last
    have hstep := Nat.lt_of_le_of_lt (le_of_digit_chars ds _) hlimit
    rw [List.cons_append, digits, if_pos hd, Nat.ofDigitChars_cons, Nat.mul_comm 10]
    simp only [hstep, if_true]
    exact ih (fun d' hd' => hds d' (List.mem_cons_of_mem d hd')) hlimit

theorem digits_append {ds rest : List Char} {value : Nat} (hds : ∀ d ∈ ds, d.isDigit = true)
    (hr : StartsOutside Char.isDigit rest)
    (hlimit : Nat.ofDigitChars 10 ds value < accumulatorLimit) :
    digits (ds ++ rest) value = (some (Nat.ofDigitChars 10 ds value), rest) := by
  rw [digits_front hds hlimit]
  cases rest with
  | nil => rw [digits]
  | cons c cs => rw [digits, if_neg (by simp [starts_outside_cons.mp hr])]

theorem exists_of_digits {cs rest : List Char} {value n : Nat}
    (h : digits cs value = (some n, rest)) :
    ∃ ds, cs = ds ++ rest ∧ (∀ d ∈ ds, d.isDigit = true) ∧
      Nat.ofDigitChars 10 ds value = n ∧ StartsOutside Char.isDigit rest := by
  induction cs generalizing value with
  | nil =>
    cases h
    exact ⟨[], rfl, by simp, Nat.ofDigitChars_nil, starts_outside_nil _⟩
  | cons c cs ih =>
    rw [digits] at h
    split_ifs at h with hc
    · dsimp only at h
      split_ifs at h with hlimit
      · obtain ⟨ds, hcs, hds, hn, hr⟩ := ih h
        refine ⟨c :: ds, congrArg _ hcs, List.forall_mem_cons.mpr ⟨hc, hds⟩, ?_, hr⟩
        rw [Nat.ofDigitChars_cons, Nat.mul_comm, hn]
      · cases h
    · cases h
      refine ⟨[], rfl, by simp, Nat.ofDigitChars_nil, ?_⟩
      exact starts_outside_cons.mpr (Bool.not_eq_true _ ▸ hc)

def withSign (negative : Bool) (n : Nat) : Int := if negative then -n else n

theorem of_int_eq_iff {i : Int} {v : Int64} (hlow : -(signedLimit : Int) ≤ i)
    (hhigh : i < signedLimit) : Int64.ofInt i = v ↔ v.toInt = i := by
  constructor
  · rintro rfl
    exact Int64.toInt_ofInt_of_le hlow hhigh
  · rintro rfl
    exact Int64.ofInt_toInt v

theorem signed_eq_some {negative : Bool} {n : Nat} {v : Int64} :
    signed negative n = some v ↔ v.toInt = withSign negative n := by
  have hlow := v.le_toInt
  have hhigh := v.toInt_lt
  have hlimit : (signedLimit : Int) = 2 ^ 63 := rfl
  cases negative with
  | false =>
    simp only [signed, withSign, Bool.false_eq_true, if_false]
    split_ifs with hn
    · rw [Option.some_inj, of_int_eq_iff (by omega) (by omega)]
    · exact ⟨False.elim, fun h => by omega⟩
  | true =>
    simp only [signed, withSign, if_true]
    split_ifs with hn
    · rw [Option.some_inj, of_int_eq_iff (by omega) (by omega)]
    · exact ⟨False.elim, fun h => by omega⟩

theorem scan_integer_append {negative : Bool} {n : Nat} {v : Int64} {ds rest : List Char}
    (hds : Numeral n ds) (hv : v.toInt = withSign negative n)
    (hr : StartsOutside Char.isDigit rest) :
    scanInteger negative (ds ++ rest) = (.ok (.integer v), rest) := by
  have hlimit : n < accumulatorLimit := by
    have hlow := v.le_toInt
    have hhigh := v.toInt_lt
    rw [accumulatorLimit]
    cases negative <;> simp only [withSign, Bool.false_eq_true, if_false, if_true] at hv <;> omega
  have hdigits := digits_append hds.isDigit hr (hds.value.symm ▸ hlimit)
  rw [hds.value] at hdigits
  simp only [scanInteger, hdigits, signed_eq_some.mpr hv]

theorem exists_of_scan_integer {negative : Bool} {s : Symbol} {c : Char} {cs rest : List Char}
    (hc : c.isDigit = true) (h : scanInteger negative (c :: cs) = (.ok s, rest)) :
    ∃ n v ds, s = .integer v ∧ c :: cs = ds ++ rest ∧ Numeral n ds ∧
      v.toInt = withSign negative n ∧ StartsOutside Char.isDigit rest := by
  rw [scanInteger] at h
  split at h
  · cases h
  · next n rest' hdigits =>
    split at h
    · next v hv =>
      cases h
      obtain ⟨ds, hcs, hds, hn, hr⟩ := exists_of_digits hdigits
      refine ⟨n, v, ds, rfl, hcs, ⟨?_, hds, hn⟩, signed_eq_some.mp hv, hr⟩
      -- without a digit the first character would be one that ends a numeral
      rintro rfl
      rw [List.nil_append] at hcs
      rw [← hcs, starts_outside_cons, hc] at hr
      cases hr
    · cases h

end Numerals

section Words

/-- The characters form a word: a letter or an underscore, and then word characters only. -/
def isWord : List Char → Bool
  | [] => false
  | c :: cs => isWordStart c && cs.all isWordPart

variable {name : String}

theorem exists_cons_of_is_word {cs : List Char} (h : isWord cs = true) :
    ∃ c cs', cs = c :: cs' ∧ isWordStart c = true := by
  cases cs with
  | nil => cases h
  | cons c cs' =>
    rw [isWord, Bool.and_eq_true] at h
    exact ⟨c, cs', rfl, h.1⟩

theorem all_is_word_part {cs : List Char} (h : isWord cs = true) :
    ∀ c ∈ cs, isWordPart c = true := by
  cases cs with
  | nil => cases h
  | cons c cs =>
    simp only [isWord, Bool.and_eq_true, List.all_eq_true] at h
    exact List.forall_mem_cons.mpr ⟨is_word_part_of_is_word_start h.1, h.2⟩

theorem scan_word_append {rest : List Char} (hname : isWord name.toList = true)
    (hr : StartsOutside isWordPart rest) :
    scanWord (name.toList ++ rest) = (.ok (Symbol.ofWord name), rest) := by
  have hpart := all_is_word_part hname
  rw [scanWord, hr.take_while_append hpart, hr.drop_while_append hpart, String.ofList_toList]

theorem exists_of_scan_word {s : Symbol} {c : Char} {cs rest : List Char}
    (hc : isWordStart c = true) (h : scanWord (c :: cs) = (.ok s, rest)) :
    ∃ name : String, s = Symbol.ofWord name ∧ c :: cs = name.toList ++ rest ∧
      isWord name.toList = true ∧ StartsOutside isWordPart rest := by
  cases h
  refine ⟨_, rfl, ?_, ?_, ?_⟩
  · rw [String.toList_ofList, List.takeWhile_append_dropWhile]
  · rw [String.toList_ofList, List.takeWhile_cons, if_pos (is_word_part_of_is_word_start hc),
      isWord, hc, Bool.true_and, List.all_eq_true]
    exact fun d hd => List.mem_takeWhile_imp hd
  · intro d hd
    have hout := List.head?_dropWhile_not isWordPart (c :: cs)
    rwa [hd] at hout

end Words

section Quotations

/-- The characters that stand behind a backslash, each with the one that is meant. -/
def escapes : List (Char × Char) :=
  [('\\', '\\'), ('n', '\n'), ('r', '\r'), ('t', '\t'), ('"', '"')]

theorem escape?_eq_some {c d : Char} : escape? c = some d ↔ (c, d) ∈ escapes := by
  unfold escape?
  split <;> simp_all [escapes, eq_comm]

/-- `Quotes written text` says that between two quotes `written` stands for `text`. -/
inductive Quotes : List Char → List Char → Prop
  | nil : Quotes [] []
  | plain {c : Char} {written text : List Char} (hc : c ∉ ['"', '\\', '\n'])
      (h : Quotes written text) : Quotes (c :: written) (c :: text)
  | escape {c d : Char} {written text : List Char} (hc : (c, d) ∈ escapes)
      (h : Quotes written text) : Quotes ('\\' :: c :: written) (d :: text)

theorem quoted_body_append {written text : List Char} (h : Quotes written text) (rest : List Char) :
    quotedBody (written ++ '"' :: rest) = (.ok text, rest) := by
  induction h with
  | nil => rw [List.nil_append, quotedBody]
  | plain hc _ ih =>
    simp only [List.mem_cons, List.not_mem_nil, or_false, not_or] at hc
    rw [List.cons_append, quotedBody, ih, Except.map]
    · exact hc.1
    · exact hc.2.2
    · exact fun he _ => hc.2.1 he
    · exact fun _ _ he _ => hc.2.1 he
  | escape hc _ ih =>
    rw [List.cons_append, List.cons_append, quotedBody, escape?_eq_some.mpr hc]
    simp only [ih, Except.map]

theorem exists_of_quoted_body {cs text : List Char} (h : (quotedBody cs).1 = .ok text) :
    ∃ written, cs = written ++ '"' :: (quotedBody cs).2 ∧ Quotes written text := by
  induction cs using quotedBody.induct generalizing text with
  | case1 | case3 | case4 => cases h
  | case2 cs =>
    cases h
    exact ⟨[], rfl, .nil⟩
  | case5 c cs hc =>
    rw [quotedBody, hc] at h
    cases h
  | case6 c cs d hc ih =>
    rw [quotedBody, hc] at h ⊢
    obtain ⟨text', hbody, rfl⟩ := except_map_eq_ok.mp h
    obtain ⟨written, hcs, hw⟩ := ih hbody
    refine ⟨'\\' :: c :: written, ?_, .escape (escape?_eq_some.mp hc) hw⟩
    rw [List.cons_append, List.cons_append, ← hcs]
  | case7 c cs hquote hnewline hlast hescape ih =>
    have hslash : c ≠ '\\' := by
      intro hc
      cases cs with
      | nil => exact hlast hc rfl
      | cons d ds => exact hescape d ds hc rfl
    rw [quotedBody] at h ⊢
    · obtain ⟨text', hbody, rfl⟩ := except_map_eq_ok.mp h
      obtain ⟨written, hcs, hw⟩ := ih hbody
      refine ⟨c :: written, ?_, .plain ?_ hw⟩
      · rw [List.cons_append, ← hcs]
      · simpa using ⟨hquote, hslash, hnewline⟩
    all_goals assumption

end Quotations

section Marks

variable {m : Mark} {c : Char} {cs rest : List Char}

theorem text_of_mark? (h : mark? c = some m) : m.text.toList = [c] := by
  unfold mark? at h
  split at h <;> cases h <;> rfl

theorem exists_of_scan_mark {s : Symbol} (h : scanMark c cs = (.ok s, rest)) :
    ∃ m, s = .mark m ∧ c :: cs = m.text.toList ++ rest := by
  unfold scanMark at h
  split at h
  · cases h
    exact ⟨.shiftLeft, rfl, rfl⟩
  · cases h
    exact ⟨.shiftRight, rfl, rfl⟩
  · split at h
    · next m hm =>
      cases h
      exact ⟨m, rfl, by rw [text_of_mark? hm]; rfl⟩
    · cases h

end Marks

/-- `Spells s cs` says that the characters `cs` are a way to write the symbol `s`. -/
inductive Spells : Symbol → List Char → Prop
  | natural {n : Nat} {v : Int64} {ds : List Char} (hds : Numeral n ds) (hv : v.toInt = n) :
      Spells (.integer v) ds
  | negative {n : Nat} {v : Int64} {ds : List Char} (hds : Numeral n ds) (hv : v.toInt = -n) :
      Spells (.integer v) ('-' :: ds)
  | identifier {name : String} (hname : isWord name.toList = true) (hk : ∀ k, Keyword.text k ≠ name)
      (hp : ∀ p, Primitive.name p ≠ name) : Spells (.identifier name) name.toList
  | keyword (k : Keyword) : Spells (.keyword k) k.text.toList
  | primitive (p : Primitive) : Spells (.primitive p) p.name.toList
  | quoted {text : String} {written : List Char} (h : Quotes written text.toList) :
      Spells (.quoted text) ('"' :: (written ++ ['"']))
  | mark (m : Mark) : Spells (.mark m) m.text.toList

/-- The characters that cannot stand right behind a symbol, since the symbol would be longer or
another one. -/
def continuedBy : Symbol → Char → Bool
  | .integer _ | .mark .minus => Char.isDigit
  | .identifier _ | .keyword _ | .primitive _ => isWordPart
  | .mark .slash => (· == '/')
  | .quoted _ | .mark _ | .eof => fun _ => false

def EndsBefore (s : Symbol) (rest : List Char) : Prop := StartsOutside (continuedBy s) rest

section Scanning

variable {s : Symbol} {sp cs rest : List Char}

theorem scan_word {name : String} (hname : isWord name.toList = true)
    (hr : StartsOutside isWordPart rest) :
    scan (name.toList ++ rest) = (.ok (Symbol.ofWord name), rest) := by
  obtain ⟨c, cs, hcs, hc⟩ := exists_cons_of_is_word hname
  have hdigit : ¬ c.isDigit = true := by
    intro hd
    rw [(outside_of_is_digit hd).1] at hc
    cases hc
  rw [← scan_word_append hname hr, hcs, List.cons_append, scan, if_neg hdigit, if_pos hc]

theorem is_word_keyword (k : Keyword) : isWord k.text.toList = true := by cases k <;> decide

theorem is_word_primitive (p : Primitive) : isWord p.name.toList = true := by cases p <;> decide

theorem of_word_keyword (k : Keyword) : Symbol.ofWord k.text = .keyword k := by cases k <;> rfl

theorem of_word_primitive (p : Primitive) : Symbol.ofWord p.name = .primitive p := by
  cases p <;> rfl

theorem of_word_identifier {name : String} (hk : ∀ k, Keyword.text k ≠ name)
    (hp : ∀ p, Primitive.name p ≠ name) : Symbol.ofWord name = .identifier name := by
  unfold Symbol.ofWord
  split
  · exact absurd rfl (hk .struct)
  · exact absurd rfl (hk .incl)
  · exact absurd rfl (hk .const)
  · exact absurd rfl (hk .void)
  · exact absurd rfl (hp .u8)
  · exact absurd rfl (hp .u16)
  · exact absurd rfl (hp .u32)
  · exact absurd rfl (hp .i8)
  · exact absurd rfl (hp .i16)
  · exact absurd rfl (hp .i32)
  · exact absurd rfl (hp .f32)
  · exact absurd rfl (hp .f64)
  · rfl

theorem spells_of_word {name : String} (hname : isWord name.toList = true) :
    Spells (Symbol.ofWord name) name.toList := by
  by_cases hk : ∃ k, Keyword.text k = name
  · obtain ⟨k, rfl⟩ := hk
    exact of_word_keyword k ▸ .keyword k
  · by_cases hp : ∃ p, Primitive.name p = name
    · obtain ⟨p, rfl⟩ := hp
      exact of_word_primitive p ▸ .primitive p
    · have hk' := not_exists.mp hk
      have hp' := not_exists.mp hp
      exact of_word_identifier hk' hp' ▸ .identifier hname hk' hp'

theorem scan_mark (m : Mark) (hr : EndsBefore (.mark m) rest) :
    scan (m.text.toList ++ rest) = (.ok (.mark m), rest) := by
  cases m with
  | minus =>
    have hdigit : startsWithDigit rest = false := by
      cases rest with
      | nil => rfl
      | cons c cs => exact starts_outside_cons.mp hr
    rw [Mark.text]
    change scan ('-' :: rest) = _
    rw [scan, if_neg (by decide), if_neg (by decide), if_neg (by simp [hdigit])]
    rfl
  | _ => rfl

theorem scan_append (h : Spells s sp) (hr : EndsBefore s rest) :
    scan (sp ++ rest) = (.ok s, rest) := by
  cases h with
  | @natural n v ds hds hv =>
    have hv' : v.toInt = withSign false n := hv
    obtain ⟨d, ds', rfl, hd⟩ := hds.exists_cons
    rw [← scan_integer_append hds hv' hr, List.cons_append, scan, if_pos hd]
  | @negative n v ds hds hv =>
    have hv' : v.toInt = withSign true n := hv
    obtain ⟨d, ds', rfl, hd⟩ := hds.exists_cons
    rw [← scan_integer_append hds hv' hr, List.cons_append, scan, if_neg (by decide),
      if_neg (by decide), if_pos ⟨rfl, hd⟩]
  | identifier hname hk hp => rw [scan_word hname hr, of_word_identifier hk hp]
  | keyword k => rw [scan_word (is_word_keyword k) hr, of_word_keyword]
  | primitive p => rw [scan_word (is_word_primitive p) hr, of_word_primitive]
  | @quoted text written h =>
    have hbody := quoted_body_append h rest
    rw [List.cons_append, List.append_assoc, List.singleton_append, scan, if_neg (by decide),
      if_neg (by decide), if_neg (by simp), if_pos rfl, scanQuoted, hbody, Except.map,
      String.ofList_toList]
  | mark m => exact scan_mark m hr

theorem starts_plain_word {name : String} (hname : isWord name.toList = true) :
    StartsPlain (name.toList ++ rest) := by
  obtain ⟨c, cs, hcs, hc⟩ := exists_cons_of_is_word hname
  rw [hcs]
  refine starts_plain_cons (is_blank_of_is_word_start hc) ?_
  rintro rfl
  cases hc

theorem starts_plain_mark (m : Mark) (hr : EndsBefore (.mark m) rest) :
    StartsPlain (m.text.toList ++ rest) := by
  cases m with
  | slash =>
    refine ⟨starts_outside_cons.mpr (by decide), ?_⟩
    rintro ⟨more, hmore⟩
    have hrest : '/' :: more = rest := (List.cons.inj hmore).2
    rw [← hrest] at hr
    cases starts_outside_cons.mp hr
  | _ => exact starts_plain_cons (by decide) (by decide)

theorem starts_plain_append (h : Spells s sp) (hr : EndsBefore s rest) :
    StartsPlain (sp ++ rest) := by
  cases h with
  | natural hds hv =>
    obtain ⟨d, ds', rfl, hd⟩ := hds.exists_cons
    obtain ⟨_, hblank, hslash⟩ := outside_of_is_digit hd
    exact starts_plain_cons hblank hslash
  | negative | quoted => exact starts_plain_cons (by decide) (by decide)
  | identifier hname => exact starts_plain_word hname
  | keyword k => exact starts_plain_word (is_word_keyword k)
  | primitive p => exact starts_plain_word (is_word_primitive p)
  | mark m => exact starts_plain_mark m hr

theorem ends_before_of_word (name : String) :
    EndsBefore (Symbol.ofWord name) rest ↔ StartsOutside isWordPart rest := by
  unfold Symbol.ofWord
  split <;> rfl

theorem ends_before_mark {m : Mark} (hslash : ¬ ['/', '/'] <+: m.text.toList ++ rest)
    (hminus : m = .minus → startsWithDigit rest = false) : EndsBefore (.mark m) rest := by
  cases rest with
  | nil => exact starts_outside_nil _
  | cons c cs =>
    refine starts_outside_cons.mpr ?_
    cases m with
    | minus => exact hminus rfl
    | slash =>
      refine beq_eq_false_iff_ne.mpr ?_
      rintro rfl
      exact hslash (List.prefix_append ['/', '/'] cs)
    | _ => rfl

/-- What is read as a symbol is a spelling of it that ends where the symbol ends. The first slash
of a comment is no symbol, so there may not be a comment. -/
theorem exists_of_scan (hcs : ¬ ['/', '/'] <+: cs) (h : scan cs = (.ok s, rest)) :
    cs = [] ∧ s = .eof ∨ ∃ sp, cs = sp ++ rest ∧ Spells s sp ∧ EndsBefore s rest := by
  cases cs with
  | nil =>
    cases h
    exact .inl ⟨rfl, rfl⟩
  | cons c cs =>
    refine .inr ?_
    rw [scan] at h
    split_ifs at h with hdigit hword hminus hquote
    · obtain ⟨n, v, ds, rfl, hcs, hds, hv, hr⟩ := exists_of_scan_integer hdigit h
      exact ⟨ds, hcs, .natural hds hv, hr⟩
    · obtain ⟨name, rfl, hcs, hname, hr⟩ := exists_of_scan_word hword h
      exact ⟨name.toList, hcs, spells_of_word hname, (ends_before_of_word name).mpr hr⟩
    · obtain ⟨rfl, hfirst⟩ := hminus
      cases cs with
      | nil => cases hfirst
      | cons d cs =>
        obtain ⟨n, v, ds, rfl, hcs, hds, hv, hr⟩ := exists_of_scan_integer hfirst h
        exact ⟨'-' :: ds, congrArg _ hcs, .negative hds hv, hr⟩
    · subst hquote
      obtain ⟨hbody, rfl⟩ := Prod.mk.inj h
      obtain ⟨text, htext, rfl⟩ := except_map_eq_ok.mp hbody
      obtain ⟨written, hcs, hw⟩ := exists_of_quoted_body htext
      refine ⟨'"' :: (written ++ ['"']), ?_, .quoted (String.toList_ofList.symm ▸ hw), ?_⟩
      · rw [List.cons_append, List.append_assoc, List.singleton_append, ← hcs]
      · exact fun _ _ => rfl
    · obtain ⟨m, rfl, hm⟩ := exists_of_scan_mark h
      refine ⟨m.text.toList, hm, .mark m, ends_before_mark (hm ▸ hcs) ?_⟩
      rintro rfl
      obtain ⟨hc, hrest⟩ : c = '-' ∧ cs = rest := List.cons.inj hm
      rw [← hrest, ← Bool.not_eq_true]
      exact fun hfirst => hminus ⟨hc, hfirst⟩

end Scanning

end Lexeme

end DataLayout
