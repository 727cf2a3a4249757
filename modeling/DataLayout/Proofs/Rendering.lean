import DataLayout.Proofs.Lexing

/-!
# Reading what was written

Symbols that are written out with blanks between them, and possibly comments behind the blanks, are
read back as they were.
-/

set_option autoImplicit false

namespace DataLayout

/-- A symbol that can be written: any but the end of file, and of the identifiers those that are
words and have no other meaning. -/
def Symbol.Writable : Symbol → Prop
  | .identifier name => Lexeme.isWord name.toList = true ∧ (∀ k, Keyword.text k ≠ name) ∧
      ∀ p, Primitive.name p ≠ name
  | .integer _ | .quoted _ | .primitive _ | .keyword _ | .mark _ => True
  | .eof => False

namespace Lexeme

open Text

/-- A symbol as it is written. Integers are in decimal without leading zeros. A string is between
quotes; the characters that cannot stand there are escaped, others that can be escaped may be. -/
inductive Renders : Symbol → List Char → Prop
  | integer (v : Int64) : Renders (.integer v) (toString v.toInt).toList
  | identifier (name : String) : Renders (.identifier name) name.toList
  | quoted {text : String} {written : List Char} (h : Quotes written text.toList) :
      Renders (.quoted text) ('"' :: (written ++ ['"']))
  | keyword (k : Keyword) : Renders (.keyword k) k.text.toList
  | primitive (p : Primitive) : Renders (.primitive p) p.name.toList
  | mark (m : Mark) : Renders (.mark m) m.text.toList

inductive Filler : List Char → Prop
  | nil : Filler []
  | blank {c : Char} {w : List Char} (hc : isBlank c = true) (h : Filler w) : Filler (c :: w)
  | comment {body w : List Char} (hb : '\n' ∉ body) (h : Filler w) :
      Filler ('/' :: '/' :: (body ++ '\n' :: w))

/-- Symbols as they are written one behind the other, with a blank and then filler between any
two of them. -/
inductive Rendered : List Symbol → List Char → Prop
  | nil : Rendered [] []
  | last {s : Symbol} {sp : List Char} (hs : Renders s sp) : Rendered [s] sp
  | cons {s s' : Symbol} {ss : List Symbol} {sp w rest : List Char} {c : Char} (hs : Renders s sp)
      (hc : isBlank c = true) (hw : Filler w) (h : Rendered (s' :: ss) rest) :
      Rendered (s :: s' :: ss) (sp ++ (c :: w ++ rest))

section Spellings

theorem numeral_repr (n : Nat) : Numeral n n.repr.toList where
  ne_nil := by
    rw [Nat.toList_repr]
    exact Nat.toDigits_ne_nil
  isDigit d hd := by
    rw [Nat.toList_repr] at hd
    exact Nat.isDigit_of_mem_toDigits (by decide) (by decide) hd
  value := by rw [Nat.toList_repr, Nat.ofDigitChars_ten_toDigits]

theorem to_list_repr_neg_succ (n : Nat) :
    (Int.negSucc n).repr.toList = '-' :: (n + 1).repr.toList := by
  simp [Int.repr]

theorem spells_integer (v : Int64) : Spells (.integer v) (toString v.toInt).toList := by
  rw [Int.toString_eq_repr]
  cases hv : v.toInt with
  | ofNat n => exact .natural (numeral_repr n) hv
  | negSucc n =>
    rw [to_list_repr_neg_succ]
    exact .negative (numeral_repr (n + 1)) hv

theorem Renders.spells {s : Symbol} {sp : List Char} (h : Renders s sp) (hs : s.Writable) :
    Spells s sp := by
  cases h with
  | integer v => exact spells_integer v
  | identifier name =>
    obtain ⟨hname, hk, hp⟩ := hs
    exact .identifier hname hk hp
  | quoted h => exact .quoted h
  | keyword k => exact .keyword k
  | primitive p => exact .primitive p
  | mark m => exact .mark m

theorem Filler.trivia {w : List Char} (h : Filler w) (rest : List Char) : Trivia rest w := by
  induction h with
  | nil => exact .nil
  | blank hc _ ih => exact .blank hc ih
  | comment hb _ ih =>
    exact .comment hb (starts_outside_cons.mpr rfl) (.blank is_blank_newline ih)

theorem continued_by_blank {c : Char} (hc : isBlank c = true) (s : Symbol) :
    continuedBy s c = false := by
  have hword := is_word_part_of_is_blank hc
  have hdigit : c.isDigit = false := by
    by_contra h
    rw [(outside_of_is_digit (Bool.not_eq_false _ ▸ h)).2.1] at hc
    cases hc
  have hslash : (c == '/') = false := by
    refine beq_eq_false_iff_ne.mpr ?_
    rintro rfl
    cases hc
  unfold continuedBy
  split <;> first | assumption | rfl

theorem Rendered.spells_all {symbols : List Symbol} {cs : List Char} (h : Rendered symbols cs)
    (hs : ∀ s ∈ symbols, s.Writable) {w : List Char} (hw : ∀ rest, Trivia rest w) :
    SpellsAll symbols (w ++ cs) := by
  induction h generalizing w with
  | nil =>
    rw [List.append_nil]
    exact hw []
  | @last s sp h =>
    refine ⟨[], ?_, .nil⟩
    have hnext := SpellsNext.intro (hw _) (h.spells (hs s List.mem_cons_self))
      (starts_outside_nil (continuedBy s))
    rwa [List.append_nil] at hnext
  | @cons s s' ss sp w' rest c h hc hw' _ ih =>
    obtain ⟨hfirst, hrest⟩ := List.forall_mem_cons.mp hs
    refine ⟨c :: w' ++ rest, .intro (hw _) (h.spells hfirst) ?_, ?_⟩
    · exact starts_outside_cons.mpr (continued_by_blank hc s)
    · exact ih hrest fun rest' => .blank hc (hw'.trivia rest')

end Spellings

section Existence

theorem exists_quotes (text : List Char) : ∃ written, Quotes written text := by
  induction text with
  | nil => exact ⟨[], .nil⟩
  | cons c text ih =>
    obtain ⟨written, hw⟩ := ih
    by_cases hc : c ∈ ['"', '\\', '\n']
    · have hescape : ∃ e, (e, c) ∈ escapes := by
        simp only [List.mem_cons, List.not_mem_nil, or_false] at hc
        rcases hc with rfl | rfl | rfl
        · exact ⟨'"', by decide⟩
        · exact ⟨'\\', by decide⟩
        · exact ⟨'n', by decide⟩
      obtain ⟨e, he⟩ := hescape
      exact ⟨'\\' :: e :: written, .escape he hw⟩
    · exact ⟨c :: written, .plain hc hw⟩

theorem exists_renders {s : Symbol} (hs : s.Writable) : ∃ sp, Renders s sp := by
  cases s with
  | integer v => exact ⟨_, .integer v⟩
  | identifier name => exact ⟨_, .identifier name⟩
  | quoted text =>
    obtain ⟨written, hw⟩ := exists_quotes text.toList
    exact ⟨_, .quoted hw⟩
  | primitive p => exact ⟨_, .primitive p⟩
  | keyword k => exact ⟨_, .keyword k⟩
  | mark m => exact ⟨_, .mark m⟩
  | eof => exact hs.elim

theorem exists_rendered (symbols : List Symbol) (hs : ∀ s ∈ symbols, s.Writable) :
    ∃ cs, Rendered symbols cs := by
  induction symbols with
  | nil => exact ⟨[], .nil⟩
  | cons s ss ih =>
    obtain ⟨hfirst, hrest⟩ := List.forall_mem_cons.mp hs
    obtain ⟨sp, hsp⟩ := exists_renders hfirst
    obtain ⟨rest, h⟩ := ih hrest
    cases ss with
    | nil => exact ⟨sp, .last hsp⟩
    | cons s' ss => exact ⟨_, .cons hsp is_blank_newline .nil h⟩

end Existence

end Lexeme

/-- All symbols but the end of file can be written, if identifiers are words without another
meaning, and whatever way they are written in, they are read back up to the end of the file. -/
theorem rendered_lexed (symbols : List Symbol) (hs : ∀ s ∈ symbols, s.Writable) :
    (∃ text : String, Lexeme.Rendered symbols text.toList) ∧
      ∀ file text : String, Lexeme.Rendered symbols text.toList →
        (Lexer.ofText file text).Yields symbols ∧ (TokenStream.ofText file text).Reads symbols := by
  constructor
  · obtain ⟨cs, h⟩ := Lexeme.exists_rendered symbols hs
    exact ⟨String.ofList cs, String.toList_ofList.symm ▸ h⟩
  · intro file text h
    have hspelled := h.spells_all hs fun _ => .nil
    have hyields := (Lexer.of_text_yields file text symbols).mpr hspelled
    exact ⟨hyields, (TokenStream.of_text_reads file text symbols).mpr hyields⟩

/-- The least integer, marks that start other symbols, and a string of what has to be escaped. -/
def awkwardSymbols : List Symbol :=
  [.integer Int64.minValue, .mark .minus, .mark .slash, .quoted "\"\\\n//\t", .identifier "u8x",
    .keyword .void, .primitive .u8]

def awkwardText : String :=
  "-9223372036854775808 -\n//-1\n/ \"\\\"\\\\\\n//\t\" u8x void u8"

theorem awkward_rendered : Lexeme.Rendered awkwardSymbols awkwardText.toList := by
  have hspace : Text.isBlank ' ' = true := by decide
  have hquotes : Lexeme.Quotes "\\\"\\\\\\n//\t".toList "\"\\\n//\t".toList :=
    .escape (by decide) (.escape (by decide) (.escape (by decide) (.plain (by decide)
      (.plain (by decide) (.plain (by decide) .nil)))))
  have h := Lexeme.Rendered.cons (.integer Int64.minValue) hspace .nil
    (.cons (.mark .minus) Lexeme.is_blank_newline (.comment (by decide : '\n' ∉ ['-', '1']) .nil)
      (.cons (.mark .slash) hspace .nil (.cons (.quoted hquotes) hspace .nil
        (.cons (.identifier "u8x") hspace .nil (.cons (.keyword .void) hspace .nil
          (.last (.primitive .u8)))))))
  exact h

theorem rendered_lexed_awkward :
    Lexeme.Rendered awkwardSymbols awkwardText.toList ∧
      (Lexer.ofText "a" awkwardText).Yields awkwardSymbols ∧
      (TokenStream.ofText "a" awkwardText).Reads awkwardSymbols := by
  have hname : Symbol.Writable (.identifier "u8x") :=
    ⟨by decide, fun k => by cases k <;> decide, fun p => by cases p <;> decide⟩
  have hs : ∀ s ∈ awkwardSymbols, s.Writable := by
    simp only [awkwardSymbols, List.forall_mem_cons]
    exact ⟨trivial, trivial, trivial, trivial, hname, trivial, trivial,
      fun _ h => absurd h List.not_mem_nil⟩
  exact ⟨awkward_rendered, (rendered_lexed awkwardSymbols hs).2 "a" awkwardText awkward_rendered⟩

end DataLayout
