import DataLayout.Proofs.Lexing
import DataLayout.Proofs.Lines

/-!
# Where tokens stand

A text consists of lexemes with blanks and comments around them. No lexeme runs over a line end, so
the line of a token is found by counting the line ends in front of the lexeme that it was read from.
-/

set_option autoImplicit false

namespace DataLayout

namespace Lexeme

/-- Whole lexemes in front of `rest`, with blanks and comments before, between and behind them. -/
inductive Passage (rest : List Char) : List Char → Prop
  | trivia {w : List Char} (hw : Trivia rest w) : Passage rest w
  | lexeme {s : Symbol} {w sp more : List Char} (hw : Trivia (sp ++ (more ++ rest)) w)
      (hs : Spells s sp) (he : EndsBefore s (more ++ rest)) (h : Passage rest more) :
      Passage rest (w ++ (sp ++ more))

/-- The symbol is spelled by one of the lexemes of the characters, and `before` is all that stands
in front of this lexeme. -/
inductive StandsBehind (s : Symbol) : List Char → List Char → Prop
  | intro {before sp rest : List Char} (hb : Passage (sp ++ rest) before) (hs : Spells s sp)
      (he : EndsBefore s rest) : StandsBehind s before (before ++ (sp ++ rest))

variable {s s' : Symbol} {before w sp cs rest : List Char}

theorem StandsBehind.after_lexeme (h : StandsBehind s before rest) (hw : Trivia (sp ++ rest) w)
    (hs : Spells s' sp) (he : EndsBefore s' rest) :
    StandsBehind s (w ++ (sp ++ before)) (w ++ (sp ++ rest)) := by
  cases h with
  | @intro sp' rest' hb hs' he' =>
    have hstands : StandsBehind s (w ++ (sp ++ before)) (w ++ (sp ++ before) ++ (sp' ++ rest')) :=
      .intro (.lexeme hw hs he hb) hs' he'
    simpa only [List.append_assoc] using hstands

theorem StandsBehind.line_ends_le (h : StandsBehind s before cs) :
    lineEnds before ≤ lineEnds cs := by
  cases h
  exact (List.prefix_append _ _).sublist.count_le _

theorem line_ends_append (cs cs' : List Char) :
    lineEnds (cs ++ cs') = lineEnds cs + lineEnds cs' :=
  List.count_append

theorem line_ends_eq_zero (h : ∀ c ∈ cs, c ≠ '\n') : lineEnds cs = 0 :=
  List.count_eq_zero.mpr fun hmem => h '\n' hmem rfl

theorem Numeral.line_ends_eq {n : Nat} (h : Numeral n cs) : lineEnds cs = 0 := by
  refine line_ends_eq_zero ?_
  rintro c hc rfl
  cases h.isDigit '\n' hc

theorem line_ends_of_is_word (h : isWord cs = true) : lineEnds cs = 0 := by
  refine line_ends_eq_zero ?_
  rintro c hc rfl
  have hpart := all_is_word_part h '\n' hc
  rw [is_word_part_of_is_blank is_blank_newline] at hpart
  cases hpart

theorem Quotes.line_ends_eq {text : List Char} (h : Quotes cs text) : lineEnds cs = 0 := by
  induction h with
  | nil => rfl
  | plain hc _ ih =>
    rw [line_ends_cons, ih]
    rintro rfl
    simp at hc
  | escape hc _ ih =>
    rw [line_ends_cons (by decide), line_ends_cons, ih]
    rintro rfl
    simp [escapes] at hc

theorem Spells.line_ends_eq (h : Spells s sp) : lineEnds sp = 0 := by
  cases h with
  | natural hds _ => exact hds.line_ends_eq
  | negative hds _ =>
    rw [line_ends_cons (by decide)]
    exact hds.line_ends_eq
  | identifier hname _ _ => exact line_ends_of_is_word hname
  | keyword k => exact line_ends_of_is_word (is_word_keyword k)
  | primitive p => exact line_ends_of_is_word (is_word_primitive p)
  | quoted h =>
    rw [line_ends_cons (by decide), line_ends_append, h.line_ends_eq]
    rfl
  | mark m => cases m <;> decide

theorem exists_trivia_line (cs : List Char) (line : Nat) : StartsPlain (skipTrivia cs line).2 ∧
    ∃ w, cs = w ++ (skipTrivia cs line).2 ∧ Trivia (skipTrivia cs line).2 w ∧
      (skipTrivia cs line).1 = line + lineEnds w := by
  obtain ⟨hplain, w, hcs, hw⟩ := exists_trivia.1 cs line
  have hcount := skip_line_ends.1 cs line
  have hends : lineEnds cs = lineEnds w + lineEnds (skipTrivia cs line).2 := by
    rw [← line_ends_append, ← hcs]
  exact ⟨hplain, w, hcs, hw, by omega⟩

theorem skip_trivia_eq (hw : Trivia rest w) (hr : StartsPlain rest) (line : Nat) :
    skipTrivia (w ++ rest) line = (line + lineEnds w, rest) := by
  have hrest := skip_trivia_append hw hr line
  have hcount := skip_line_ends.1 (w ++ rest) line
  rw [hrest, line_ends_append] at hcount
  exact Prod.ext (by omega) hrest

end Lexeme

namespace Lexer

open Lexeme

theorem read_location_eq (l : Lexer) :
    l.read.2.location = ⟨l.file, (skipTrivia l.input l.line).1⟩ := by
  simp only [read]
  split <;> rfl

theorem exists_of_read {l : Lexer} {t : Token} (h : l.read.1 = .ok t) (ht : t.value ≠ .eof) :
    ∃ w sp, l.input = w ++ (sp ++ l.read.2.input) ∧ Trivia (sp ++ l.read.2.input) w ∧
      Spells t.value sp ∧ EndsBefore t.value l.read.2.input ∧
      l.read.2.location = ⟨l.file, l.line + lineEnds w⟩ := by
  obtain ⟨hplain, w, hinput, hw, hline⟩ := exists_trivia_line l.input l.line
  have hscan := scan_of_read (s := t.value) (by rw [h]; rfl)
  rcases exists_of_scan hplain.2 hscan with ⟨_, heof⟩ | ⟨sp, hsp, hspells, he⟩
  · exact absurd heof ht
  · rw [hsp] at hinput hw
    exact ⟨w, sp, hinput, hw, hspells, he, by rw [read_location_eq, hline]⟩

end Lexer

namespace TokenStream

open Lexeme

theorem of_lexer_stands (l : Lexer) : ∀ t ∈ (ofLexer l).tokens, ∃ before,
    StandsBehind t.value before l.input ∧ t.location = ⟨l.file, l.line + lineEnds before⟩ := by
  fun_induction ofLexer l with
  | case1 | case2 => simp
  | case3 l t h hne _ ih =>
    obtain ⟨w, sp, hinput, hw, hs, he, hloc⟩ := Lexer.exists_of_read h hne
    refine List.forall_mem_cons.mpr ⟨⟨w, ?_, ?_⟩, fun t' ht' => ?_⟩
    · rw [hinput]
      exact .intro (.trivia hw) hs he
    · rw [l.read_location.1 t h, hloc]
    · -- behind the first lexeme the lexer stands on the line of that lexeme
      obtain ⟨before, hstands, hloc'⟩ := ih t' ht'
      obtain ⟨hfile, hline⟩ := Location.mk.inj hloc
      refine ⟨w ++ (sp ++ before), ?_, ?_⟩
      · rw [hinput]
        exact hstands.after_lexeme hw hs he
      · rw [hloc', hfile, hline, line_ends_append, line_ends_append, hs.line_ends_eq,
          Nat.zero_add, Nat.add_assoc]

theorem of_text_stands (file text : String) : ∀ t ∈ (ofText file text).tokens, ∃ before,
    StandsBehind t.value before text.toList ∧ t.location = ⟨file, 1 + lineEnds before⟩ :=
  of_lexer_stands (.ofText file text)

end TokenStream

end DataLayout
