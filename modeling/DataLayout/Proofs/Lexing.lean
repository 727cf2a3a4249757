import DataLayout.Proofs.Spelling

/-!
# What a text is read as

A text is read as a list of symbols exactly when it consists of spellings of them in this order,
each one ending where its symbol ends, with blanks and comments around them.
-/

set_option autoImplicit false

namespace DataLayout

namespace Lexeme

/-- Blanks and comments, then a spelling of the symbol that ends where the symbol ends, and then
the rest. -/
inductive SpellsNext (s : Symbol) (rest : List Char) : List Char → Prop
  | intro {w sp : List Char} (hw : Trivia (sp ++ rest) w) (hs : Spells s sp)
      (he : EndsBefore s rest) : SpellsNext s rest (w ++ (sp ++ rest))

/-- The characters are spellings of the symbols in order, with blanks and comments in front of
each one and behind the last. -/
def SpellsAll : List Symbol → List Char → Prop
  | [], cs => Trivia [] cs
  | s :: ss, cs => ∃ rest, SpellsNext s rest cs ∧ SpellsAll ss rest

theorem Spells.ne_eof {s : Symbol} {sp : List Char} (h : Spells s sp) : s ≠ .eof := by
  rintro rfl
  cases h

theorem SpellsNext.ne_eof {s : Symbol} {rest cs : List Char} (h : SpellsNext s rest cs) :
    s ≠ .eof := by
  obtain ⟨_, hs, _⟩ := h
  exact hs.ne_eof

variable {s : Symbol} {cs rest : List Char}

theorem scan_skip_trivia_eof (line : Nat) :
    (scan (skipTrivia cs line).2).1 = .ok .eof ↔ Trivia [] cs := by
  obtain ⟨hplain, w, hcs, hw⟩ := exists_trivia.1 cs line
  constructor
  · intro h
    rcases exists_of_scan hplain.2 (Prod.ext h rfl) with ⟨hnil, _⟩ | ⟨_, _, hs, _⟩
    · rw [hnil] at hcs hw
      rwa [hcs, List.append_nil]
    · exact absurd rfl hs.ne_eof
  · intro h
    have hskip := skip_trivia_append h starts_plain_nil line
    rw [List.append_nil] at hskip
    rw [hskip, scan]

theorem scan_skip_trivia_symbol (hs : s ≠ .eof) (line : Nat) :
    scan (skipTrivia cs line).2 = (.ok s, rest) ↔ SpellsNext s rest cs := by
  constructor
  · intro h
    obtain ⟨hplain, w, hcs, hw⟩ := exists_trivia.1 cs line
    rcases exists_of_scan hplain.2 h with ⟨_, heof⟩ | ⟨sp, hsp, hspells, he⟩
    · exact absurd heof hs
    · rw [hsp] at hcs hw
      exact hcs ▸ .intro hw hspells he
  · rintro ⟨hw, hspells, he⟩
    rw [skip_trivia_append hw (starts_plain_append hspells he), scan_append hspells he]

end Lexeme

namespace Lexer

open Lexeme

def Yields : List Symbol → Lexer → Prop
  | [], l => l.next.1.map Located.value = .ok .eof
  | s :: ss, l => s ≠ .eof ∧ l.next.1.map Located.value = .ok s ∧ Yields ss l.next.2

theorem next_eq_read {l : Lexer} (h : l.peeked = none) : l.next = l.read := by rw [next, h]

theorem read_peeked (l : Lexer) : l.read.2.peeked = l.peeked := by
  simp only [read]
  split <;> rfl

theorem read_value {l : Lexer} {s : Symbol} :
    l.read.1.map Located.value = .ok s ↔ (scan (skipTrivia l.input l.line).2).1 = .ok s := by
  simp only [read]
  split
  · next s' hs => simp [hs, Except.map]
  · next e he => simp [he, Except.map]

theorem scan_of_read {l : Lexer} {s : Symbol} (h : l.read.1.map Located.value = .ok s) :
    scan (skipTrivia l.input l.line).2 = (.ok s, l.read.2.input) :=
  Prod.ext (read_value.mp h) l.read_input.symm

theorem yields_iff {l : Lexer} (h : l.peeked = none) (symbols : List Symbol) :
    l.Yields symbols ↔ SpellsAll symbols l.input := by
  induction symbols generalizing l with
  | nil => rw [Yields, SpellsAll, next_eq_read h, read_value, scan_skip_trivia_eof]
  | cons s ss ih =>
    have hnext : l.read.2.peeked = none := l.read_peeked.trans h
    rw [Yields, SpellsAll, next_eq_read h, read_value, ih hnext, read_input]
    constructor
    · rintro ⟨hs, hok, hall⟩
      exact ⟨_, (scan_skip_trivia_symbol hs _).mp (Prod.ext hok rfl), hall⟩
    · rintro ⟨rest, hsp, hall⟩
      have hscan := (scan_skip_trivia_symbol hsp.ne_eof l.line).mpr hsp
      rw [hscan]
      exact ⟨hsp.ne_eof, rfl, hall⟩

theorem of_text_yields (file text : String) (symbols : List Symbol) :
    (ofText file text).Yields symbols ↔ SpellsAll symbols text.toList :=
  yields_iff rfl symbols

end Lexer

namespace TokenStream

def Reads (stream : TokenStream) (symbols : List Symbol) : Prop :=
  (∃ loc, stream.ending = .eof loc) ∧ stream.tokens.map Located.value = symbols

theorem of_lexer_reads {l : Lexer} (h : l.peeked = none) (symbols : List Symbol) :
    (ofLexer l).Reads symbols ↔ l.Yields symbols := by
  fun_induction ofLexer l generalizing symbols with
  | case1 l e he =>
    cases symbols with
    | nil => simp [Reads, Lexer.Yields, Lexer.next_eq_read h, he, Except.map]
    | cons s ss => simp [Reads, Lexer.Yields, Lexer.next_eq_read h, he, Except.map]
  | case2 l t ht heof =>
    cases symbols with
    | nil => simp [Reads, Lexer.Yields, Lexer.next_eq_read h, ht, heof, Except.map]
    | cons s ss =>
      simp only [Reads, Lexer.Yields, Lexer.next_eq_read h, ht, heof, Except.map]
      constructor
      · rintro ⟨_, ⟨⟩⟩
      · rintro ⟨hs, ⟨⟩, _⟩
        exact absurd rfl hs
  | case3 l t ht heof _ ih =>
    cases symbols with
    | nil => simp [Reads, Lexer.Yields, Lexer.next_eq_read h, ht, heof, Except.map, push]
    | cons s ss =>
      rw [Lexer.Yields, Lexer.next_eq_read h, ← ih (l.read_peeked.trans h)]
      simp only [Reads, push, ht, Except.map, List.map_cons, List.cons.injEq, Except.ok.injEq]
      constructor
      · rintro ⟨hend, rfl, hss⟩
        exact ⟨heof, rfl, hend, hss⟩
      · rintro ⟨_, hs, hend, hss⟩
        exact ⟨hend, hs, hss⟩

theorem of_text_reads (file text : String) (symbols : List Symbol) :
    (ofText file text).Reads symbols ↔ (Lexer.ofText file text).Yields symbols :=
  of_lexer_reads rfl symbols

end TokenStream

/-- A text is read up to its end as a list of symbols exactly when it is spelled out of them, be it
taken token by token or all at once. -/
theorem lexed_iff_spelled (file text : String) (symbols : List Symbol) :
    ((Lexer.ofText file text).Yields symbols ↔ Lexeme.SpellsAll symbols text.toList) ∧
      ((TokenStream.ofText file text).Reads symbols ↔ Lexeme.SpellsAll symbols text.toList) := by
  have htaken := Lexer.of_text_yields file text symbols
  exact ⟨htaken, (TokenStream.of_text_reads file text symbols).trans htaken⟩

example : (TokenStream.ofText "a" "x -1- 1//y").tokens.map Located.value =
    [.identifier "x", .integer (-1), .mark .minus, .integer 1] := by decide +kernel

end DataLayout
