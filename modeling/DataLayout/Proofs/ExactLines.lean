import DataLayout.Proofs.Positions
import DataLayout.Proofs.UnreadInput

/-!
# The line of a token

Up to the first error a lexer goes along the lexemes of the text. The symbols that were taken tell
how far it has got, whatever was looked at in between, and what it answers next is about the lexeme
that begins there. The answer is located on the line of the first character of that lexeme, which is
found by counting the line ends in front of it.
-/

set_option autoImplicit false

namespace DataLayout

namespace Lexeme

/-- The symbol is what the characters `sp` and then `rest` start with, and `sp` is its spelling. The
end of the file stands where no characters are left. -/
inductive Stands : Symbol → List Char → List Char → Prop
  | spelled {s : Symbol} {sp rest : List Char} (hs : Spells s sp) (he : EndsBefore s rest) :
      Stands s sp rest
  | eof : Stands .eof [] []

/-- `Passed ss done rest` says that `done` consists of lexemes of the symbols in order, with blanks
and comments in front of each one, and that `rest` stands behind it. -/
inductive Passed : List Symbol → List Char → List Char → Prop
  | start (rest : List Char) : Passed [] [] rest
  | lexeme {ss : List Symbol} {s : Symbol} {done w sp rest : List Char}
      (h : Passed ss done (w ++ (sp ++ rest))) (hw : Trivia (sp ++ rest) w)
      (hs : Stands s sp rest) : Passed (ss ++ [s]) (done ++ (w ++ sp)) rest

/-- Behind the lexemes of the symbols the next one begins with `rest`, and `before` is all of the
text in front of it. -/
structure BeginsBehind (ss : List Symbol) (text before rest : List Char) : Prop where
  split : text = before ++ rest
  passed : ∃ done w, before = done ++ w ∧ Passed ss done (w ++ rest) ∧ Trivia rest w
  plain : StartsPlain rest

section Lexemes

variable {s : Symbol} {ss : List Symbol} {text done before before' sp rest rest' : List Char}

theorem Stands.line_ends_eq (h : Stands s sp rest) : lineEnds sp = 0 := by
  cases h with
  | spelled hs _ => exact hs.line_ends_eq
  | eof => rfl

theorem Stands.starts_plain (h : Stands s sp rest) : StartsPlain (sp ++ rest) := by
  cases h with
  | spelled hs he => exact starts_plain_append hs he
  | eof => exact starts_plain_nil

theorem Stands.scan_eq (h : Stands s sp rest) : scan (sp ++ rest) = (.ok s, rest) := by
  cases h with
  | spelled hs he => exact scan_append hs he
  | eof => rfl

theorem exists_stands_of_scan {cs : List Char} (hcs : StartsPlain cs)
    (h : scan cs = (.ok s, rest)) : ∃ sp, cs = sp ++ rest ∧ Stands s sp rest := by
  rcases exists_of_scan hcs.2 h with ⟨rfl, rfl⟩ | ⟨sp, rfl, hs, he⟩
  · cases h
    exact ⟨[], rfl, .eof⟩
  · exact ⟨sp, rfl, .spelled hs he⟩

theorem BeginsBehind.passed_append (h : BeginsBehind ss text before (sp ++ rest))
    (hs : Stands s sp rest) : Passed (ss ++ [s]) (before ++ sp) rest := by
  obtain ⟨done, w, rfl, hpassed, hw⟩ := h.passed
  rw [List.append_assoc]
  exact .lexeme hpassed hw hs

theorem Passed.iterate_eq (h : Passed ss done rest) :
    (fun cs => (scan (skipTrivia cs 1).2).2)^[ss.length] (done ++ rest) = rest := by
  induction h with
  | start rest => rfl
  | @lexeme ss s done w sp rest _ hw hs ih =>
    rw [List.length_append, List.length_singleton, Function.iterate_succ_apply',
      List.append_assoc, List.append_assoc, ih, skip_trivia_append hw hs.starts_plain, hs.scan_eq]

theorem BeginsBehind.unique (h : BeginsBehind ss text before rest)
    (h' : BeginsBehind ss text before' rest') : before = before' ∧ rest = rest' := by
  obtain ⟨done, w, rfl, hpassed, hw⟩ := h.passed
  obtain ⟨done', w', rfl, hpassed', hw'⟩ := h'.passed
  have hsplit := h.split.symm.trans h'.split
  have hleft : w ++ rest = w' ++ rest' := by
    rw [← hpassed.iterate_eq, ← hpassed'.iterate_eq, ← List.append_assoc, ← List.append_assoc,
      hsplit]
  have hrest : rest = rest' := by
    rw [← skip_trivia_append hw h.plain 1, hleft, skip_trivia_append hw' h'.plain]
  subst hrest
  exact ⟨List.append_cancel_right hsplit, rfl⟩

end Lexemes

end Lexeme

namespace Lexer

open Lexeme

def Call.taken : Call → Answer → List Symbol
  | .next, .ok (some t) | .nextIf _, .ok (some t) => [t.value]
  | _, _ => []

def taken (l : Lexer) : List Call → List Symbol
  | [] => []
  | c :: cs => c.taken (l.call c).1 ++ (l.call c).2.taken cs

/-- The answer is about the characters and located as given: they start with the token, or with no
lexeme at all if it is an error. -/
def AnswersAt (location : Location) (rest : List Char) : Answer → Prop
  | .ok (some t) => t.location = location ∧ ∃ sp more, rest = sp ++ more ∧ Stands t.value sp more
  | .ok none => True
  | .error e => e.location = location ∧ ∀ s sp more, rest = sp ++ more → ¬ Stands s sp more

/-- The lexer has got behind the lexemes of the symbols and has counted the line ends up to
there. -/
def Behind (file : String) (text : List Char) (ss : List Symbol) (l : Lexer) : Prop :=
  ∃ done, text = done ++ l.input ∧ Passed ss done l.input ∧
    l.location = ⟨file, 1 + lineEnds done⟩

variable {file : String} {text : List Char} {ss : List Symbol} {l start : Lexer} {t : Token}
  {i : Nat}

section Reads

theorem exists_stands_of_read (ht : l.read.1 = .ok t) :
    ∃ sp, (skipTrivia l.input l.line).2 = sp ++ l.read.2.input ∧
      Stands t.value sp l.read.2.input := by
  obtain ⟨hplain, _⟩ := exists_trivia.1 l.input l.line
  exact exists_stands_of_scan hplain (scan_of_read (by rw [ht]; rfl))

theorem Behind.begins (h : l.Behind file text ss) : ∃ before,
    BeginsBehind ss text before (skipTrivia l.input l.line).2 ∧
      l.read.2.location = ⟨file, 1 + lineEnds before⟩ := by
  obtain ⟨done, htext, hpassed, hlocation⟩ := h
  obtain ⟨hplain, w, hinput, hw, hline⟩ := exists_trivia_line l.input l.line
  obtain ⟨hfile, hdone⟩ := Location.mk.inj hlocation
  refine ⟨done ++ w, ⟨?_, ⟨done, w, rfl, ?_, hw⟩, hplain⟩, ?_⟩
  · rw [htext, List.append_assoc, ← hinput]
  · rw [← hinput]
    exact hpassed
  · rw [read_location_eq, hline, hfile, hdone, line_ends_append, Nat.add_assoc]

/-- One token further on the lexer is behind one more lexeme. No lexeme has a line end in it, so the
line is still the one behind the line ends so far. -/
theorem Behind.read_ok (h : l.Behind file text ss) (ht : l.read.1 = .ok t) :
    l.read.2.Behind file text (ss ++ [t.value]) := by
  obtain ⟨before, hbegins, hlocation⟩ := h.begins
  obtain ⟨sp, hsp, hstands⟩ := exists_stands_of_read ht
  rw [hsp] at hbegins
  refine ⟨before ++ sp, ?_, hbegins.passed_append hstands, ?_⟩
  · rw [hbegins.split, List.append_assoc]
  · rw [hlocation, line_ends_append, hstands.line_ends_eq, Nat.add_zero]

theorem Behind.answers_at (h : l.Behind file text ss) : ∃ before rest,
    BeginsBehind ss text before rest ∧
      AnswersAt ⟨file, 1 + lineEnds before⟩ rest (l.read.1.map some) := by
  obtain ⟨before, hbegins, hlocation⟩ := h.begins
  refine ⟨before, _, hbegins, ?_⟩
  cases hr : l.read.1 with
  | ok t =>
    obtain ⟨sp, hsp, hstands⟩ := exists_stands_of_read hr
    exact ⟨(l.read_location.1 t hr).trans hlocation, sp, _, hsp, hstands⟩
  | error e =>
    refine ⟨(l.read_location.2 e hr).trans hlocation, fun s sp more hsp hstands => ?_⟩
    have hscan := read_value.mpr (congrArg Prod.fst (hsp ▸ hstands.scan_eq))
    rw [hr] at hscan
    cases hscan

end Reads

section Calls

theorem AnswersAt.answer {location : Location} {rest : List Char} {r : Outcome}
    (h : AnswersAt location rest (r.map some)) (c : Call) :
    AnswersAt location rest (c.answer r) := by
  cases c with
  | next | peek => exact h
  | nextIf k =>
    cases r with
    | error e => exact h
    | ok t =>
      rw [Call.answer, Except.map]
      split_ifs
      · exact h
      · trivial

theorem StandsAt.call_behind (h : StandsAt start i l) (hs : start.peeked = none)
    (hb : (start.after i).Behind file text ss) (c : Call) (hok : (l.call c).1.isOk = true) :
    ∃ j, StandsAt start j (l.call c).2 ∧
      (start.after j).Behind file text (ss ++ c.taken (l.call c).1) := by
  obtain ⟨hanswer, hstands⟩ := h.call hs c
  refine ⟨_, hstands, ?_⟩
  rw [hanswer] at hok ⊢
  cases hr : start.result i with
  | error e =>
    rw [hr] at hok
    cases c <;> cases hok
  | ok t =>
    have hnext : (start.after (i + 1)).Behind file text (ss ++ [t.value]) := by
      rw [after_succ_eq_read hs]
      exact hb.read_ok (result_eq_read hs i ▸ hr)
    have hstays : (start.after i).Behind file text (ss ++ []) := by rwa [List.append_nil]
    cases c with
    | next => exact hnext
    | peek => exact hstays
    | nextIf k =>
      by_cases hk : t.kind = k
      · simpa [Call.passes, Call.answer, Except.map, Call.taken, hk] using hnext
      · simpa [Call.passes, Call.answer, Except.map, Call.taken, hk] using hb

theorem StandsAt.asked_behind (h : StandsAt start i l) (hs : start.peeked = none)
    (hb : (start.after i).Behind file text ss) (calls : List Call)
    (hok : ∀ a ∈ l.answers calls, a.isOk = true) :
    ∃ j, StandsAt start j (l.asked calls) ∧
      (start.after j).Behind file text (ss ++ l.taken calls) := by
  induction calls generalizing i l ss with
  | nil => exact ⟨i, h, by rwa [taken, List.append_nil]⟩
  | cons c cs ih =>
    obtain ⟨hfirst, hrest⟩ := List.forall_mem_cons.mp hok
    obtain ⟨j, hj, hbj⟩ := h.call_behind hs hb c hfirst
    obtain ⟨k, hk, hbk⟩ := ih hj hbj hrest
    exact ⟨k, hk, by rwa [taken, ← List.append_assoc]⟩

end Calls

/-- As long as no call has been answered by an error, the next answer is about the lexeme that
begins behind those of the symbols taken so far, be it a token, the end of the file or an error. Its
line is one more than there are line ends in front of that lexeme, and with less than `2^32 - 1` of
them in the text it is a number of 32 bits. -/
theorem of_text_lines_exact (file text : String) (hlines : lineEnds text.toList < 4294967295)
    (calls : List Call) (hok : ∀ a ∈ (ofText file text).answers calls, a.isOk = true) (c : Call) :
    (∃ before rest, BeginsBehind ((ofText file text).taken calls) text.toList before rest) ∧
    ∀ before rest, BeginsBehind ((ofText file text).taken calls) text.toList before rest →
      1 + lineEnds before < 4294967296 ∧
      AnswersAt ⟨file, 1 + lineEnds before⟩ rest (((ofText file text).asked calls).call c).1 := by
  have hfresh : (ofText file text).peeked = none := rfl
  have hstart : StandsAt (ofText file text) 0 (ofText file text) := .before
  have hbehind : ((ofText file text).after 0).Behind file text.toList [] := ⟨[], rfl, .start _, rfl⟩
  obtain ⟨j, hj, hbj⟩ := hstart.asked_behind hfresh hbehind calls hok
  obtain ⟨before, rest, hbegins, hanswers⟩ := hbj.answers_at
  rw [← result_eq_read hfresh] at hanswers
  have hcall := hanswers.answer c
  rw [← (hj.call hfresh c).1] at hcall
  refine ⟨⟨before, rest, hbegins⟩, fun before' rest' hbegins' => ?_⟩
  obtain ⟨rfl, rfl⟩ := hbegins.unique hbegins'
  have hcount : lineEnds text.toList = lineEnds before + lineEnds rest := by
    rw [hbegins.split, line_ends_append]
  exact ⟨by omega, hcall⟩

/-- A name, and two line ends further on a string that is not closed on its line. -/
def unclosedText : String := "a // \"\n\r\n\u2028 \"b\n"

theorem of_text_lines_exact_unclosed : lineEnds unclosedText.toList < 4294967295 ∧
    (∀ a ∈ (ofText "f" unclosedText).answers [.peek, .nextIf .identifier], a.isOk = true) ∧
    ∃ before rest, BeginsBehind [.identifier "a"] unclosedText.toList before rest ∧
      lineEnds before = 2 := by
  have hlines : lineEnds unclosedText.toList < 4294967295 := by decide +kernel
  have hok : ∀ a ∈ (ofText "f" unclosedText).answers [.peek, .nextIf .identifier],
      a.isOk = true := by decide +kernel
  have htaken : (ofText "f" unclosedText).taken [.peek, .nextIf .identifier] =
      [.identifier "a"] := by decide +kernel
  have herror : (((ofText "f" unclosedText).asked [.peek, .nextIf .identifier]).call .peek).1 =
      .error ⟨⟨"f", 3⟩, .newlineInString⟩ := by decide +kernel
  obtain ⟨⟨before, rest, hbegins⟩, hexact⟩ := of_text_lines_exact "f" unclosedText hlines
    [.peek, .nextIf .identifier] hok .peek
  obtain ⟨_, hanswers⟩ := hexact before rest hbegins
  rw [herror] at hanswers
  obtain ⟨_, hline⟩ := Location.mk.inj hanswers.1
  exact ⟨hlines, hok, before, rest, htaken ▸ hbegins, by omega⟩

end Lexer

end DataLayout
