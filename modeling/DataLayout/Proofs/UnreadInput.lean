import DataLayout.Proofs.Lines
import DataLayout.Proofs.Pushback
import Mathlib.Data.Nat.Find

/-!
# The input that is left

A call either reads once, or it answers from the token that was looked at and leaves the input
alone. A read takes characters off the front of the input, at least one unless it finds the end of
the file. So a text has no more tokens and errors than characters, and behind them the end of the
file is found every time. All of this is shown of a lexer that holds its input as a list, and then
of a reader that gives characters back.
-/

set_option autoImplicit false

namespace DataLayout.Lexer

def asked (l : Lexer) : List Call → Lexer
  | [] => l
  | c :: cs => (l.call c).2.asked cs

/-- What is read off the input while calls are answered. A call reads unless a token has been
looked at. -/
def readings (l : Lexer) : List Call → List Outcome
  | [] => []
  | c :: cs =>
    match l.peeked with
    | none => l.read.1 :: (l.call c).2.readings cs
    | some _ => (l.call c).2.readings cs

def settled (l : Lexer) : Lexer := { l with peeked := none }

variable {l start : Lexer} {i : Nat}

theorem settled_of_peeked (h : l.peeked = none) : l.settled = l := by
  cases l
  cases h
  rfl

theorem settled_input (l : Lexer) : l.settled.input = l.input := rfl

section Calls

theorem call_settled_of_none (h : l.peeked = none) (c : Call) :
    (l.call c).2.settled = l.read.2 := by
  have hread : l.read.2.settled = l.read.2 := settled_of_peeked (l.read_peeked.trans h)
  cases c with
  | next => rw [call, next_eq_read h, hread]
  | peek =>
    rw [call, peek, h]
    revert hread
    rcases l.read with ⟨r, l'⟩
    cases r <;> exact id
  | nextIf k =>
    rw [call, nextIf, peek, h]
    revert hread
    rcases l.read with ⟨r, l'⟩
    cases r with
    | error e => exact id
    | ok t =>
      dsimp only
      split_ifs <;> exact id

theorem call_settled_of_some {t : Token} (h : l.peeked = some t) (c : Call) :
    (l.call c).2.settled = l.settled := by
  cases c with
  | next => rw [call, next, h]; rfl
  | peek => rw [call, peek, h]
  | nextIf k =>
    rw [call, nextIf, peek, h]
    dsimp only
    split_ifs <;> rfl

end Calls

section Suffixes

theorem read_input_suffix (l : Lexer) : l.read.2.input <:+ l.input := by
  obtain ⟨_, w, hinput, _⟩ := Lexeme.exists_trivia.1 l.input l.line
  rw [read_input]
  exact (Lexeme.scan_suffix _).trans ⟨w, hinput.symm⟩

theorem read_input_shorter (h : l.read.1.map Located.value ≠ .ok .eof) :
    l.read.2.input.length < l.input.length := by
  have hskip := Lexeme.skip_trivia_length_le l.input l.line
  rw [ne_eq, read_value] at h
  rw [read_input]
  cases hrest : (Lexeme.skipTrivia l.input l.line).2 with
  | nil => exact absurd (by rw [hrest]; rfl) h
  | cons c cs =>
    have hscan := Lexeme.scan_cons_length_le c cs
    rw [hrest, List.length_cons] at hskip
    omega

theorem call_input_suffix (l : Lexer) (c : Call) : (l.call c).2.input <:+ l.input := by
  rw [← settled_input (l.call c).2]
  cases h : l.peeked with
  | none =>
    rw [call_settled_of_none h]
    exact l.read_input_suffix
  | some t => rw [call_settled_of_some h, settled_input]

theorem asked_input_suffix (l : Lexer) (calls : List Call) : (l.asked calls).input <:+ l.input := by
  induction calls generalizing l with
  | nil => exact List.suffix_rfl
  | cons c cs ih => exact (ih (l.call c).2).trans (l.call_input_suffix c)

end Suffixes

section Results

theorem result_eq_read (hs : start.peeked = none) (i : Nat) :
    start.result i = (start.after i).read.1 := by
  rw [result, next_eq_read (after_peeked hs i)]

theorem after_succ_eq_read (hs : start.peeked = none) (i : Nat) :
    start.after (i + 1) = (start.after i).read.2 := by
  rw [after_succ, next_eq_read (after_peeked hs i)]

theorem readings_eq (hs : start.peeked = none) (hl : l.settled = start.after i)
    (calls : List Call) :
    l.readings calls = (List.range' i (l.readings calls).length).map start.result := by
  induction calls generalizing l i with
  | nil => rfl
  | cons c cs ih =>
    cases h : l.peeked with
    | none =>
      rw [settled_of_peeked h] at hl
      have hnext : (l.call c).2.settled = start.after (i + 1) := by
        rw [call_settled_of_none h, hl, after_succ_eq_read hs]
      have hfirst : l.read.1 = start.result i := by rw [hl, result_eq_read hs]
      simp only [readings, h, List.length_cons, List.range'_succ, List.map_cons]
      rw [← ih hnext, hfirst]
    | some t =>
      simp only [readings, h]
      exact ih ((call_settled_of_some h c).trans hl)

theorem after_input_length (hs : start.peeked = none)
    (h : ∀ j < i, (start.result j).map Located.value ≠ .ok .eof) :
    (start.after i).input.length + i ≤ start.input.length := by
  induction i with
  | zero => exact Nat.le_refl _
  | succ i ih =>
    have hbefore := ih fun j hj => h j (Nat.lt_succ_of_lt hj)
    have hlast := h i (Nat.lt_succ_self i)
    rw [result_eq_read hs] at hlast
    have hshorter := read_input_shorter hlast
    rw [after_succ_eq_read hs]
    omega

theorem input_of_read_eof (h : l.read.1.map Located.value = .ok .eof) : l.read.2.input = [] := by
  obtain ⟨hplain, _⟩ := Lexeme.exists_trivia.1 l.input l.line
  rcases Lexeme.exists_of_scan hplain.2 (scan_of_read h) with ⟨hnil, _⟩ | ⟨sp, _, hspells, _⟩
  · rw [read_input, hnil]
    rfl
  · exact absurd rfl hspells.ne_eof

theorem read_of_input_nil (h : l.input = []) : l.read = (.ok ⟨l.location, .eof⟩, l) := by
  cases l
  cases h
  rfl

theorem after_of_input_nil (hs : start.peeked = none) (h : (start.after i).input = []) (k : Nat) :
    start.after (i + k) = start.after i := by
  induction k with
  | zero => rfl
  | succ k ih => rw [← Nat.add_assoc, after_succ_eq_read hs, ih, read_of_input_nil h]

theorem result_of_eof (hs : start.peeked = none)
    (h : (start.result i).map Located.value = .ok .eof) (k : Nat) :
    start.result (i + k) = .ok ⟨(start.after (i + 1)).location, .eof⟩ := by
  cases k with
  | zero =>
    -- the first time the location is the one that the read itself has got to
    obtain ⟨t, ht, hvalue⟩ := except_map_eq_ok.mp h
    have hlocation := (start.after i).read_location.1 t (result_eq_read hs i ▸ ht)
    rw [← after_succ_eq_read hs] at hlocation
    rw [Nat.add_zero, ht, ← hlocation, ← hvalue]
  | succ k =>
    have hnil : (start.after (i + 1)).input = [] := by
      rw [after_succ_eq_read hs]
      exact input_of_read_eof (result_eq_read hs i ▸ h)
    have hpos : i + (k + 1) = i + 1 + k := by omega
    rw [hpos, result_eq_read hs, after_of_input_nil hs hnil, read_of_input_nil hnil]

end Results

theorem exists_end (hs : start.peeked = none) : ∃ count ≤ start.input.length, ∃ location,
    (∀ i < count, (start.result i).map Located.value ≠ .ok .eof) ∧
    ∀ i, count ≤ i → start.result i = .ok ⟨location, .eof⟩ := by
  have hcount : ∀ i, (∀ j < i, (start.result j).map Located.value ≠ .ok .eof) →
      i ≤ start.input.length := by
    intro i hi
    have hlength := after_input_length hs hi
    omega
  have hends : ∃ i, (start.result i).map Located.value = .ok .eof := by
    by_contra hnone
    exact absurd (hcount (start.input.length + 1) fun j _ hj => hnone ⟨j, hj⟩)
      (Nat.not_succ_le_self _)
  refine ⟨Nat.find hends, hcount _ fun j hj => Nat.find_min hends hj,
    (start.after (Nat.find hends + 1)).location, fun i hi => Nat.find_min hends hi, ?_⟩
  intro i hi
  obtain ⟨k, rfl⟩ := Nat.exists_eq_add_of_le hi
  exact result_of_eof hs (Nat.find_spec hends) k

end DataLayout.Lexer

namespace DataLayout.Reader

open Lexer (Call Answer Outcome)

def answers (r : Reader) : List Call → List Answer
  | [] => []
  | c :: cs => (r.call c).1 :: (r.call c).2.answers cs

def asked (r : Reader) : List Call → Reader
  | [] => r
  | c :: cs => (r.call c).2.asked cs

/-- What is read off the characters while calls are answered. -/
def readings (r : Reader) : List Call → List Outcome
  | [] => []
  | c :: cs =>
    match r.peeked with
    | none => r.read.1 :: (r.call c).2.readings cs
    | some _ => (r.call c).2.readings cs

def after (r : Reader) (i : Nat) : Reader := (fun r => r.next.2)^[i] r

def result (r : Reader) (i : Nat) : Outcome := (r.after i).next.1

section Simulation

variable (r : Reader)

theorem read_fst : r.read.1 = r.lexer.read.1 := congrArg Prod.fst r.read_lexer

theorem read_unread : r.read.2.characters.unread = r.lexer.read.2.input :=
  congrArg (·.2.input) r.read_lexer

theorem call_fst (c : Call) : (r.call c).1 = (r.lexer.call c).1 :=
  congrArg Prod.fst (r.call_lexer c)

theorem call_snd (c : Call) : (r.call c).2.lexer = (r.lexer.call c).2 :=
  congrArg Prod.snd (r.call_lexer c)

theorem answers_eq (calls : List Call) : r.answers calls = r.lexer.answers calls := by
  induction calls generalizing r with
  | nil => rfl
  | cons c cs ih => rw [answers, Lexer.answers, call_fst, ih, call_snd]

theorem asked_lexer (calls : List Call) : (r.asked calls).lexer = r.lexer.asked calls := by
  induction calls generalizing r with
  | nil => rfl
  | cons c cs ih => rw [asked, Lexer.asked, ih, call_snd]

theorem readings_eq (calls : List Call) : r.readings calls = r.lexer.readings calls := by
  induction calls generalizing r with
  | nil => rfl
  | cons c cs ih =>
    have hlexer : r.lexer.peeked = r.peeked := rfl
    cases hpeeked : r.peeked with
    | none => simp only [readings, Lexer.readings, hlexer, hpeeked, read_fst, ih, call_snd]
    | some t => simp only [readings, Lexer.readings, hlexer, hpeeked, ih, call_snd]

theorem after_lexer (i : Nat) : (r.after i).lexer = r.lexer.after i := by
  induction i generalizing r with
  | zero => rfl
  | succ i ih =>
    have hnext : r.next.2.lexer = r.lexer.next.2 := congrArg Prod.snd r.next_lexer
    exact (ih r.next.2).trans (congrArg (·.after i) hnext)

theorem result_eq (i : Nat) : r.result i = r.lexer.result i := by
  have hnext : (r.after i).next.1 = (r.after i).lexer.next.1 :=
    congrArg Prod.fst (r.after i).next_lexer
  rw [result, hnext, after_lexer]
  rfl

end Simulation

section Depth

variable {r : Reader}

theorem read_pushback_le (h : r.characters.pushback.length ≤ 1) :
    r.read.2.characters.pushback.length ≤ 1 := by
  have htrivia := r.characters.skip_trivia_pushback_le r.line
  have hscan := Characters.scan_pushback_le (s := (r.characters.skipTrivia r.line).2) (by omega)
  rw [read]
  split <;> exact hscan

/-- Characters are read in no other way than by a read. -/
theorem call_characters (r : Reader) (c : Call) :
    (r.call c).2.characters = r.characters ∨
      (r.call c).2.characters = r.read.2.characters := by
  have hpeek : r.peek.2.characters = r.characters ∨
      r.peek.2.characters = r.read.2.characters := by
    rw [peek]
    split
    · exact .inl rfl
    · rcases r.read with ⟨_ | _, _⟩ <;> exact .inr rfl
  cases c with
  | next =>
    rw [call, next]
    split
    · exact .inl rfl
    · exact .inr rfl
  | peek => exact hpeek
  | nextIf k =>
    rw [call, nextIf]
    revert hpeek
    rcases r.peek with ⟨_ | t, r'⟩
    · exact id
    · dsimp only
      split_ifs <;> exact id

theorem call_pushback_le (h : r.characters.pushback.length ≤ 1) (c : Call) :
    (r.call c).2.characters.pushback.length ≤ 1 := by
  rcases r.call_characters c with hsame | hread
  · rw [hsame]
    exact h
  · rw [hread]
    exact read_pushback_le h

theorem asked_pushback_le (h : r.characters.pushback.length ≤ 1) (calls : List Call) :
    (r.asked calls).characters.pushback.length ≤ 1 := by
  induction calls generalizing r with
  | nil => exact h
  | cons c cs ih => exact ih (call_pushback_le h c)

end Depth

/-- After any calls what a reader has still to read, the characters given back and then the others,
is a suffix of the text, and at most one character is given back. Every read leaves a suffix of it,
a shorter one unless the end of the file is found. The answers are those of a lexer that has the
text before it. So the results that calls can read are at most as many as the text has characters,
and then the end of the file at one place for ever. -/
theorem of_text_runs_out (file text : String) :
    (∀ calls, let r := (ofText file text).asked calls
      r.characters.pushback ++ r.characters.chars <:+ text.toList ∧
      r.characters.pushback.length ≤ 1 ∧
      r.read.2.characters.pushback ++ r.read.2.characters.chars <:+
        r.characters.pushback ++ r.characters.chars ∧
      (r.read.1.map Located.value ≠ .ok .eof →
        (r.read.2.characters.pushback ++ r.read.2.characters.chars).length <
          (r.characters.pushback ++ r.characters.chars).length)) ∧
    (∀ calls, (ofText file text).answers calls = (Lexer.ofText file text).answers calls) ∧
    ∃ count ≤ text.length, ∃ location,
      (∀ i < count, ((ofText file text).result i).map Located.value ≠ .ok .eof) ∧
      (∀ i, count ≤ i → (ofText file text).result i = .ok ⟨location, .eof⟩) ∧
      ∀ calls, (ofText file text).readings calls =
        (List.range ((ofText file text).readings calls).length).map (ofText file text).result := by
  refine ⟨fun calls => ?_, answers_eq _, ?_⟩
  · have hlexer := (ofText file text).asked_lexer calls
    generalize hr : (ofText file text).asked calls = r at hlexer
    have hsuffix := (Lexer.ofText file text).asked_input_suffix calls
    have hread := r.lexer.read_input_suffix
    have hshorter := Lexer.read_input_shorter (l := r.lexer)
    rw [← of_text_lexer, ← hlexer] at hsuffix
    rw [← read_fst, ← read_unread] at hshorter
    rw [← read_unread] at hread
    have hdepth := asked_pushback_le (r := ofText file text) (Nat.zero_le 1) calls
    exact ⟨hsuffix, hr ▸ hdepth, hread, hshorter⟩
  · have hfresh : (Lexer.ofText file text).peeked = none := rfl
    have hlength : (Lexer.ofText file text).input.length = text.length := String.length_toList
    obtain ⟨count, hcount, location, hbefore, hbehind⟩ := Lexer.exists_end hfresh
    have hresult : (ofText file text).result = (Lexer.ofText file text).result :=
      funext fun i => result_eq _ i
    simp only [hresult, readings_eq, of_text_lexer]
    refine ⟨count, hlength ▸ hcount, location, hbefore, hbehind, fun calls => ?_⟩
    have hstart : (Lexer.ofText file text).settled = (Lexer.ofText file text).after 0 := rfl
    rw [List.range_eq_range']
    exact Lexer.readings_eq hfresh hstart calls

end DataLayout.Reader
