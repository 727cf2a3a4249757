import DataLayout.Proofs.Lexing
import Mathlib.Logic.Function.Iterate

/-!
# Looking ahead

A lexer can be asked to take the next token, to look at it, or to take it if it is of a given kind.
In whatever order this is done, the answers are read off one sequence: the tokens and errors that
come of taking one after another. A lexer that has looked at a token is already past it, and an
error that was met while looking is not met again.
-/

set_option autoImplicit false

namespace DataLayout.Lexer

inductive Call where
  | next
  | peek
  | nextIf (kind : Kind)
  deriving DecidableEq, Repr

abbrev Answer := Except (Located LexError) (Option Token)

def call (l : Lexer) : Call → Answer × Lexer
  | .next => (l.next.1.map some, l.next.2)
  | .peek => (l.peek.1.map some, l.peek.2)
  | .nextIf k => l.nextIf k

def answers (l : Lexer) : List Call → List Answer
  | [] => []
  | c :: cs => (l.call c).1 :: (l.call c).2.answers cs

def after (l : Lexer) (i : Nat) : Lexer := (fun l => l.next.2)^[i] l

def result (l : Lexer) (i : Nat) : Outcome := (l.after i).next.1

namespace Call

def answer (r : Outcome) : Call → Answer
  | .next | .peek => r.map some
  | .nextIf k => r.map fun t => if t.kind = k then some t else none

def passes (r : Outcome) : Call → Bool
  | .next => true
  | .peek => !r.isOk
  | .nextIf k =>
    match r with
    | .ok t => t.kind = k
    | .error _ => true

def answersFrom (results : Nat → Outcome) : (i : Nat) → List Call → List Answer
  | _, [] => []
  | i, c :: cs =>
    c.answer (results i) :: answersFrom results (if c.passes (results i) then i + 1 else i) cs

end Call

variable {start l : Lexer} {i : Nat}

theorem after_succ (l : Lexer) (i : Nat) : l.after (i + 1) = (l.after i).next.2 :=
  Function.iterate_succ_apply' _ i l

theorem after_peeked (h : start.peeked = none) (i : Nat) : (start.after i).peeked = none := by
  induction i with
  | zero => exact h
  | succ i ih => rw [after_succ, next_eq_read ih, read_peeked, ih]

/-- The lexer is where `start` is before position `i`, or it has looked at the token there. -/
inductive StandsAt (start : Lexer) (i : Nat) : Lexer → Prop
  | before : StandsAt start i (start.after i)
  | looked {t : Token} (h : start.result i = .ok t) :
      StandsAt start i { start.after (i + 1) with peeked := some t }

theorem StandsAt.next_eq (h : StandsAt start i l) (hs : start.peeked = none) :
    l.next = (start.result i, start.after (i + 1)) := by
  cases h with
  | before => rw [after_succ, result]
  | @looked t ht =>
    have hpeeked := after_peeked hs (i + 1)
    rw [next, ht]
    generalize start.after (i + 1) = l' at hpeeked ⊢
    cases l'
    cases hpeeked
    rfl

theorem StandsAt.peek_of_ok (h : StandsAt start i l) (hs : start.peeked = none) {t : Token}
    (ht : start.result i = .ok t) :
    l.peek = (.ok t, { start.after (i + 1) with peeked := some t }) := by
  cases h with
  | before =>
    have hpeeked := after_peeked hs i
    have hread : (start.after i).read = (.ok t, start.after (i + 1)) := by
      rw [← ht, after_succ, result, next_eq_read hpeeked]
    rw [peek, hpeeked, hread]
  | @looked t' ht' =>
    cases ht.symm.trans ht'
    rfl

theorem StandsAt.peek_of_error (h : StandsAt start i l) (hs : start.peeked = none)
    {e : Located LexError} (he : start.result i = .error e) :
    l.peek = (.error e, start.after (i + 1)) := by
  cases h with
  | before =>
    have hpeeked := after_peeked hs i
    have hread : (start.after i).read = (.error e, start.after (i + 1)) := by
      rw [← he, after_succ, result, next_eq_read hpeeked]
    rw [peek, hpeeked, hread]
  | looked ht => cases he.symm.trans ht

theorem StandsAt.call (h : StandsAt start i l) (hs : start.peeked = none) (c : Call) :
    (l.call c).1 = c.answer (start.result i) ∧
      StandsAt start (if c.passes (start.result i) then i + 1 else i) (l.call c).2 := by
  cases c with
  | next =>
    rw [Lexer.call, h.next_eq hs]
    exact ⟨rfl, .before⟩
  | peek =>
    cases hr : start.result i with
    | ok t =>
      rw [Lexer.call, h.peek_of_ok hs hr]
      exact ⟨rfl, .looked hr⟩
    | error e =>
      rw [Lexer.call, h.peek_of_error hs hr]
      exact ⟨rfl, .before⟩
  | nextIf k =>
    cases hr : start.result i with
    | ok t =>
      rw [Lexer.call, nextIf, h.peek_of_ok hs hr]
      by_cases hk : t.kind = k
      · -- the token that was looked at is taken, so the lexer is as if it had never looked
        have htaken := (StandsAt.looked hr).next_eq hs
        simp only [next, Prod.mk.injEq] at htaken
        simp only [hk, if_true, htaken.2, Call.answer, Call.passes, Except.map, decide_true]
        exact ⟨trivial, .before⟩
      · simp only [hk, if_false, Call.answer, Call.passes, Except.map, decide_false,
          Bool.false_eq_true]
        exact ⟨trivial, .looked hr⟩
    | error e =>
      rw [Lexer.call, nextIf, h.peek_of_error hs hr]
      exact ⟨rfl, .before⟩

theorem StandsAt.answers_eq (h : StandsAt start i l) (hs : start.peeked = none)
    (calls : List Call) : l.answers calls = Call.answersFrom start.result i calls := by
  induction calls generalizing i l with
  | nil => rfl
  | cons c cs ih =>
    obtain ⟨hanswer, hstands⟩ := h.call hs c
    rw [answers, Call.answersFrom, hanswer, ih hstands]

/-- Looking ahead changes nothing: the answers to any calls are those of a position that moves
along the tokens and errors of the text. -/
theorem of_text_answers (file text : String) (calls : List Call) :
    (ofText file text).answers calls =
      Call.answersFrom (ofText file text).result 0 calls := by
  have hstart : StandsAt (ofText file text) 0 (ofText file text) := .before
  exact hstart.answers_eq rfl calls

example : (ofText "a" "x \"\n y").answers [.peek, .nextIf (.mark .comma), .next, .peek, .peek] =
    [.ok (some ⟨⟨"a", 1⟩, .identifier "x"⟩), .ok none, .ok (some ⟨⟨"a", 1⟩, .identifier "x"⟩),
      .error ⟨⟨"a", 1⟩, .newlineInString⟩, .ok (some ⟨⟨"a", 1⟩, .identifier "y"⟩)] := by
  decide +kernel

end DataLayout.Lexer
