import DataLayout.Expr
import DataLayout.Proofs.Rendering

/-!
# What is expected

Reading a file calls for one thing after another: a name, a brace, the fields of a struct. What is
still called for makes a stack, and the next symbol decides what becomes of it. The thing on top
takes the symbol and gives way to others, or refuses it, or can be left out, and then the symbol
goes to the one below. An empty stack stands between two statements. No stack is a dead end: there
are symbols that meet all that is expected and end the file.
-/

set_option autoImplicit false

namespace DataLayout

inductive Wanted where
  | name
  | path
  | lbrace
  | equals
  | rbracket
  | rparen
  | comma
  | semicolon
  deriving DecidableEq, Repr

namespace Wanted

def kind : Wanted → Kind
  | .name => .identifier
  | .path => .quoted
  | .lbrace => .mark .lbrace
  | .equals => .mark .equals
  | .rbracket => .mark .rbracket
  | .rparen => .mark .rparen
  | .comma => .mark .comma
  | .semicolon => .mark .semicolon

def sample : Wanted → Symbol
  | .name => .identifier "x"
  | .path => .quoted ""
  | .lbrace => .mark .lbrace
  | .equals => .mark .equals
  | .rbracket => .mark .rbracket
  | .rparen => .mark .rparen
  | .comma => .mark .comma
  | .semicolon => .mark .semicolon

end Wanted

inductive Expectation where
  | token (wanted : Wanted)
  | bound
  | terminator
  | type
  | suffixes (array : Bool)
  | params
  | moreParams
  | moreNames
  | fields
  | atom
  /-- Operators that bind at least as tight as the level says, with their right operands. -/
  | operators (level : Nat)
  deriving DecidableEq, Repr

inductive Reaction where
  | refuses
  | takes (next : List Expectation)
  | passes
  deriving DecidableEq, Repr

def Symbol.isBase : Symbol → Bool
  | .primitive _ | .keyword .void | .identifier _ => true
  | .integer _ | .quoted _ | .keyword _ | .mark _ | .eof => false

namespace Expectation

def onType (s : Symbol) (next : List Expectation) : Reaction :=
  if s.isBase then .takes (.suffixes false :: next) else .refuses

def onSuffixes (s : Symbol) (array : Bool) : Reaction :=
  if s = .mark .lbracket then .takes [.bound, .token .rbracket, .suffixes true]
  else if s = .mark .star then if array then .refuses else .takes [.suffixes false]
  else if s = .mark .lparen then .takes [.params, .suffixes false]
  else .passes

def onAtom : Symbol → Reaction
  | .integer _ | .identifier _ => .takes []
  | .mark .lparen => .takes [.atom, .operators 1, .token .rparen]
  | .mark .minus | .mark .tilde => .takes [.atom]
  | .quoted _ | .primitive _ | .keyword _ | .mark _ | .eof => .refuses

def onOperators (s : Symbol) (level : Nat) : Reaction :=
  match BinaryOp.ofSymbol? s with
  | none => .passes
  | some op =>
    if level ≤ op.precedence then .takes [.atom, .operators (op.precedence + 1), .operators level]
    else .passes

def on (s : Symbol) : Expectation → Reaction
  | .token wanted => if s.kind = wanted.kind then .takes [] else .refuses
  | .bound => if s.integer?.any (fun n => decide (0 ≤ n)) then .takes [] else .refuses
  | .terminator => if s = .mark .semicolon then .takes [] else .passes
  | .type => onType s []
  | .suffixes array => onSuffixes s array
  | .params => if s = .mark .rparen then .takes [] else onType s [.token .name, .moreParams]
  | .moreParams =>
    if s = .mark .rparen then .takes []
    else if s = .mark .comma then .takes [.type, .token .name, .moreParams]
    else .refuses
  | .moreNames =>
    if s = .mark .comma then .takes [.token .name, .moreNames]
    else if s = .mark .semicolon then .takes []
    else .refuses
  | .fields => if s = .mark .rbrace then .takes [] else onType s [.token .name, .moreNames, .fields]
  | .atom => onAtom s
  | .operators level => onOperators s level

/-- What is expected behind the first symbol of a statement. The end of the file may come in its
place, and nothing but itself again behind that. -/
def start : Symbol → Option (List Expectation)
  | .keyword .struct => some [.token .name, .token .lbrace, .fields, .terminator]
  | .keyword .const => some [.token .name, .token .equals, .atom, .operators 1, .terminator]
  | .keyword .incl => some [.token .path, .terminator]
  | .eof => some []
  | .integer _ | .identifier _ | .quoted _ | .primitive _ | .keyword _ | .mark _ => none

def step : List Expectation → Symbol → Option (List Expectation)
  | [], s => start s
  | x :: xs, s =>
    match x.on s with
    | .refuses => none
    | .takes next => some (next ++ xs)
    | .passes => step xs s

/-- What is expected after some symbols, if they can come one after another. -/
def run : List Expectation → List Symbol → Option (List Expectation)
  | xs, [] => some xs
  | xs, s :: ss => (step xs s).bind fun ys => run ys ss

theorem run_append (xs : List Expectation) (ss ss' : List Symbol) :
    run xs (ss ++ ss') = (run xs ss).bind fun ys => run ys ss' := by
  induction ss generalizing xs with
  | nil => rfl
  | cons s ss ih =>
    simp only [List.cons_append, run]
    cases step xs s with
    | none => rfl
    | some ys => exact ih ys

theorem run_append_of_run {xs ys : List Expectation} {ss : List Symbol} (h : run xs ss = some ys)
    (ss' : List Symbol) : run xs (ss ++ ss') = run ys ss' := by
  rw [run_append, h, Option.bind_some]

theorem run_eq_none_of_refused {xs ys : List Expectation} {ss : List Symbol} {s : Symbol}
    (h : run xs ss = some ys) (hs : step ys s = none) (ss' : List Symbol) :
    run xs (ss ++ s :: ss') = none := by
  rw [run_append_of_run h, run, hs, Option.bind_none]

theorem step_takes {x : Expectation} {s : Symbol} {next : List Expectation}
    (h : x.on s = .takes next) (xs : List Expectation) : step (x :: xs) s = some (next ++ xs) := by
  rw [step, h]

theorem step_refuses {x : Expectation} {s : Symbol} (h : x.on s = .refuses)
    (xs : List Expectation) : step (x :: xs) s = none := by
  rw [step, h]

theorem step_passes {xs : List Expectation} {s : Symbol} (h : ∀ x ∈ xs, x.on s = .passes)
    (ys : List Expectation) : step (xs ++ ys) s = step ys s := by
  induction xs with
  | nil => rfl
  | cons x xs ih =>
    obtain ⟨hx, hxs⟩ := List.forall_mem_cons.mp h
    rw [List.cons_append, step, hx]
    exact ih hxs

section Completion

def closing : Expectation → List Symbol
  | .token wanted => [wanted.sample]
  | .bound | .atom => [.integer 0]
  | .terminator | .moreNames => [.mark .semicolon]
  | .type => [.keyword .void]
  | .suffixes _ | .operators _ => []
  | .params | .moreParams => [.mark .rparen]
  | .fields => [.mark .rbrace]

def Settles (s : Symbol) : Prop :=
  (∀ array, on s (.suffixes array) = .passes) ∧ ∀ level, on s (.operators level) = .passes

theorem settles_of {s : Symbol} (hb : s ≠ .mark .lbracket) (hs : s ≠ .mark .star)
    (hp : s ≠ .mark .lparen) (ho : BinaryOp.ofSymbol? s = none) : Settles s := by
  constructor
  · intro array
    simp [on, onSuffixes, hb, hs, hp]
  · intro level
    simp [on, onOperators, ho]

theorem settles_eof : Settles .eof := settles_of (by decide) (by decide) (by decide) rfl

theorem settles_closing (x : Expectation) : ∀ s ∈ x.closing, Settles s := by
  intro s hs
  cases x with
  | token wanted =>
    rw [List.mem_singleton.mp hs]
    cases wanted <;> exact settles_of (by decide) (by decide) (by decide) rfl
  | suffixes | operators => cases hs
  | bound | terminator | type | params | moreParams | moreNames | fields | atom =>
    rw [List.mem_singleton.mp hs]
    exact settles_of (by decide) (by decide) (by decide) rfl

theorem run_closing (x : Expectation) (xs : List Expectation) {s : Symbol} (hs : Settles s)
    (ss : List Symbol) : run (x :: xs) (x.closing ++ s :: ss) = run xs (s :: ss) := by
  have hpass : ∀ y : Expectation, y.on s = .passes →
      run (y :: xs) (s :: ss) = run xs (s :: ss) := by
    intro y hy
    simp only [run, step, hy]
  have htake : ∀ c, x.closing = [c] → x.on c = .takes [] →
      run (x :: xs) (x.closing ++ s :: ss) = run xs (s :: ss) := by
    intro c hc hx
    rw [hc, List.singleton_append, run, step_takes hx]
    rfl
  cases x with
  | token wanted =>
    refine htake _ rfl ?_
    cases wanted <;> rfl
  | suffixes array => exact hpass _ (hs.1 array)
  | operators level => exact hpass _ (hs.2 level)
  | type => exact hpass (.suffixes false) (hs.1 false)
  | bound | terminator | params | moreParams | moreNames | fields | atom => exact htake _ rfl rfl

theorem run_completion (xs : List Expectation) :
    run xs (xs.flatMap closing ++ [.eof]) = some [] := by
  induction xs with
  | nil => rfl
  | cons x xs ih =>
    obtain ⟨s, ss, hcons⟩ : ∃ s ss, xs.flatMap closing ++ [Symbol.eof] = s :: ss :=
      List.exists_cons_of_ne_nil (List.append_ne_nil_of_right_ne_nil _ (List.cons_ne_nil _ _))
    have hmem : s ∈ xs.flatMap closing ++ [Symbol.eof] := hcons ▸ List.mem_cons_self
    have hs : Settles s := by
      rcases List.mem_append.mp hmem with hmem | hmem
      · obtain ⟨y, _, hy⟩ := List.mem_flatMap.mp hmem
        exact settles_closing y s hy
      · exact List.mem_singleton.mp hmem ▸ settles_eof
    rw [List.flatMap_cons, List.append_assoc, hcons, run_closing x xs hs, ← hcons, ih]

theorem closing_writable (x : Expectation) :
    ∀ s ∈ x.closing, s.Writable ∧ s ≠ .keyword .incl := by
  have hx : (Symbol.identifier "x").Writable :=
    ⟨by decide, fun k => by cases k <;> decide, fun p => by cases p <;> decide⟩
  intro s hs
  cases x with
  | token wanted =>
    rw [List.mem_singleton.mp hs]
    cases wanted with
    | name => exact ⟨hx, by decide⟩
    | path | lbrace | equals | rbracket | rparen | comma | semicolon =>
      exact ⟨trivial, by decide⟩
  | suffixes | operators => cases hs
  | bound | terminator | type | params | moreParams | moreNames | fields | atom =>
    rw [List.mem_singleton.mp hs]
    exact ⟨trivial, by decide⟩

end Completion

end Expectation

end DataLayout
