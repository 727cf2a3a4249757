import DataLayout.Proofs.Precedence

/-!
# Attempts

A reading forgets the tokens in hand when it fails. An attempt keeps them: the token that was
refused has been taken, and those behind it are left. Expressions are attempted the way they are
read, and an attempt without the tokens of its failure is the reading.
-/

set_option autoImplicit false

namespace DataLayout

structure Stop where
  failure : ParseFailure
  rest : List Token

abbrev Attempt (n : Nat) (α : Type) := Except Stop (Phrase n α)

namespace Attempt

variable {n : Nat} {α : Type}

def reading (a : Attempt n α) : Reading n α :=
  a.mapError Stop.failure

def outcome (a : Attempt n α) : Except Stop (α × List Token) :=
  a.map fun p => (p.value, p.rest)

@[simp] theorem reading_ok (p : Phrase n α) : reading (.ok p) = .ok p :=
  rfl

theorem outcome_injective {a b : Attempt n α} (h : a.outcome = b.outcome) : a = b := by
  cases a with
  | error s =>
    cases b with
    | error s' =>
      cases h
      rfl
    | ok q => cases h
  | ok p =>
    cases b with
    | error s' => cases h
    | ok q =>
      obtain ⟨v, r, hp⟩ := p
      obtain ⟨v', r', hq⟩ := q
      cases h
      rfl

end Attempt

namespace Ending

variable {α : Type}

/-- Takes a token that `accept` has a use for. A token that is refused is taken as well. -/
def attempt (ending : Ending) (accept : Token → Option α) (complain : Symbol → ParseError) :
    (ts : List Token) → Attempt ts.length α
  | [] => .error ⟨ending.failure complain, []⟩
  | t :: rest =>
    match accept t with
    | some v => .ok (.one v t rest)
    | none => .error ⟨⟨t.location, complain t.value⟩, rest⟩

def attemptMark (ending : Ending) (m : Mark) (ts : List Token) : Attempt ts.length Token :=
  ending.attempt (fun t => if t.kind = .mark m then some t else none) (.expected (.mark m)) ts

theorem reading_attempt (ending : Ending) (accept : Token → Option α)
    (complain : Symbol → ParseError) (ts : List Token) :
    (ending.attempt accept complain ts).reading = ending.take accept complain ts := by
  cases ts with
  | nil => rfl
  | cons t rest =>
    rw [attempt, take]
    cases accept t <;> rfl

theorem reading_attempt_mark (ending : Ending) (m : Mark) (ts : List Token) :
    (ending.attemptMark m ts).reading = ending.expect (.mark m) ts :=
  reading_attempt ending _ _ ts

end Ending

namespace Expr

mutual

def attemptAtom (ending : Ending) (ts : List Token) : Attempt ts.length Expr :=
  match ending.attempt AtomStart.ofToken? .expectedAtom ts with
  | .error s => .error s
  | .ok ⟨.leaf e, r₁, h₁⟩ => .ok ⟨e, r₁, h₁⟩
  | .ok ⟨.group, r₁, h₁⟩ =>
    match attemptBinary ending 1 r₁ with
    | .error s => .error s
    | .ok ⟨e, r₂, h₂⟩ =>
      match ending.attemptMark .rparen r₂ with
      | .error s => .error s
      | .ok ⟨_, r₃, h₃⟩ => .ok ⟨e, r₃, Phrase.fewer_trans h₃ (Phrase.fewer_trans h₂ h₁)⟩
  | .ok ⟨.unary location op, r₁, h₁⟩ =>
    match attemptAtom ending r₁ with
    | .error s => .error s
    | .ok ⟨e, r₂, h₂⟩ => .ok ⟨.unary location op e, r₂, Phrase.fewer_trans h₂ h₁⟩
termination_by 2 * ts.length

def attemptBinary (ending : Ending) (level : Nat) (ts : List Token) : Attempt ts.length Expr :=
  match attemptAtom ending ts with
  | .error s => .error s
  | .ok ⟨left, r₁, h₁⟩ =>
    match attemptOperators ending level left r₁ with
    | .error s => .error s
    | .ok ⟨e, r₂, h₂⟩ => .ok ⟨e, r₂, Nat.lt_of_le_of_lt (Nat.le_of_lt_succ h₂) h₁⟩
termination_by 2 * ts.length + 1

def attemptOperators (ending : Ending) (level : Nat) (left : Expr) (ts : List Token) :
    Attempt (ts.length + 1) Expr :=
  match ts with
  | [] =>
    match ending.look with
    | .error f => .error ⟨f, []⟩
    | .ok _ => .ok (.none left [])
  | t :: rest =>
    match BinaryOp.ofSymbol? t.value with
    | none => .ok (.none left (t :: rest))
    | some op =>
      if level ≤ op.precedence then
        match attemptBinary ending (op.precedence + 1) rest with
        | .error s => .error s
        | .ok ⟨right, r₁, h₁⟩ =>
          match attemptOperators ending level (.binary t.location op left right) r₁ with
          | .error s => .error s
          | .ok ⟨e, r₂, h₂⟩ =>
            .ok ⟨e, r₂, Nat.lt_trans h₂ (Nat.succ_lt_succ (Phrase.fewer_succ h₁))⟩
      else .ok (.none left (t :: rest))
termination_by 2 * ts.length

end

def attempt (ending : Ending) (ts : List Token) : Attempt ts.length Expr :=
  attemptBinary ending 1 ts

mutual

theorem reading_attempt_atom (ending : Ending) (ts : List Token) :
    (attemptAtom ending ts).reading = readAtom ending ts := by
  rw [attemptAtom, readAtom, ← Ending.reading_attempt]
  cases ending.attempt AtomStart.ofToken? .expectedAtom ts with
  | error s => rfl
  | ok p =>
    obtain ⟨start, r₁, h₁⟩ := p
    cases start with
    | leaf e => rfl
    | group =>
      simp only [Attempt.reading_ok]
      rw [← reading_attempt_binary ending 1 r₁]
      cases attemptBinary ending 1 r₁ with
      | error s => rfl
      | ok q =>
        simp only [Attempt.reading_ok]
        rw [← Ending.reading_attempt_mark]
        cases ending.attemptMark .rparen q.rest <;> rfl
    | unary location op =>
      simp only [Attempt.reading_ok]
      rw [← reading_attempt_atom ending r₁]
      cases attemptAtom ending r₁ <;> rfl
termination_by 2 * ts.length

theorem reading_attempt_binary (ending : Ending) (level : Nat) (ts : List Token) :
    (attemptBinary ending level ts).reading = readBinary ending level ts := by
  rw [attemptBinary, readBinary, ← reading_attempt_atom ending ts]
  cases attemptAtom ending ts with
  | error s => rfl
  | ok p =>
    have hfewer := p.fewer
    simp only [Attempt.reading_ok]
    rw [← reading_attempt_operators ending level p.value p.rest]
    cases attemptOperators ending level p.value p.rest <;> rfl
termination_by 2 * ts.length + 1

theorem reading_attempt_operators (ending : Ending) (level : Nat) (left : Expr) (ts : List Token) :
    (attemptOperators ending level left ts).reading = readOperators ending level left ts := by
  cases ts with
  | nil =>
    rw [attemptOperators, readOperators]
    cases ending.look <;> rfl
  | cons t rest =>
    rw [attemptOperators, readOperators]
    cases BinaryOp.ofSymbol? t.value with
    | none => rfl
    | some op =>
      by_cases hlevel : level ≤ op.precedence
      · simp only [if_pos hlevel]
        rw [← reading_attempt_binary ending (op.precedence + 1) rest]
        cases attemptBinary ending (op.precedence + 1) rest with
        | error s => rfl
        | ok p =>
          have hfewer := p.fewer
          simp only [Attempt.reading_ok]
          rw [← reading_attempt_operators ending level _ p.rest]
          cases attemptOperators ending level _ p.rest <;> rfl
      · simp only [if_neg hlevel]
        rfl
termination_by 2 * ts.length

end

end Expr

end DataLayout
