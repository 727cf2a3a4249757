import DataLayout.Proofs.Attempts

/-!
# Layers of operators

The plain way to read an expression has one reader for each layer of operators: operands of the
next layer, joined from the left. Climbing along the operators by their precedence comes to the
same, on tokens of every kind: to the same expression or the same failure, with the same tokens
left.
-/

set_option autoImplicit false

namespace DataLayout.Expr

inductive Layer where
  | shift
  | add
  | mul
  deriving DecidableEq, Repr

structure Step where
  location : Location
  op : BinaryOp
  operand : Expr

def Step.join (left : Expr) (s : Step) : Expr :=
  .binary s.location s.op left s.operand

namespace Layer

def op? (layer : Layer) : Symbol → Option BinaryOp
  | .mark m =>
    match layer, m with
    | .shift, .shiftLeft => some .shiftLeft
    | .shift, .shiftRight => some .shiftRight
    | .add, .plus => some .add
    | .add, .minus => some .sub
    | .mul, .star => some .mul
    | .mul, .slash => some .div
    | _, _ => none
  | .integer _ | .identifier _ | .quoted _ | .primitive _ | .keyword _ | .eof => none

def height : Layer → Nat
  | .shift => 2
  | .add => 1
  | .mul => 0

mutual

def atom (ending : Ending) (ts : List Token) : Attempt ts.length Expr :=
  match ending.attempt AtomStart.ofToken? .expectedAtom ts with
  | .error s => .error s
  | .ok ⟨.leaf e, r₁, h₁⟩ => .ok ⟨e, r₁, h₁⟩
  | .ok ⟨.group, r₁, h₁⟩ =>
    match expression ending .shift r₁ with
    | .error s => .error s
    | .ok ⟨e, r₂, h₂⟩ =>
      match ending.attemptMark .rparen r₂ with
      | .error s => .error s
      | .ok ⟨_, r₃, h₃⟩ => .ok ⟨e, r₃, Phrase.fewer_trans h₃ (Phrase.fewer_trans h₂ h₁)⟩
  | .ok ⟨.unary location op, r₁, h₁⟩ =>
    match atom ending r₁ with
    | .error s => .error s
    | .ok ⟨e, r₂, h₂⟩ => .ok ⟨.unary location op e, r₂, Phrase.fewer_trans h₂ h₁⟩
termination_by 8 * ts.length
decreasing_by
  · simp only [height]
    omega
  · omega

/-- Shifts have sums for operands, sums have products, and products have atoms. -/
def operand (ending : Ending) (layer : Layer) (ts : List Token) : Attempt ts.length Expr :=
  match layer with
  | .shift => expression ending .add ts
  | .add => expression ending .mul ts
  | .mul => atom ending ts
termination_by 8 * ts.length + 2 * layer.height + 1
decreasing_by
  all_goals simp only [height]
  all_goals omega

def expression (ending : Ending) (layer : Layer) (ts : List Token) : Attempt ts.length Expr :=
  match operand ending layer ts with
  | .error s => .error s
  | .ok ⟨first, r₁, h₁⟩ =>
    match steps ending layer r₁ with
    | .error s => .error s
    | .ok ⟨ss, r₂, h₂⟩ =>
      .ok ⟨ss.foldl Step.join first, r₂, Nat.lt_of_le_of_lt (Nat.le_of_lt_succ h₂) h₁⟩
termination_by 8 * ts.length + 2 * layer.height + 2

def steps (ending : Ending) (layer : Layer) (ts : List Token) :
    Attempt (ts.length + 1) (List Step) :=
  match ts with
  | [] =>
    match ending.look with
    | .error f => .error ⟨f, []⟩
    | .ok _ => .ok (.none [] [])
  | t :: rest =>
    match layer.op? t.value with
    | none => .ok (.none [] (t :: rest))
    | some op =>
      match operand ending layer rest with
      | .error s => .error s
      | .ok ⟨e, r₁, h₁⟩ =>
        match steps ending layer r₁ with
        | .error s => .error s
        | .ok ⟨ss, r₂, h₂⟩ =>
          .ok ⟨⟨t.location, op, e⟩ :: ss, r₂,
            Nat.lt_trans h₂ (Nat.succ_lt_succ (Phrase.fewer_succ h₁))⟩
termination_by 8 * ts.length
decreasing_by
  all_goals simp only [List.length_cons]
  · cases layer <;> simp only [height] <;> omega
  · omega

end

def precedence (layer : Layer) : Nat := 3 - layer.height

theorem op?_eq_some {layer : Layer} {s : Symbol} {op : BinaryOp} :
    layer.op? s = some op ↔
      BinaryOp.ofSymbol? s = some op ∧ op.precedence = layer.precedence := by
  cases s with
  | mark m => cases layer <;> cases m <;> cases op <;> decide
  | integer | identifier | quoted | primitive | keyword | eof =>
    simp [op?, BinaryOp.ofSymbol?]

theorem exists_precedence (op : BinaryOp) : ∃ layer : Layer, op.precedence = layer.precedence := by
  cases op with
  | shiftLeft | shiftRight => exact ⟨.shift, rfl⟩
  | add | sub => exact ⟨.add, rfl⟩
  | mul | div => exact ⟨.mul, rfl⟩

variable {ending : Ending} {layer : Layer} {left : Expr} {ts rest : List Token}
  {t : Token} {op : BinaryOp}

/-! ## What the readers of the layers come to -/

def after (ending : Ending) (layer : Layer) (x : Expr × List Token) :
    Except Stop (Expr × List Token) :=
  (steps ending layer x.2).outcome.map fun y => (y.1.foldl Step.join x.1, y.2)

theorem outcome_expression :
    (expression ending layer ts).outcome =
      (operand ending layer ts).outcome >>= after ending layer := by
  rw [expression]
  cases operand ending layer ts with
  | error s => rfl
  | ok p =>
    show _ = after ending layer (p.value, p.rest)
    rw [after]
    dsimp only
    cases steps ending layer p.rest <;> rfl

theorem after_nil : after ending layer (left, []) =
    (ending.look.mapError (Stop.mk · [])).map fun _ => (left, []) := by
  rw [after, steps]
  cases ending.look <;> rfl

theorem after_cons_none (h : layer.op? t.value = none) :
    after ending layer (left, t :: rest) = .ok (left, t :: rest) := by
  rw [after, steps]
  simp only [h]
  rfl

theorem after_cons_some (h : layer.op? t.value = some op) :
    after ending layer (left, t :: rest) = (operand ending layer rest).outcome >>=
      fun x => after ending layer (.binary t.location op left x.1, x.2) := by
  rw [after, steps]
  simp only [h]
  cases operand ending layer rest with
  | error s => rfl
  | ok p =>
    show _ = after ending layer (.binary t.location op left p.value, p.rest)
    rw [after]
    dsimp only
    cases steps ending layer p.rest <;> rfl

/-- The operators of a layer and of all tighter ones behind the operand `left`. -/
def through (ending : Ending) : Layer → Expr × List Token → Except Stop (Expr × List Token)
  | .mul, x => after ending .mul x
  | .add, x => after ending .mul x >>= after ending .add
  | .shift, x => after ending .mul x >>= after ending .add >>= after ending .shift

theorem outcome_expression_through :
    (expression ending layer ts).outcome = (atom ending ts).outcome >>= through ending layer := by
  have hmul : (expression ending .mul ts).outcome =
      (atom ending ts).outcome >>= through ending .mul := by
    rw [outcome_expression, operand]
    rfl
  have hadd : (expression ending .add ts).outcome =
      (atom ending ts).outcome >>= through ending .add := by
    rw [outcome_expression, operand, hmul, bind_assoc]
    rfl
  cases layer with
  | mul => exact hmul
  | add => exact hadd
  | shift =>
    rw [outcome_expression, operand, hadd, bind_assoc]
    rfl

/-! ## Climbing along the operators -/

/-- No operator of at least the given precedence comes next, and it can be seen that none does. -/
def Settled (ending : Ending) (level : Nat) (ts : List Token) : Prop :=
  Stops level ts ∧ (ts = [] → ending.look = .ok ())

theorem Settled.mono {level level' : Nat} (h : Settled ending level ts) (hle : level ≤ level') :
    Settled ending level' ts := by
  refine ⟨fun t rest op hts hop => ?_, h.2⟩
  exact Nat.lt_of_lt_of_le (h.1 t rest op hts hop) hle

theorem settled_cons {level : Nat}
    (h : ∀ op, BinaryOp.ofSymbol? t.value = some op → op.precedence < level) :
    Settled ending level (t :: rest) := by
  refine ⟨?_, by simp⟩
  rintro t' rest' op ⟨⟩ hop
  exact h op hop

theorem exists_of_not_settled {level : Nat} (h : ¬ Settled ending level (t :: rest)) :
    ∃ op, BinaryOp.ofSymbol? t.value = some op ∧ level ≤ op.precedence := by
  by_contra hno
  apply h
  apply settled_cons
  intro op hop
  by_contra hlt
  exact hno ⟨op, hop, Nat.not_lt.mp hlt⟩

theorem after_settled (h : Settled ending layer.precedence ts) :
    after ending layer (left, ts) = .ok (left, ts) := by
  cases ts with
  | nil =>
    rw [after_nil, h.2 rfl]
    rfl
  | cons t rest =>
    apply after_cons_none
    rw [Option.eq_none_iff_forall_ne_some]
    intro op hop
    obtain ⟨hop, hp⟩ := op?_eq_some.mp hop
    have hlt := h.1 t rest op rfl hop
    omega

theorem through_settled (layer : Layer) (h : Settled ending layer.precedence ts) :
    through ending layer (left, ts) = .ok (left, ts) := by
  have hmul : after ending .mul (left, ts) = .ok (left, ts) :=
    after_settled (h.mono (by cases layer <;> decide))
  cases layer with
  | mul => exact hmul
  | add =>
    rw [through, hmul]
    exact after_settled h
  | shift =>
    have hadd : after ending .add (left, ts) = .ok (left, ts) := after_settled (h.mono (by decide))
    rw [through, hmul]
    show after ending .add (left, ts) >>= _ = _
    rw [hadd]
    exact after_settled h

/-- The operators that bind tighter than those of a layer, behind an operand. -/
def tighter (ending : Ending) : Layer → Expr × List Token → Except Stop (Expr × List Token)
  | .mul, x => .ok x
  | .add, x => through ending .mul x
  | .shift, x => through ending .add x

theorem through_eq (x : Expr × List Token) :
    through ending layer x = tighter ending layer x >>= after ending layer := by
  cases layer <;> rfl

theorem tighter_settled (h : layer ≠ .mul → Settled ending (layer.precedence + 1) ts) :
    tighter ending layer (left, ts) = .ok (left, ts) := by
  cases layer with
  | mul => rfl
  | add => exact through_settled .mul (h (by decide))
  | shift => exact through_settled .add (h (by decide))

theorem through_nil : through ending layer (left, []) =
    (ending.look.mapError (Stop.mk · [])).map fun _ => (left, []) := by
  cases hl : ending.look with
  | error f => cases layer <;> simp only [through, after_nil, hl] <;> rfl
  | ok x => exact through_settled layer ⟨by rintro t rest op ⟨⟩, fun _ => hl⟩

theorem bind_congr_ok {α β : Type} {o : Except Stop α} {f g : α → Except Stop β}
    (h : ∀ x, o = .ok x → f x = g x) : o >>= f = o >>= g := by
  cases o with
  | error s => rfl
  | ok x => exact h x rfl

theorem through_cons_same (left : Expr) (hop : layer.op? t.value = some op)
    (hend : ∀ x, (operand ending layer rest).outcome = .ok x → layer ≠ .mul →
      Settled ending (layer.precedence + 1) x.2) :
    through ending layer (left, t :: rest) = (operand ending layer rest).outcome >>=
      fun x => through ending layer (.binary t.location op left x.1, x.2) := by
  obtain ⟨hsym, hp⟩ := op?_eq_some.mp hop
  have hstart : Settled ending (layer.precedence + 1) (t :: rest) := by
    apply settled_cons
    intro op' hop'
    cases hsym.symm.trans hop'
    omega
  calc through ending layer (left, t :: rest)
    _ = after ending layer (left, t :: rest) := by
        rw [through_eq, tighter_settled fun _ => hstart]
        rfl
    _ = (operand ending layer rest).outcome >>=
          fun x => after ending layer (.binary t.location op left x.1, x.2) := after_cons_some hop
    _ = _ := by
        apply bind_congr_ok
        intro x hx
        rw [through_eq, tighter_settled (hend x hx)]
        rfl

theorem through_of_tighter (layer : Layer) {o : Except Stop (Expr × List Token)}
    {x : Expr × List Token} {f : Expr × List Token → Expr × List Token}
    (h : tighter ending layer x = o >>= fun y => tighter ending layer (f y)) :
    through ending layer x = o >>= fun y => through ending layer (f y) := by
  simp only [through_eq]
  rw [h, bind_assoc]

theorem through_cons {layer' : Layer} (hop : layer'.op? t.value = some op)
    (hle : layer.precedence ≤ layer'.precedence)
    (hend : ∀ x, (operand ending layer' rest).outcome = .ok x → layer' ≠ .mul →
      Settled ending (layer'.precedence + 1) x.2) :
    through ending layer (left, t :: rest) = (operand ending layer' rest).outcome >>=
      fun x => through ending layer (.binary t.location op left x.1, x.2) := by
  have hsame := through_cons_same left hop hend
  cases layer' with
  | mul =>
    have hadd := through_of_tighter .add hsame
    cases layer with
    | mul => exact hsame
    | add => exact hadd
    | shift => exact through_of_tighter .shift hadd
  | add =>
    cases layer with
    | mul => exact absurd hle (by decide)
    | add => exact hsame
    | shift => exact through_of_tighter .shift hsame
  | shift =>
    cases layer with
    | mul | add => exact absurd hle (by decide)
    | shift => exact hsame

end Layer

open Layer

variable {ending : Ending} {level : Nat} {left : Expr} {ts rest : List Token}
  {t : Token} {op : BinaryOp}

theorem outcome_attempt_binary : (attemptBinary ending level ts).outcome =
    (attemptAtom ending ts).outcome >>=
      fun x => (attemptOperators ending level x.1 x.2).outcome := by
  rw [attemptBinary]
  cases attemptAtom ending ts with
  | error s => rfl
  | ok p =>
    show _ = (attemptOperators ending level p.value p.rest).outcome
    dsimp only
    cases attemptOperators ending level p.value p.rest <;> rfl

theorem outcome_operators_nil : (attemptOperators ending level left []).outcome =
    (ending.look.mapError (Stop.mk · [])).map fun _ => (left, []) := by
  rw [attemptOperators]
  cases ending.look <;> rfl

theorem outcome_operators_settled (h : Settled ending level ts) :
    (attemptOperators ending level left ts).outcome = .ok (left, ts) := by
  cases ts with
  | nil =>
    rw [outcome_operators_nil, h.2 rfl]
    rfl
  | cons t rest =>
    rw [attemptOperators]
    cases hop : BinaryOp.ofSymbol? t.value with
    | none => rfl
    | some op =>
      dsimp only
      rw [if_neg (Nat.not_le.mpr (h.1 t rest op rfl hop))]
      rfl

theorem outcome_operators_cons (hop : BinaryOp.ofSymbol? t.value = some op)
    (hle : level ≤ op.precedence) :
    (attemptOperators ending level left (t :: rest)).outcome =
      (attemptBinary ending (op.precedence + 1) rest).outcome >>= fun x =>
        (attemptOperators ending level (.binary t.location op left x.1) x.2).outcome := by
  rw [attemptOperators, hop]
  dsimp only
  rw [if_pos hle]
  cases attemptBinary ending (op.precedence + 1) rest with
  | error s => rfl
  | ok p =>
    show _ = (attemptOperators ending level (.binary t.location op left p.value) p.rest).outcome
    dsimp only
    cases attemptOperators ending level (.binary t.location op left p.value) p.rest <;> rfl

theorem outcome_operators_four (f : Expr → Expr) :
    ((attemptOperators ending 4 left ts).outcome >>= fun x =>
      (attemptOperators ending level (f x.1) x.2).outcome) =
      (attemptOperators ending level (f left) ts).outcome := by
  cases ts with
  | nil =>
    rw [outcome_operators_nil]
    cases hl : ending.look with
    | error f' =>
      rw [outcome_operators_nil, hl]
      rfl
    | ok x => rfl
  | cons t rest =>
    rw [outcome_operators_settled (settled_cons fun op _ => op.precedence_lt)]
    rfl

theorem look_of_operators (ending : Ending) (level : Nat) (left e : Expr) (ts : List Token)
    (h : (readOperators ending level left ts).Gives e []) : ending.look = .ok () := by
  rcases read_operators_gives.mp h with
    ⟨_, hts, _, hlook⟩ | ⟨t, r₁, op, right, r₂, hts, _, _, hb, ho⟩
  · exact hlook hts.symm
  · have hfewer : r₂.length < ts.length := by
      rw [hts]
      exact Phrase.fewer_succ hb.1
    exact look_of_operators ending level _ e r₂ ho
termination_by ts.length

theorem settled_of_attempt {x : Expr × List Token}
    (h : (attemptBinary ending level ts).outcome = .ok x) : Settled ending level x.2 := by
  have hread : (readBinary ending level ts).Gives x.1 x.2 := by
    rw [← reading_attempt_binary]
    cases ha : attemptBinary ending level ts with
    | error s =>
      rw [ha] at h
      cases h
    | ok p =>
      rw [ha] at h
      cases h
      exact ⟨p.fewer, rfl⟩
  obtain ⟨_, _, _, hstops⟩ := (spelled_of_gives ending ts).2.2 level x.1 x.2 hread
  obtain ⟨a, r₁, _, ho⟩ := read_binary_gives.mp hread
  refine ⟨hstops, fun hnil => ?_⟩
  rw [hnil] at ho
  exact look_of_operators ending level a x.1 r₁ ho

theorem fewer_of_outcome {n : Nat} {α : Type} {a : Attempt n α} {x : α × List Token}
    (h : a.outcome = .ok x) : x.2.length < n := by
  cases a with
  | error s => cases h
  | ok p =>
    cases h
    exact p.fewer

/-- On the tokens, climbing and the layers come to the same: at an atom, at the operators behind an
operand, and at an expression of each layer. -/
structure Agree (ending : Ending) (ts : List Token) : Prop where
  atoms : (attemptAtom ending ts).outcome = (atom ending ts).outcome
  operators (layer : Layer) (left : Expr) :
    (attemptOperators ending layer.precedence left ts).outcome = through ending layer (left, ts)
  expressions (layer : Layer) :
    (attemptBinary ending layer.precedence ts).outcome = (expression ending layer ts).outcome

namespace Agree

theorem operand_eq (h : Agree ending ts) {layer : Layer} (hlayer : layer ≠ .mul) :
    (operand ending layer ts).outcome =
      (attemptBinary ending (layer.precedence + 1) ts).outcome := by
  cases layer with
  | mul => exact absurd rfl hlayer
  | add =>
    rw [operand]
    exact (h.expressions .mul).symm
  | shift =>
    rw [operand]
    exact (h.expressions .add).symm

theorem right_eq (h : Agree ending ts) {layer : Layer} {f : Expr → Expr} :
    ((attemptBinary ending (layer.precedence + 1) ts).outcome >>= fun x =>
      (attemptOperators ending level (f x.1) x.2).outcome) =
      (operand ending layer ts).outcome >>= fun x =>
        (attemptOperators ending level (f x.1) x.2).outcome := by
  by_cases hlayer : layer = .mul
  · subst hlayer
    rw [operand, outcome_attempt_binary, bind_assoc, h.atoms]
    apply bind_congr_ok
    intro x _
    exact outcome_operators_four f
  · rw [h.operand_eq hlayer]

variable (ih : ∀ ts' : List Token, ts'.length < ts.length → Agree ending ts')
include ih

theorem atoms_of_shorter : (attemptAtom ending ts).outcome = (atom ending ts).outcome := by
  rw [attemptAtom, atom]
  cases ending.attempt AtomStart.ofToken? .expectedAtom ts with
  | error s => rfl
  | ok p =>
    obtain ⟨start, r₁, h₁⟩ := p
    cases start with
    | leaf e => rfl
    | group =>
      have hgroup : attemptBinary ending 1 r₁ = expression ending .shift r₁ :=
        Attempt.outcome_injective ((ih r₁ h₁).expressions .shift)
      dsimp only
      generalize attemptBinary ending 1 r₁ = inner at hgroup ⊢
      subst hgroup
      rfl
    | unary location op =>
      have hinner : attemptAtom ending r₁ = atom ending r₁ :=
        Attempt.outcome_injective (ih r₁ h₁).atoms
      dsimp only
      generalize attemptAtom ending r₁ = inner at hinner ⊢
      subst hinner
      rfl

theorem operators_of_shorter (layer : Layer) (left : Expr) :
    (attemptOperators ending layer.precedence left ts).outcome =
      through ending layer (left, ts) := by
  by_cases hsettled : Settled ending layer.precedence ts
  · rw [outcome_operators_settled hsettled, through_settled layer hsettled]
  · cases ts with
    | nil => rw [outcome_operators_nil, through_nil]
    | cons t rest =>
      obtain ⟨op, hop, hle⟩ := exists_of_not_settled hsettled
      obtain ⟨layer', hp⟩ := exists_precedence op
      have hrest : Agree ending rest := ih rest (Nat.lt_succ_self _)
      have hend : ∀ x, (operand ending layer' rest).outcome = .ok x → layer' ≠ .mul →
          Settled ending (layer'.precedence + 1) x.2 := by
        intro x hx hlayer
        rw [hrest.operand_eq hlayer] at hx
        exact settled_of_attempt hx
      rw [outcome_operators_cons hop hle, hp, hrest.right_eq,
        through_cons (op?_eq_some.mpr ⟨hop, hp⟩) (hp ▸ hle) hend]
      apply bind_congr_ok
      intro x hx
      exact (ih x.2 (Nat.lt_succ_of_lt (fewer_of_outcome hx))).operators layer _

end Agree

theorem agree (ending : Ending) (ts : List Token) : Agree ending ts := by
  have ih : ∀ ts' : List Token, ts'.length < ts.length → Agree ending ts' :=
    fun ts' _ => agree ending ts'
  have hatom := Agree.atoms_of_shorter ih
  refine ⟨hatom, Agree.operators_of_shorter ih, fun layer => ?_⟩
  rw [outcome_attempt_binary, outcome_expression_through, hatom]
  apply bind_congr_ok
  intro x hx
  exact (ih x.2 (fewer_of_outcome hx)).operators layer x.1
termination_by ts.length

/-- Climbing along the operators reads expressions as the layers do, whatever the tokens are and
however they end. -/
theorem read_eq_layers (ending : Ending) (ts : List Token) :
    (attempt ending ts).reading = read ending ts ∧
      attempt ending ts = Layer.expression ending .shift ts :=
  ⟨reading_attempt_binary ending 1 ts,
    Attempt.outcome_injective ((agree ending ts).expressions .shift)⟩

end DataLayout.Expr
