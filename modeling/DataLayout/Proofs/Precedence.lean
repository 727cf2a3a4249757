import DataLayout.Proofs.Grammar
import DataLayout.Proofs.Phrases

/-!
# Reading expressions by precedence

The grammar says of an expression only that atoms and operators alternate. The reader climbs along
the operators: it makes of them an expression in which operators of higher precedence bind tighter
and those of one precedence group to the left, and it does so for every expression of the grammar.
-/

set_option autoImplicit false

namespace DataLayout

theorem BinaryOp.precedence_pos (op : BinaryOp) : 0 < op.precedence := by
  cases op <;> decide

theorem BinaryOp.precedence_lt (op : BinaryOp) : op.precedence < 4 := by
  cases op <;> decide

namespace Grammar

theorem operator_iff {t : Token} : Operator t ↔ ∃ op, BinaryOp.ofSymbol? t.value = some op := by
  obtain ⟨loc, s⟩ := t
  cases s with
  | mark m => cases m <;> simp [Operator, BinaryOp.ofSymbol?]
  | integer | identifier | quoted | primitive | keyword | eof => simp [Operator, BinaryOp.ofSymbol?]

theorem Atom.expression {ts : List Token} (h : Atom ts) : Expression ts := by
  have he := Expression.mk h .nil
  rwa [List.append_nil] at he

theorem Operations.append {ts ts' : List Token} (h : Operations ts) (h' : Operations ts') :
    Operations (ts ++ ts') :=
  match h with
  | .nil => h'
  | .cons ht he ho => by
    rw [List.cons_append, List.append_assoc]
    exact .cons ht he (ho.append h')

theorem Expression.join {t : Token} {ts ts' : List Token} (h : Expression ts) (ht : Operator t)
    (h' : Expression ts') : Expression (ts ++ t :: ts') := by
  cases h with
  | @mk ts ops ha ho =>
    have hlast := Operations.cons ht h' .nil
    rw [List.append_nil] at hlast
    rw [List.append_assoc]
    exact .mk ha (ho.append hlast)

end Grammar

namespace Expr
open Grammar

/-- The tokens spell the expression. Its operators outside parentheses have at least the given
precedence; to the right of an operator they bind tighter. -/
inductive Spelled : Nat → List Token → Expr → Prop
  | literal {level : Nat} {loc : Location} {v : Int64} :
      Spelled level [⟨loc, .integer v⟩] (.literal loc v)
  | name {level : Nat} {loc : Location} {x : String} :
      Spelled level [⟨loc, .identifier x⟩] (.constant loc x)
  | group {level : Nat} {loc loc' : Location} {ts : List Token} {e : Expr} (h : Spelled 1 ts e) :
      Spelled level (⟨loc, .mark .lparen⟩ :: (ts ++ [⟨loc', .mark .rparen⟩])) e
  | complement {level : Nat} {loc : Location} {ts : List Token} {e : Expr} (h : Spelled 4 ts e) :
      Spelled level (⟨loc, .mark .tilde⟩ :: ts) (.unary loc .complement e)
  | negate {level : Nat} {loc : Location} {ts : List Token} {e : Expr} (h : Spelled 4 ts e) :
      Spelled level (⟨loc, .mark .minus⟩ :: ts) (.unary loc .negate e)
  | binary {level : Nat} {t : Token} {op : BinaryOp} {ts ts' : List Token} {l r : Expr}
      (ht : BinaryOp.ofSymbol? t.value = some op) (hlevel : level ≤ op.precedence)
      (hl : Spelled op.precedence ts l) (hr : Spelled (op.precedence + 1) ts' r) :
      Spelled level (ts ++ t :: ts') (.binary t.location op l r)

theorem Spelled.mono {level level' : Nat} {ts : List Token} {e : Expr} (h : Spelled level ts e)
    (hle : level' ≤ level) : Spelled level' ts e := by
  cases h with
  | literal => exact .literal
  | name => exact .name
  | group h => exact .group h
  | complement h => exact .complement h
  | negate h => exact .negate h
  | binary ht hlevel hl hr => exact .binary ht (Nat.le_trans hle hlevel) hl hr

theorem Spelled.derives {level : Nat} {ts : List Token} {e : Expr} (h : Spelled level ts e) :
    Expression ts ∧ (4 ≤ level → Atom ts) := by
  have of_atom : ∀ {level : Nat} {ts : List Token}, Atom ts →
      Expression ts ∧ (4 ≤ level → Atom ts) := fun h => ⟨h.expression, fun _ => h⟩
  induction h with
  | literal => exact of_atom .integer
  | name => exact of_atom .name
  | group _ ih => exact of_atom (.group ih.1)
  | complement _ ih => exact of_atom (.complement (ih.2 (Nat.le_refl 4)))
  | negate _ ih => exact of_atom (.negate (ih.2 (Nat.le_refl 4)))
  | @binary level t op ts ts' l r ht hlevel _ _ ihl ihr =>
    refine ⟨ihl.1.join (operator_iff.mpr ⟨op, ht⟩) ihr.1, fun h => ?_⟩
    have hlt := op.precedence_lt
    omega

variable {ending : Ending} {level : Nat} {left e : Expr} {ts rest : List Token}

theorem read_atom_gives : (readAtom ending ts).Gives e rest ↔
    (∃ t, ts = t :: rest ∧ AtomStart.ofToken? t = some (.leaf e)) ∨
    (∃ t r₁ loc, ts = t :: r₁ ∧ AtomStart.ofToken? t = some .group ∧
      (readBinary ending 1 r₁).Gives e (⟨loc, .mark .rparen⟩ :: rest)) ∨
    ∃ t r₁ loc op a, ts = t :: r₁ ∧ AtomStart.ofToken? t = some (.unary loc op) ∧
      (readAtom ending r₁).Gives a rest ∧ e = .unary loc op a := by
  constructor
  · intro h
    rw [readAtom] at h
    split at h
    · simp at h
    · next e' r₁ h₁ ht =>
      obtain ⟨t, hts, ha⟩ := Ending.take_gives.mp ⟨h₁, ht⟩
      obtain ⟨rfl, rfl⟩ := Reading.gives_ok.mp h
      exact .inl ⟨t, hts, ha⟩
    · next r₁ h₁ ht =>
      obtain ⟨t, hts, ha⟩ := Ending.take_gives.mp ⟨h₁, ht⟩
      split at h
      · simp at h
      · next a r₂ h₂ hb =>
        split at h
        · simp at h
        · next close r₃ h₃ hc =>
          obtain ⟨loc, rfl, rfl⟩ := Ending.expect_mark_gives.mp ⟨h₃, hc⟩
          obtain ⟨rfl, rfl⟩ := Reading.gives_ok.mp h
          exact .inr (.inl ⟨t, r₁, loc, hts, ha, h₂, hb⟩)
    · next loc op r₁ h₁ ht =>
      obtain ⟨t, hts, ha⟩ := Ending.take_gives.mp ⟨h₁, ht⟩
      split at h
      · simp at h
      · next a r₂ h₂ hb =>
        obtain ⟨rfl, rfl⟩ := Reading.gives_ok.mp h
        exact .inr (.inr ⟨t, r₁, loc, op, a, hts, ha, ⟨h₂, hb⟩, rfl⟩)
  · rintro (⟨t, rfl, ha⟩ | ⟨t, r₁, loc, rfl, ha, h₂, hb⟩ |
      ⟨t, r₁, loc, op, a, rfl, ha, ⟨h₂, hb⟩, rfl⟩)
    · rw [readAtom, Ending.take, ha]
      simp [Phrase.one]
    · rw [readAtom, Ending.take, ha]
      simp only [Phrase.one, hb, Ending.expect_mark_cons]
      simp
    · rw [readAtom, Ending.take, ha]
      simp only [Phrase.one, hb]
      simp

theorem read_binary_gives : (readBinary ending level ts).Gives e rest ↔
    ∃ a r₁, (readAtom ending ts).Gives a r₁ ∧ (readOperators ending level a r₁).Gives e rest := by
  constructor
  · intro h
    rw [readBinary] at h
    split at h
    · simp at h
    · next a r₁ h₁ ha =>
      split at h
      · simp at h
      · next e' r₂ h₂ ho =>
        obtain ⟨rfl, rfl⟩ := Reading.gives_ok.mp h
        exact ⟨a, r₁, ⟨h₁, ha⟩, h₂, ho⟩
  · rintro ⟨a, r₁, ⟨h₁, ha⟩, h₂, ho⟩
    rw [readBinary, ha]
    simp only [ho]
    simp

def Stops (level : Nat) (ts : List Token) : Prop :=
  ∀ t rest op, ts = t :: rest → BinaryOp.ofSymbol? t.value = some op → op.precedence < level

theorem read_operators_gives : (readOperators ending level left ts).Gives e rest ↔
    (e = left ∧ rest = ts ∧ Stops level ts ∧ (ts = [] → ending.look = .ok ())) ∨
    ∃ t r₁ op right r₂, ts = t :: r₁ ∧ BinaryOp.ofSymbol? t.value = some op ∧
      level ≤ op.precedence ∧ (readBinary ending (op.precedence + 1) r₁).Gives right r₂ ∧
      (readOperators ending level (.binary t.location op left right) r₂).Gives e rest := by
  cases ts with
  | nil =>
    rw [readOperators]
    cases ending.look with
    | error f => simp
    | ok x => simp [Stops, Phrase.none]
  | cons t r₁ =>
    constructor
    · intro h
      rw [readOperators] at h
      split at h
      · next ht =>
        obtain ⟨rfl, rfl⟩ := Reading.gives_ok.mp h
        refine .inl ⟨rfl, rfl, ?_, by simp⟩
        rintro t' rest' op ⟨⟩ hop
        rw [ht] at hop
        cases hop
      · next op ht =>
        split at h
        · next hlevel =>
          split at h
          · simp at h
          · next right r₂ h₂ hb =>
            split at h
            · simp at h
            · next e' r₃ h₃ ho =>
              obtain ⟨rfl, rfl⟩ := Reading.gives_ok.mp h
              exact .inr ⟨t, r₁, op, right, r₂, rfl, ht, hlevel, ⟨h₂, hb⟩, h₃, ho⟩
        · next hlevel =>
          obtain ⟨rfl, rfl⟩ := Reading.gives_ok.mp h
          refine .inl ⟨rfl, rfl, ?_, by simp⟩
          rintro t' rest' op' ⟨⟩ hop
          cases ht.symm.trans hop
          omega
    · rintro (⟨rfl, rfl, hstop, -⟩ | ⟨t', r, op, right, r₂, ⟨⟩, ht, hlevel, ⟨h₂, hb⟩, h₃, ho⟩)
      · rw [readOperators]
        cases ht : BinaryOp.ofSymbol? t.value with
        | none => simp [Phrase.none]
        | some op =>
          have hlt := hstop t r₁ op rfl ht
          simp only [if_neg (Nat.not_le.mpr hlt)]
          simp [Phrase.none]
      · rw [readOperators, ht]
        simp only [if_pos hlevel, hb, ho]
        simp

theorem spelled_of_leaf {t : Token} (h : AtomStart.ofToken? t = some (.leaf e)) (level : Nat) :
    Spelled level [t] e := by
  obtain ⟨loc, s⟩ := t
  cases s with
  | integer v =>
    cases h
    exact .literal
  | identifier x =>
    cases h
    exact .name
  | mark m => cases m <;> cases h
  | quoted | primitive | keyword | eof => cases h

theorem eq_of_group {t : Token} (h : AtomStart.ofToken? t = some .group) :
    ∃ loc, t = ⟨loc, .mark .lparen⟩ := by
  obtain ⟨loc, s⟩ := t
  cases s with
  | mark m =>
    cases m <;> cases h
    exact ⟨loc, rfl⟩
  | integer | identifier | quoted | primitive | keyword | eof => cases h

theorem spelled_of_unary {t : Token} {loc : Location} {op : UnaryOp}
    (h : AtomStart.ofToken? t = some (.unary loc op)) (he : Spelled 4 ts e) :
    Spelled level (t :: ts) (.unary loc op e) := by
  obtain ⟨loc', s⟩ := t
  cases s with
  | mark m =>
    cases m <;> cases h
    · exact .negate he
    · exact .complement he
  | integer | identifier | quoted | primitive | keyword | eof => cases h

theorem Stops.of_one (h : Stops 1 ts) (level : Nat) : Stops level ts := by
  intro t rest op hts hop
  have hlt := h t rest op hts hop
  have hpos := op.precedence_pos
  omega

theorem spelled_of_gives (ending : Ending) (ts : List Token) :
    (∀ e rest, (readAtom ending ts).Gives e rest →
      ∃ pre, ts = pre ++ rest ∧ ∀ level, Spelled level pre e) ∧
    (∀ level left e rest, (readOperators ending level left ts).Gives e rest →
      ∀ before l, Spelled l before left → level ≤ l → Stops (l + 1) ts →
        ∃ pre, ts = pre ++ rest ∧ Spelled level (before ++ pre) e ∧ Stops level rest) ∧
    ∀ level e rest, (readBinary ending level ts).Gives e rest →
      ∃ pre, ts = pre ++ rest ∧ Spelled level pre e ∧ Stops level rest := by
  have ih : ∀ ts' : List Token, ts'.length < ts.length → _ :=
    fun ts' _ => spelled_of_gives ending ts'
  have hatom : ∀ e rest, (readAtom ending ts).Gives e rest →
      ∃ pre, ts = pre ++ rest ∧ ∀ level, Spelled level pre e := by
    intro e rest h
    rcases read_atom_gives.mp h with ⟨t, rfl, ht⟩ | ⟨t, r₁, loc, rfl, ht, hb⟩ |
      ⟨t, r₁, loc, op, a, rfl, ht, ha, rfl⟩
    · exact ⟨[t], rfl, spelled_of_leaf ht⟩
    · obtain ⟨pre, rfl, hpre, _⟩ := (ih r₁ (Nat.lt_succ_self _)).2.2 1 e _ hb
      obtain ⟨loc', rfl⟩ := eq_of_group ht
      refine ⟨⟨loc', .mark .lparen⟩ :: (pre ++ [⟨loc, .mark .rparen⟩]), ?_, fun _ => .group hpre⟩
      rw [List.cons_append, List.append_assoc, List.singleton_append]
    · obtain ⟨pre, rfl, hpre⟩ := (ih r₁ (Nat.lt_succ_self _)).1 a rest ha
      exact ⟨t :: pre, rfl, fun _ => spelled_of_unary ht (hpre 4)⟩
  refine ⟨hatom, ?_, ?_⟩
  · intro level left e rest h before l hleft hl hstop
    rcases read_operators_gives.mp h with ⟨rfl, rfl, hs, _⟩ |
      ⟨t, r₁, op, right, r₂, rfl, ht, hlevel, hb, ho⟩
    · exact ⟨[], rfl, by rw [List.append_nil]; exact hleft.mono hl, hs⟩
    · -- the operand to the left has been read up to an operator that binds no tighter
      have hle : op.precedence ≤ l := Nat.le_of_lt_succ (hstop t r₁ op rfl ht)
      have hlt : r₁.length < (t :: r₁).length := Nat.lt_succ_self _
      obtain ⟨pre, hr₁, hpre, hs⟩ := (ih r₁ hlt).2.2 _ right r₂ hb
      have hleft' := Spelled.binary ht (Nat.le_refl _) (hleft.mono hle) hpre
      obtain ⟨pre', hr₂, hpre', hs'⟩ := (ih r₂ (Nat.lt_trans hb.1 hlt)).2.1 level _ e rest ho
        _ _ hleft' hlevel hs
      refine ⟨t :: (pre ++ pre'), ?_, ?_, hs'⟩
      · rw [hr₁, hr₂, List.cons_append, List.append_assoc]
      · rwa [List.append_assoc, List.cons_append] at hpre'
  · intro level e rest h
    obtain ⟨a, r₁, ha, ho⟩ := read_binary_gives.mp h
    obtain ⟨pre, hts, hpre⟩ := hatom a r₁ ha
    have hstop : Stops (level + 3 + 1) r₁ := by
      intro t rest op _ _
      have hlt := op.precedence_lt
      omega
    obtain ⟨pre', hr₁, hpre', hs⟩ := (ih r₁ ha.1).2.1 level a e rest ho pre (level + 3)
      (hpre _) (Nat.le_add_right _ _) hstop
    exact ⟨pre ++ pre', by rw [hts, hr₁, List.append_assoc], hpre', hs⟩
termination_by ts.length

def ReadsAsAtom (ending : Ending) (ts : List Token) : Prop :=
  ∀ rest, ∃ e, (readAtom ending (ts ++ rest)).Gives e rest

inductive Chain (ending : Ending) : List Token → Prop
  | nil : Chain ending []
  | cons {t : Token} {ts ts' : List Token} (ht : Operator t) (ha : ReadsAsAtom ending ts)
      (h : Chain ending ts') : Chain ending (t :: (ts ++ ts'))

theorem Chain.append {ts ts' : List Token} (h : Chain ending ts) (h' : Chain ending ts') :
    Chain ending (ts ++ ts') := by
  induction h with
  | nil => exact h'
  | cons ht ha _ ih =>
    rw [List.cons_append, List.append_assoc]
    exact .cons ht ha ih

theorem Chain.climb (h : Chain ending ts) (hstop : Stops 1 rest)
    (hlook : rest = [] → ending.look = .ok ()) (level : Nat) (left : Expr) :
    ∃ e ts', Chain ending ts' ∧ ts'.length ≤ ts.length ∧
      (readOperators ending level left (ts ++ rest)).Gives e (ts' ++ rest) := by
  induction hn : ts.length using Nat.strongRecOn generalizing ts level left with
  | _ n ih =>
  subst hn
  cases h with
  | nil =>
    exact ⟨left, [], .nil, Nat.le_refl _,
      read_operators_gives.mpr (.inl ⟨rfl, rfl, hstop.of_one level, hlook⟩)⟩
  | @cons t as ts ht ha h =>
    obtain ⟨op, hop⟩ := operator_iff.mp ht
    have hshorter : ts.length < (t :: (as ++ ts)).length := by
      simp only [List.length_cons, List.length_append]
      omega
    by_cases hlevel : level ≤ op.precedence
    · obtain ⟨a, hatom⟩ := ha (ts ++ rest)
      obtain ⟨right, ts₁, hc₁, hl₁, hr₁⟩ := ih _ hshorter h (op.precedence + 1) a rfl
      obtain ⟨e, ts₂, hc₂, hl₂, hr₂⟩ := ih _ (Nat.lt_of_le_of_lt hl₁ hshorter) hc₁ level
        (.binary t.location op left right) rfl
      refine ⟨e, ts₂, hc₂, by omega, ?_⟩
      rw [List.cons_append, List.append_assoc]
      exact read_operators_gives.mpr (.inr ⟨t, _, op, right, _, rfl, hop, hlevel,
        read_binary_gives.mpr ⟨a, _, hatom, hr₁⟩, hr₂⟩)
    · refine ⟨left, t :: (as ++ ts), .cons ht ha h, Nat.le_refl _,
        read_operators_gives.mpr (.inl ⟨rfl, rfl, ?_, by simp⟩)⟩
      rintro t' rest' op' ⟨⟩ hop'
      cases hop.symm.trans hop'
      omega

theorem Chain.read {as : List Token} (ha : ReadsAsAtom ending as) (h : Chain ending ts)
    (hstop : Stops 1 rest) (hlook : rest = [] → ending.look = .ok ()) :
    ∃ e, (readBinary ending 1 (as ++ ts ++ rest)).Gives e rest := by
  rw [List.append_assoc]
  obtain ⟨a, hatom⟩ := ha (ts ++ rest)
  obtain ⟨e, ts', hc, _, hr⟩ := h.climb hstop hlook 1 a
  have hread := read_binary_gives.mpr ⟨a, _, hatom, hr⟩
  obtain ⟨_, _, _, hs⟩ := (spelled_of_gives ending _).2.2 1 e _ hread
  -- at the lowest level nothing of the chain is left
  cases hc with
  | nil => exact ⟨e, hread⟩
  | cons ht _ _ =>
    obtain ⟨op, hop⟩ := operator_iff.mp ht
    have hlt := hs _ _ op rfl hop
    have hpos := op.precedence_pos
    omega

theorem stops_mark {m : Mark} (hm : BinaryOp.ofSymbol? (.mark m) = none) {loc : Location} :
    Stops level (⟨loc, .mark m⟩ :: rest) := by
  rintro t rest' op ⟨⟩ hop
  rw [hm] at hop
  cases hop

mutual

theorem reads_as_atom_of_atom (ending : Ending) {ts : List Token} (h : Atom ts) :
    ReadsAsAtom ending ts :=
  match h with
  | .integer => fun rest => ⟨_, read_atom_gives.mpr (.inl ⟨_, rfl, rfl⟩)⟩
  | .name => fun rest => ⟨_, read_atom_gives.mpr (.inl ⟨_, rfl, rfl⟩)⟩
  | @Atom.group _ loc' _ he => fun rest => by
    obtain ⟨as, ts, rfl, ha, hc⟩ := chain_of_expression ending he
    have hstop : Stops 1 (⟨loc', .mark .rparen⟩ :: rest) := stops_mark rfl
    obtain ⟨e, hread⟩ := hc.read ha hstop (by simp)
    rw [List.cons_append, List.append_assoc (as ++ ts), List.singleton_append]
    exact ⟨e, read_atom_gives.mpr (.inr (.inl ⟨_, _, loc', rfl, rfl, hread⟩))⟩
  | .complement ha => fun rest => by
    obtain ⟨e, hread⟩ := reads_as_atom_of_atom ending ha rest
    exact ⟨_, read_atom_gives.mpr (.inr (.inr ⟨_, _, _, _, e, rfl, rfl, hread, rfl⟩))⟩
  | .negate ha => fun rest => by
    obtain ⟨e, hread⟩ := reads_as_atom_of_atom ending ha rest
    exact ⟨_, read_atom_gives.mpr (.inr (.inr ⟨_, _, _, _, e, rfl, rfl, hread, rfl⟩))⟩

theorem chain_of_expression (ending : Ending) {ts : List Token} (h : Expression ts) :
    ∃ as ts', ts = as ++ ts' ∧ ReadsAsAtom ending as ∧ Chain ending ts' :=
  match h with
  | .mk ha ho => ⟨_, _, rfl, reads_as_atom_of_atom ending ha, chain_of_operations ending ho⟩

theorem chain_of_operations (ending : Ending) {ts : List Token} (h : Operations ts) :
    Chain ending ts :=
  match h with
  | .nil => .nil
  | .cons ht he ho => by
    obtain ⟨as, ts', rfl, ha, hc⟩ := chain_of_expression ending he
    rw [List.append_assoc]
    exact .cons ht ha (hc.append (chain_of_operations ending ho))

end

theorem read_of_expression (h : Expression ts) (hstop : Stops 1 rest)
    (hlook : rest = [] → ending.look = .ok ()) :
    ∃ e, (read ending (ts ++ rest)).Gives e rest ∧ Spelled 1 ts e := by
  obtain ⟨as, ts', rfl, ha, hc⟩ := chain_of_expression ending h
  obtain ⟨e, hread⟩ := hc.read ha hstop hlook
  obtain ⟨pre, hpre, hspelled, _⟩ := (spelled_of_gives ending _).2.2 1 e rest hread
  cases List.append_cancel_right hpre
  exact ⟨e, hread, hspelled⟩

end Expr

end DataLayout
