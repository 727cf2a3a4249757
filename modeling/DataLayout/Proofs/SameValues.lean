import DataLayout.Proofs.Progress
import DataLayout.Resolution.Constants
import Mathlib.Data.List.Forall2

/-!
# Values that do not depend on locations

Where an expression is written decides only where its failure is reported. Two expressions have the
same values if they come to the same value, or to the same error somewhere, whenever the names in
them do. Constants may then be defined by one or by the other.
-/

set_option autoImplicit false

namespace DataLayout

def SameOutcome {ε α : Type} (r r' : Except (Located ε) α) : Prop :=
  r.mapError Located.value = r'.mapError Located.value

namespace SameOutcome

variable {ε α β : Type} {r r' : Except (Located ε) α}

theorem refl (r : Except (Located ε) α) : SameOutcome r r :=
  rfl

theorem error (loc loc' : Location) (e : ε) :
    SameOutcome (.error ⟨loc, e⟩ : Except (Located ε) α) (.error ⟨loc', e⟩) :=
  rfl

theorem cases (h : SameOutcome r r') :
    (∃ e loc loc', r = .error ⟨loc, e⟩ ∧ r' = .error ⟨loc', e⟩) ∨ ∃ a, r = .ok a ∧ r' = .ok a := by
  cases r with
  | error f =>
    cases r' with
    | error f' =>
      have hf : f.value = f'.value := Except.error.inj h
      exact .inl ⟨f.value, f.location, f'.location, rfl, by rw [hf]⟩
    | ok a => cases h
  | ok a =>
    cases r' with
    | error f' => cases h
    | ok b =>
      cases h
      exact .inr ⟨a, rfl, rfl⟩

end SameOutcome

namespace Expr

def placed (loc : Location) : Expr → Expr
  | .literal _ v => .literal loc v
  | .constant _ x => .constant loc x
  | .unary _ op e => .unary loc op (e.placed loc)
  | .binary _ op l r => .binary loc op (l.placed loc) (r.placed loc)

/-- If names have the same outcomes wherever they are met, the expressions have the same
outcome. -/
def SameValue (e e' : Expr) : Prop :=
  ∀ name name' : Location → String → Except ResolveFailure Int64,
    (∀ loc loc' x, SameOutcome (name loc x) (name' loc' x)) →
      SameOutcome (e.value (Located.map .arithmetic) name)
        (e'.value (Located.map .arithmetic) name')

namespace SameValue

theorem unary {e e' : Expr} (h : SameValue e e') (loc loc' : Location) (op : UnaryOp) :
    SameValue (.unary loc op e) (.unary loc' op e') := by
  intro name name' hname
  rw [value, value]
  rcases (h name name' hname).cases with ⟨f, l, l', he, he'⟩ | ⟨v, he, he'⟩
  · rw [he, he']
    exact .error l l' f
  · rw [he, he']
    exact .refl _

theorem binary {a a' b b' : Expr} (ha : SameValue a a') (hb : SameValue b b')
    (loc loc' : Location) (op : BinaryOp) :
    SameValue (.binary loc op a b) (.binary loc' op a' b') := by
  intro name name' hname
  rw [value, value]
  rcases (ha name name' hname).cases with ⟨f, l, l', he, he'⟩ | ⟨v, he, he'⟩
  · rw [he, he']
    exact .error l l' f
  · rcases (hb name name' hname).cases with ⟨f, l, l', hf, hf'⟩ | ⟨w, hf, hf'⟩
    · rw [he, he', hf, hf']
      exact .error l l' f
    · rw [he, he', hf, hf']
      dsimp only
      cases op.apply v w with
      | error f => exact .error loc loc' _
      | ok z => exact .refl _

end SameValue

theorem same_value_of_placed (loc : Location) {e e' : Expr} (h : e.placed loc = e'.placed loc) :
    SameValue e e' := by
  induction e generalizing e' with
  | literal =>
    cases e' <;> cases h
    exact fun name name' hname => .refl _
  | constant =>
    cases e' <;> cases h
    exact fun name name' hname => hname _ _ _
  | unary l op a ih =>
    cases e' with
    | unary l' op' a' =>
      injection h with _ hop ha
      subst hop
      exact (ih ha).unary l l' op
    | literal | constant | binary => cases h
  | binary l op a b iha ihb =>
    cases e' with
    | binary l' op' a' b' =>
      injection h with _ hop ha hb
      subst hop
      exact (iha ha).binary (ihb hb) l l' op
    | literal | constant | unary => cases h

end Expr

namespace Constant

/-- A constant of the same name, defined by an expression with the same values. -/
structure Restated (c c' : Constant) : Prop where
  name : c'.name = c.name
  expr : c.expr.SameValue c'.expr

theorem restated_refl (cs : List Constant) : List.Forall₂ Restated cs cs :=
  List.forall₂_same.mpr fun c _ => ⟨rfl, Expr.same_value_of_placed c.location rfl⟩

variable {cs cs' : List Constant}

theorem find?_restated (h : List.Forall₂ Restated cs cs') (x : String) (k : Nat) :
    ((cs.zipIdx k).find? (·.1.name == x) = none ∧ (cs'.zipIdx k).find? (·.1.name == x) = none) ∨
    ∃ c c' i, (cs.zipIdx k).find? (·.1.name == x) = some (c, i) ∧
      (cs'.zipIdx k).find? (·.1.name == x) = some (c', i) ∧ Restated c c' := by
  induction h generalizing k with
  | nil => exact .inl ⟨rfl, rfl⟩
  | @cons c c' cs cs' hc _ ih =>
    rw [List.zipIdx_cons, List.zipIdx_cons, List.find?_cons, List.find?_cons, hc.name]
    cases c.name == x with
    | true => exact .inr ⟨c, c', k, rfl, rfl, hc⟩
    | false => exact ih (k + 1)

theorem index_restated (h : List.Forall₂ Restated cs cs') (x : String) :
    ((index cs)[x]? = none ∧ (index cs')[x]? = none) ∨
    ∃ i c c', (index cs)[x]? = some (i, c) ∧ (index cs')[x]? = some (i, c') ∧ Restated c c' := by
  rw [index_get_elem?, index_get_elem?]
  rcases find?_restated h x 0 with ⟨hn, hn'⟩ | ⟨c, c', i, hs, hs', hc⟩
  · rw [hn, hn']
    exact .inl ⟨rfl, rfl⟩
  · rw [hs, hs']
    exact .inr ⟨i, c, c', rfl, rfl, hc⟩

theorem value_of_restated (h : List.Forall₂ Restated cs cs') (depth : Nat) (underway : List Nat)
    (loc loc' : Location) (x : String) :
    SameOutcome (valueOf (index cs) depth underway loc x)
      (valueOf (index cs') depth underway loc' x) := by
  induction depth generalizing underway loc loc' x with
  | zero =>
    rw [valueOf, valueOf]
    rcases index_restated h x with ⟨hn, hn'⟩ | ⟨i, c, c', hs, hs', hc⟩
    · rw [hn, hn']
      exact .error loc loc' _
    · rw [hs, hs']
      dsimp only
      split <;> exact .error loc loc' _
  | succ depth ih =>
    rw [valueOf, valueOf]
    rcases index_restated h x with ⟨hn, hn'⟩ | ⟨i, c, c', hs, hs', hc⟩
    · rw [hn, hn']
      exact .error loc loc' _
    · rw [hs, hs']
      dsimp only
      split
      · exact .error loc loc' _
      · exact hc.expr _ _ (ih (i :: underway))

theorem values_from_restated (h : List.Forall₂ Restated cs cs') {ds ds' : List Constant}
    (hds : List.Forall₂ Restated ds ds') (depth i : Nat) :
    SameOutcome (valuesFrom (index cs) depth i ds) (valuesFrom (index cs') depth i ds') := by
  induction hds generalizing i with
  | nil => exact .refl _
  | cons hc _ ih =>
    rw [valuesFrom, valuesFrom]
    have hfirst := hc.expr _ _ (value_of_restated h depth [i])
    rcases hfirst.cases with ⟨f, l, l', hv, hv'⟩ | ⟨v, hv, hv'⟩
    · rw [hv, hv']
      exact .error l l' f
    · rcases (ih (i + 1)).cases with ⟨f, l, l', hvs, hvs'⟩ | ⟨vs, hvs, hvs'⟩
      · rw [hv, hv', hvs, hvs']
        exact .error l l' f
      · rw [hv, hv', hvs, hvs']
        exact .refl _

theorem first_repeat?_restated (h : List.Forall₂ Restated cs cs') (seen : List String) :
    (firstRepeat? Constant.name cs seen = none ∧ firstRepeat? Constant.name cs' seen = none) ∨
    ∃ c c', firstRepeat? Constant.name cs seen = some c ∧
      firstRepeat? Constant.name cs' seen = some c' ∧ Restated c c' := by
  induction h generalizing seen with
  | nil => exact .inl ⟨rfl, rfl⟩
  | @cons c c' cs cs' hc _ ih =>
    rw [firstRepeat?, firstRepeat?, hc.name]
    split
    · exact .inr ⟨c, c', rfl, rfl, hc⟩
    · exact ih _

theorem values_restated (h : List.Forall₂ Restated cs cs') :
    SameOutcome (values cs) (values cs') := by
  rw [values, values]
  rcases first_repeat?_restated h [] with ⟨hn, hn'⟩ | ⟨c, c', hs, hs', hc⟩
  · rw [hn, hn', h.length_eq]
    exact values_from_restated h h cs'.length 0
  · rw [hs, hs']
    dsimp only
    rw [hc.name]
    exact .error c.location c'.location _

end Constant

end DataLayout
