import DataLayout.Declaration
import DataLayout.Proofs.Arithmetic
import DataLayout.Proofs.Dependency

/-!
# The meaning of constants

A set of constants has a meaning when each name is defined once, each name that is used is
defined, no constant depends on itself and every operation is defined on its operands. Then
the definitions are satisfied by one assignment of values to the names, and only by that one.
-/

set_option autoImplicit false

namespace DataLayout
open Relation

namespace Expr

def names : Expr → List String
  | .literal _ _ => []
  | .constant _ x => [x]
  | .unary _ _ e => e.names
  | .binary _ _ l r => l.names ++ r.names

/-- The value of an expression, given the values of names, if every operation in it is defined. -/
def meaning (values : String → Int) : Expr → Option Int
  | .literal _ v => some v.toInt
  | .constant _ x => some (values x)
  | .unary _ op e => (e.meaning values).map op.meaning
  | .binary _ op l r =>
    (l.meaning values).bind fun a => (r.meaning values).bind fun b =>
      if op.Defined a b then some (op.meaning a b) else none

end Expr

namespace Constant

def UsedBy (constants : List Constant) (x y : String) : Prop :=
  ∃ c ∈ constants, c.name = y ∧ x ∈ c.expr.names

def Satisfied (constants : List Constant) (values : String → Int) : Prop :=
  ∀ c ∈ constants, c.expr.meaning values = some (values c.name)

/-- An expression has a value when the names in it stand for their definitions. -/
inductive Evaluates (constants : List Constant) : Expr → Int → Prop
  | literal (loc : Location) (v : Int64) : Evaluates constants (.literal loc v) v.toInt
  | constant (loc : Location) {c : Constant} {v : Int} (hc : c ∈ constants)
      (hv : Evaluates constants c.expr v) : Evaluates constants (.constant loc c.name) v
  | unary (loc : Location) (op : UnaryOp) {e : Expr} {v : Int} (he : Evaluates constants e v) :
      Evaluates constants (.unary loc op e) (op.meaning v)
  | binary (loc : Location) (op : BinaryOp) {l r : Expr} {a b : Int}
      (hl : Evaluates constants l a) (hr : Evaluates constants r b) (hd : op.Defined a b) :
      Evaluates constants (.binary loc op l r) (op.meaning a b)

structure Meaningful (constants : List Constant) : Prop where
  distinct : (constants.map Constant.name).Nodup
  defined : ∀ c ∈ constants, ∀ x ∈ c.expr.names, x ∈ constants.map Constant.name
  acyclic : Dependency.Acyclic (UsedBy constants)
  legal : ∀ c ∈ constants, ∀ loc op l r, Expr.binary loc op l r ∈ c.expr.nodes →
    ∀ a b, Evaluates constants l a → Evaluates constants r b → op.Defined a b

theorem eq_of_name {constants : List Constant} (hd : (constants.map Constant.name).Nodup)
    {c c' : Constant} (hc : c ∈ constants) (hc' : c' ∈ constants) (h : c.name = c'.name) :
    c = c' :=
  List.inj_on_of_nodup_map hd hc hc' h

section Meaning

variable {constants : List Constant}

theorem evaluates_unique (hd : (constants.map Constant.name).Nodup) {e : Expr} {v w : Int}
    (hv : Evaluates constants e v) (hw : Evaluates constants e w) : v = w := by
  induction hv generalizing w with
  | literal loc v =>
    cases hw
    rfl
  | @constant loc c v hc _ ih =>
    generalize hx : Expr.constant loc c.name = e at hw
    cases hw with
    | @constant _ c' _ hc' hv' =>
      injection hx with _ hn
      rw [eq_of_name hd hc hc' hn] at ih
      exact ih hv'
    | literal | unary | binary => cases hx
  | unary loc op _ ih =>
    cases hw with
    | unary _ _ he => rw [ih he]
  | binary loc op _ _ _ ihl ihr =>
    cases hw with
    | binary _ _ hl hr _ => rw [ihl hl, ihr hr]

theorem meaning_of_evaluates {values : String → Int}
    (hs : ∀ c ∈ constants, ∀ v, Evaluates constants c.expr v →
      c.expr.meaning values = some v → values c.name = v)
    {e : Expr} {v : Int} (hv : Evaluates constants e v) : e.meaning values = some v := by
  induction hv with
  | literal loc v => rfl
  | constant loc hc hv ih => rw [Expr.meaning, hs _ hc _ hv ih]
  | unary loc op _ ih => rw [Expr.meaning, ih, Option.map_some]
  | binary loc op _ _ hd ihl ihr =>
    rw [Expr.meaning, ihl, ihr, Option.bind_some, Option.bind_some, if_pos hd]

theorem value_of_satisfied {values : String → Int} (hs : Satisfied constants values)
    {c : Constant} (hc : c ∈ constants) {v : Int} (hv : Evaluates constants c.expr v) :
    values c.name = v := by
  have hm := meaning_of_evaluates (fun c hc v _ h => Option.some.inj ((hs c hc).symm.trans h)) hv
  exact Option.some.inj ((hs c hc).symm.trans hm)

theorem exists_satisfied (hd : (constants.map Constant.name).Nodup)
    (he : ∀ c ∈ constants, ∃ v, Evaluates constants c.expr v) :
    ∃ values, Satisfied constants values := by
  have hx : ∀ x, ∃ v, ∀ c ∈ constants, c.name = x → Evaluates constants c.expr v := by
    intro x
    by_cases h : ∃ c ∈ constants, c.name = x
    · obtain ⟨c, hc, rfl⟩ := h
      obtain ⟨v, hv⟩ := he c hc
      exact ⟨v, fun c' hc' hn => eq_of_name hd hc hc' hn.symm ▸ hv⟩
    · exact ⟨0, fun c hc hn => absurd ⟨c, hc, hn⟩ h⟩
  choose values hvalues using hx
  refine ⟨values, fun c hc => ?_⟩
  refine meaning_of_evaluates (fun c hc v hv _ => ?_) (hvalues c.name c hc rfl)
  exact evaluates_unique hd (hvalues c.name c hc rfl) hv

theorem acc_of_evaluates (hd : (constants.map Constant.name).Nodup) {e : Expr} {v : Int}
    (hv : Evaluates constants e v) : ∀ x ∈ e.names, Acc (UsedBy constants) x := by
  induction hv with
  | literal loc v => simp [Expr.names]
  | @constant loc c v hc _ ih =>
    intro x hx
    rw [List.mem_singleton.mp hx]
    refine ⟨_, fun y hy => ?_⟩
    obtain ⟨c', hc', hn, hy'⟩ := hy
    exact ih y (eq_of_name hd hc hc' hn.symm ▸ hy')
  | unary loc op _ ih => exact ih
  | binary loc op _ _ _ ihl ihr =>
    intro x hx
    exact (List.mem_append.mp hx).elim (ihl x) (ihr x)

theorem operands_of_evaluates {e : Expr} {v : Int} (hv : Evaluates constants e v)
    {loc : Location} {op : BinaryOp} {l r : Expr} (hn : Expr.binary loc op l r ∈ e.nodes) :
    ∃ a b, Evaluates constants l a ∧ Evaluates constants r b ∧ op.Defined a b := by
  induction hv with
  | literal loc v => simp [Expr.nodes] at hn
  | constant loc hc _ _ => simp [Expr.nodes] at hn
  | unary loc op _ ih =>
    rcases List.mem_cons.mp hn with h | h
    · cases h
    · exact ih h
  | binary loc op hl hr hd ihl ihr =>
    rcases List.mem_cons.mp hn with h | h
    · cases h
      exact ⟨_, _, hl, hr, hd⟩
    · exact (List.mem_append.mp h).elim ihl ihr

theorem exists_evaluates {e : Expr}
    (hn : ∀ x ∈ e.names, ∃ c ∈ constants, c.name = x ∧ ∃ v, Evaluates constants c.expr v)
    (hl : ∀ loc op l r, Expr.binary loc op l r ∈ e.nodes →
      ∀ a b, Evaluates constants l a → Evaluates constants r b → op.Defined a b) :
    ∃ v, Evaluates constants e v := by
  induction e with
  | literal loc v => exact ⟨_, .literal loc v⟩
  | constant loc x =>
    obtain ⟨c, hc, rfl, v, hv⟩ := hn x (by simp [Expr.names])
    exact ⟨v, .constant loc hc hv⟩
  | unary loc op e ih =>
    obtain ⟨v, hv⟩ := ih hn fun loc op l r h => hl loc op l r (by simp [Expr.nodes, h])
    exact ⟨_, .unary loc op hv⟩
  | binary loc op l r ihl ihr =>
    obtain ⟨a, ha⟩ := ihl (fun x hx => hn x (by simp [Expr.names, hx]))
      fun loc op l r h => hl loc op l r (by simp [Expr.nodes, h])
    obtain ⟨b, hb⟩ := ihr (fun x hx => hn x (by simp [Expr.names, hx]))
      fun loc op l r h => hl loc op l r (by simp [Expr.nodes, h])
    exact ⟨_, .binary loc op ha hb (hl loc op l r (by simp [Expr.nodes]) a b ha hb)⟩

theorem defined_of_evaluates {e : Expr} {v : Int} (hv : Evaluates constants e v) :
    ∀ x ∈ e.names, x ∈ constants.map Constant.name := by
  induction hv with
  | literal loc v => simp [Expr.names]
  | constant loc hc _ _ =>
    intro x hx
    rw [List.mem_singleton.mp hx]
    exact List.mem_map_of_mem hc
  | unary loc op _ ih => exact ih
  | binary loc op _ _ _ ihl ihr =>
    intro x hx
    exact (List.mem_append.mp hx).elim (ihl x) (ihr x)

theorem used_by_well_founded
    (hd : ∀ c ∈ constants, ∀ x ∈ c.expr.names, x ∈ constants.map Constant.name)
    (ha : Dependency.Acyclic (UsedBy constants)) : WellFounded (UsedBy constants) := by
  refine Dependency.well_founded_of_acyclic (constants.map Constant.name) ?_ ha
  intro x y h
  obtain ⟨c, hc, _, hx⟩ := h
  exact hd c hc x hx

theorem Meaningful.evaluates (h : Meaningful constants) :
    ∀ c ∈ constants, ∃ v, Evaluates constants c.expr v := by
  have hall : ∀ y, ∀ c ∈ constants, c.name = y → ∃ v, Evaluates constants c.expr v := by
    intro y
    induction y using (used_by_well_founded h.defined h.acyclic).induction with
    | _ y ih =>
      intro c hc hn
      refine exists_evaluates (fun x hx => ?_) (h.legal c hc)
      obtain ⟨c', hc', hn'⟩ := List.mem_map.mp (h.defined c hc x hx)
      exact ⟨c', hc', hn', ih x ⟨c, hc, hn, hx⟩ c' hc' hn'⟩
  exact fun c hc => hall c.name c hc rfl

theorem meaningful_of_evaluates (hd : (constants.map Constant.name).Nodup)
    (he : ∀ c ∈ constants, ∃ v, Evaluates constants c.expr v) : Meaningful constants where
  distinct := hd
  defined := by
    intro c hc
    obtain ⟨v, hv⟩ := he c hc
    exact defined_of_evaluates hv
  acyclic := by
    intro x hx
    -- a name on a cycle is used by some definition, and all names used there are accessible
    obtain ⟨y, ⟨c, hc, _, hxc⟩, _⟩ := TransGen.head'_iff.mp hx
    obtain ⟨v, hv⟩ := he c hc
    exact Dependency.not_trans_gen_self (acc_of_evaluates hd hv x hxc) hx
  legal := by
    intro c hc loc op l r hmem a b ha hb
    obtain ⟨v, hv⟩ := he c hc
    obtain ⟨a', b', ha', hb', hdef⟩ := operands_of_evaluates hv hmem
    rw [evaluates_unique hd ha ha', evaluates_unique hd hb hb']
    exact hdef

end Meaning

end Constant

end DataLayout
