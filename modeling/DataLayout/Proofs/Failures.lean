import DataLayout.Proofs.Compilation

/-!
# Which pass has failed

A failure of resolution tells by its kind which pass it comes from: binding, ordering, placing or
evaluation. No pass comes upon a reference that leads nowhere.
-/

set_option autoImplicit false

namespace DataLayout

inductive Pass where
  | binding
  | ordering
  | placing
  | evaluation
  deriving DecidableEq, Repr

/-- The pass that reports an error. A dangling reference is reported by none. -/
def ResolveError.pass? : ResolveError → Option Pass
  | .unknownStruct _ | .duplicateStruct _ | .duplicateField _ | .voidStorage | .functionStorage =>
    some .binding
  | .recursiveStruct _ | .weightOverflow _ => some .ordering
  | .sizeOverflow _ => some .placing
  | .duplicateConstant _ | .undefinedConstant _ | .recursiveConstant _ | .arithmetic _ =>
    some .evaluation
  | .danglingReference _ => none

def ResolveFailure.From (pass : Pass) (e : ResolveFailure) : Prop := e.value.pass? = some pass

namespace Progress

variable {α : Type} {P : ResolveFailure → Prop}

theorem list_failure_of {f : α → Progress α} (hf : ∀ a e, (f a).failure = some e → P e)
    {as : List α} {e : ResolveFailure} (h : (list f as).failure = some e) : P e := by
  induction as with
  | nil => cases h
  | cons a as ih =>
    rw [list] at h
    split at h
    · next b e' ha =>
      cases h
      exact hf a e (by rw [ha])
    · exact ih h

theorem and_then_failure_eq_some {p : Progress α} {f : α → Progress α} {e : ResolveFailure}
    (h : (p.andThen f).failure = some e) :
    p.failure = some e ∨ p.failure = none ∧ (f p.state).failure = some e := by
  rw [andThen] at h
  split at h
  · next hn => exact .inr ⟨hn, h⟩
  · exact .inl h

theorem and_then_failure_of {p : Progress α} {f : α → Progress α}
    (hp : ∀ e, p.failure = some e → P e)
    (hf : p.failure = none → ∀ e, (f p.state).failure = some e → P e) {e : ResolveFailure}
    (h : (p.andThen f).failure = some e) : P e := by
  rcases and_then_failure_eq_some h with he | ⟨hn, he⟩
  · exact hp e he
  · exact hf hn e he

theorem of_except_failure_of {a : α} {r : Except ResolveFailure α} {e : ResolveFailure}
    (h : (ofExcept a r).failure = some e) : r = .error e := by
  cases r with
  | ok b => cases h
  | error e' =>
    cases h
    rfl

end Progress

theorem except_map_eq_error {ε α β : Type} {x : Except ε α} {f : α → β} {e : ε} :
    x.map f = .error e ↔ x = .error e := by
  cases x <;> simp [Except.map]

section Binding

variable {position : String → Option Nat} {e : ResolveFailure}

theorem Ty.check_storage_from {loc : Location} {t : Ty} (h : t.checkStorage loc = .error e) :
    e.From .binding := by
  induction t with
  | void | function =>
    cases h
    rfl
  | array t n ih => exact ih h
  | primitive | struct | pointer => cases h

theorem Ty.bind_ref_from {t : Ty} (h : t.bindRef position = .error e) : e.From .binding := by
  induction t with
  | struct r =>
    rw [bindRef] at h
    split at h
    · cases h
    · cases h
      rfl
  | pointer t ih => exact ih (except_map_eq_error.mp h)
  | array t n ih => exact ih (except_map_eq_error.mp h)
  | primitive | void | function => cases h

theorem Field.bind_ref_from {seen : List String} {f : Field}
    (h : f.bindRef position seen = .error e) : e.From .binding := by
  rw [bindRef] at h
  split at h
  · cases h
    rfl
  · split at h
    · next hs =>
      cases h
      exact Ty.check_storage_from hs
    · exact Ty.bind_ref_from (except_map_eq_error.mp h)

theorem Field.bind_all_from {fs : List Field} {seen : List String}
    (h : (bindAll position fs seen).failure = some e) : e.From .binding := by
  induction fs generalizing seen with
  | nil => cases h
  | cons f fs ih =>
    rw [bindAll] at h
    split at h
    · next hf =>
      cases h
      exact bind_ref_from hf
    · exact ih h

theorem Struct.bind_refs_from {s : Struct} (h : (s.bindRefs position).failure = some e) :
    e.From .binding :=
  Field.bind_all_from h

theorem FunctionType.bind_refs_from {f : FunctionType}
    (h : (f.bindRefs position).failure = some e) : e.From .binding := by
  refine Progress.and_then_failure_of (fun e he => ?_) (fun _ e he => ?_) h
  · exact Ty.bind_ref_from (except_map_eq_error.mp (Progress.of_except_failure_of he))
  · refine Progress.list_failure_of (fun p e hp => ?_) he
    exact Ty.bind_ref_from (except_map_eq_error.mp (Progress.of_except_failure_of hp))

theorem CompilationUnit.bind_refs_from {u : CompilationUnit}
    (h : u.bindRefs.failure = some e) : e.From .binding := by
  rw [bindRefs] at h
  split at h
  · cases h
    rfl
  · refine Progress.and_then_failure_of (fun e he => ?_) (fun _ e he => ?_) h
    · exact Progress.list_failure_of (fun s e => Struct.bind_refs_from) he
    · exact Progress.list_failure_of (fun f e => FunctionType.bind_refs_from) he

end Binding

namespace Constant

variable {e : ResolveFailure}

theorem value_from {name : Location → String → Except ResolveFailure Int64}
    (hn : ∀ loc x e, name loc x = .error e → e.From .evaluation) {expr : Expr}
    (h : expr.value (Located.map .arithmetic) name = .error e) : e.From .evaluation := by
  induction expr with
  | literal => cases h
  | constant loc x => exact hn loc x e h
  | unary loc op a ih =>
    rw [Expr.value] at h
    split at h
    · next ha =>
      cases h
      exact ih ha
    · cases h
  | binary loc op l r ihl ihr =>
    rw [Expr.value] at h
    split at h
    · next hl =>
      cases h
      exact ihl hl
    · split at h
      · next hr =>
        cases h
        exact ihr hr
      · split at h
        · cases h
          rfl
        · cases h

theorem value_of_from {index : Index} {depth : Nat} {underway : List Nat} {loc : Location}
    {x : String} (h : valueOf index depth underway loc x = .error e) : e.From .evaluation := by
  induction depth generalizing underway loc x e with
  | zero =>
    rw [valueOf] at h
    split at h
    · cases h
      rfl
    · split at h <;> cases h <;> rfl
  | succ depth ih =>
    rw [valueOf] at h
    split at h
    · cases h
      rfl
    · split at h
      · cases h
        rfl
      · exact value_from (fun loc x e he => ih he) h

theorem values_from_from {index : Index} {depth i : Nat} {cs : List Constant}
    (h : valuesFrom index depth i cs = .error e) : e.From .evaluation := by
  induction cs generalizing i with
  | nil => cases h
  | cons c cs ih =>
    rw [valuesFrom] at h
    split at h
    · next hc =>
      cases h
      exact value_from (fun loc x e he => value_of_from he) hc
    · split at h
      · next hcs =>
        cases h
        exact ih hcs
      · cases h

theorem values_from {constants : List Constant} (h : values constants = .error e) :
    e.From .evaluation := by
  rw [values] at h
  split at h
  · cases h
    rfl
  · exact values_from_from h

end Constant

namespace CompilationUnit

variable {u : CompilationUnit} {e : ResolveFailure}

theorem blames_from {structs : List Struct} (h : Weighing.Blames structs e) : e.From .ordering := by
  rcases h with ⟨s, _, rfl, _⟩ | ⟨s, _, rfl, _⟩ <;> rfl

theorem place_from {extent : String → Extent} (hp : Placeable extent u.structs)
    (h : u.place.failure = some e) : e.From .placing := by
  have hspec := place_spec hp
  rw [h] at hspec
  obtain ⟨s, _, rfl, _⟩ := hspec
  rfl

/-- Where resolving a unit has failed. Ordering comes after binding, and evaluation last. -/
inductive FailsIn (u : CompilationUnit) (e : ResolveFailure) : Prop
  | binding (h : e.From .binding)
  | ordering (hb : u.bindRefs.failure = none) (h : Weighing.Blames u.linked.structs e)
  | placing (h : e.From .placing)
  | evaluation (h : Constant.values u.resolveStructs.state.constants = .error e)

theorem bind_refs_order_fails_in (h : (u.bindRefs.andThen order).failure = some e) :
    u.FailsIn e := by
  rcases Progress.and_then_failure_eq_some h with h | ⟨hb, h⟩
  · exact .binding (bind_refs_from h)
  · have hbind := bind_refs_failure.mp hb
    have hd := u.linked_same_structs.names.nodup_iff.mpr hbind.structs_distinct
    have hspec := weights_spec hd (linked_bound hbind).parts_bound
    rw [bind_refs_state hb] at h
    rw [except_map_eq_error.mp (Progress.of_except_failure_of h)] at hspec
    exact .ordering hb hspec

theorem resolve_structs_fails_in (h : u.resolveStructs.failure = some e) : u.FailsIn e := by
  rcases Progress.and_then_failure_eq_some h with h | ⟨ho, h⟩
  · exact bind_refs_order_fails_in h
  · obtain ⟨hb, ha, _⟩ := bind_refs_order_failure.mp ho
    obtain ⟨extent, hl⟩ := hb.exists_layout ha
    exact .placing (place_from ((bind_refs_order_arranges ho).placeable hb ha hl) h)

theorem fails_in_of_resolve (h : u.resolve.failure = some e) : u.FailsIn e := by
  rcases Progress.and_then_failure_eq_some h with h | ⟨_, h⟩
  · rcases Progress.and_then_failure_eq_some h with h | ⟨_, h⟩
    · exact resolve_structs_fails_in h
    · exact .evaluation (except_map_eq_error.mp (Progress.of_except_failure_of h))
  · cases h

end CompilationUnit

end DataLayout
