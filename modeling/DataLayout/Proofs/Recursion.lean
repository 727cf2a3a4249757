import DataLayout.Proofs.Enrichment
import DataLayout.Proofs.Failures

/-!
# Recursion is blamed on a cycle

A struct is reported as recursive at its definition, and only if a value of it would contain
another. A constant is reported as recursive where its name stands in a definition that its own
definition leads to. Pointers and function types contain nothing by value, and a constant may be
used by any number of others.
-/

set_option autoImplicit false

namespace DataLayout
open Relation

/-- A value of the type holds one of the struct `name`: it is one, or an array of such values. -/
inductive Ty.Embeds : Ty → String → Prop
  | struct (r : StructRef) : Embeds (.struct r) r.name
  | array {t : Ty} {name : String} (n : Nat) (h : t.Embeds name) : Embeds (.array t n) name

theorem Ty.embeds_iff {t : Ty} {name : String} :
    t.Embeds name ↔ ∃ r, t.embedded = some r ∧ r.name = name := by
  constructor
  · intro h
    induction h with
    | struct r => exact ⟨r, rfl, rfl⟩
    | array n _ ih => exact ih
  · rintro ⟨r, hr, rfl⟩
    induction t with
    | struct r' =>
      cases hr
      exact .struct r
    | array t n ih => exact .array n (ih hr)
    | primitive | void | pointer | function => cases hr

/-- The struct `outer` has a field whose value holds one of the struct `inner`. -/
def EmbeddedIn (structs : List Struct) (inner outer : String) : Prop :=
  ∃ s ∈ structs, s.name = outer ∧ ∃ f ∈ s.fields, f.ty.Embeds inner

theorem contains_eq_embedded_in (structs : List Struct) :
    Contains structs = EmbeddedIn structs := by
  funext inner outer
  refine propext ⟨?_, ?_⟩
  · rintro ⟨s, hs, hn, hp⟩
    obtain ⟨f, hf, hr⟩ := Struct.field_of_mem_part_names hp
    exact ⟨s, hs, hn, f, hf, Ty.embeds_iff.mpr hr⟩
  · rintro ⟨s, hs, hn, f, hf, he⟩
    obtain ⟨r, hr, rfl⟩ := Ty.embeds_iff.mp he
    exact ⟨s, hs, hn, Struct.mem_part_names hf hr⟩

namespace Constant

variable {constants : List Constant}

theorem mem_names_of_mem_nodes {e : Expr} {loc : Location} {x : String}
    (h : .constant loc x ∈ e.nodes) : x ∈ e.names := by
  induction e with
  | literal => simp [Expr.nodes] at h
  | constant =>
    cases List.mem_singleton.mp h
    exact List.mem_singleton_self x
  | unary loc' op e ih =>
    rcases List.mem_cons.mp h with h | h
    · cases h
    · exact ih h
  | binary loc' op l r ihl ihr =>
    rcases List.mem_cons.mp h with h | h
    · cases h
    · exact List.mem_append.mpr ((List.mem_append.mp h).imp ihl ihr)

theorem value_eq_error {name : Location → String → Except ResolveFailure Int64} {e : Expr}
    {f : ResolveFailure} (h : e.value (Located.map .arithmetic) name = .error f) :
    (∃ a, f.value = .arithmetic a) ∨
      ∃ loc x, .constant loc x ∈ e.nodes ∧ name loc x = .error f := by
  induction e with
  | literal => cases h
  | constant loc x => exact .inr ⟨loc, x, List.mem_singleton_self _, h⟩
  | unary loc op e ih =>
    rw [Expr.value] at h
    split at h
    · next he =>
      cases h
      refine (ih he).imp_right ?_
      rintro ⟨loc', x, hx, hf⟩
      exact ⟨loc', x, List.mem_cons_of_mem _ hx, hf⟩
    · cases h
  | binary loc op l r ihl ihr =>
    rw [Expr.value] at h
    split at h
    · next hl =>
      cases h
      refine (ihl hl).imp_right ?_
      rintro ⟨loc', x, hx, hf⟩
      exact ⟨loc', x, List.mem_cons_of_mem _ (List.mem_append_left _ hx), hf⟩
    · split at h
      · next hr =>
        cases h
        refine (ihr hr).imp_right ?_
        rintro ⟨loc', x, hx, hf⟩
        exact ⟨loc', x, List.mem_cons_of_mem _ (List.mem_append_right _ hx), hf⟩
      · split at h
        · cases h
          exact .inl ⟨_, rfl⟩
        · cases h

/-- A name is reported as recursive because its definition is underway, because there is no room
for another definition, or because of its definition. -/
theorem value_of_eq_recursive {index : Index} {depth : Nat} {underway : List Nat}
    {loc loc' : Location} {x name : String}
    (h : valueOf index depth underway loc x = .error ⟨loc', .recursiveConstant name⟩) :
    ∃ i c, index[x]? = some (i, c) ∧
      (i ∈ underway ∧ loc' = loc ∧ name = x ∨
        i ∉ underway ∧ ∀ depth', depth = depth' + 1 →
          c.expr.value (Located.map .arithmetic) (valueOf index depth' (i :: underway)) =
            .error ⟨loc', .recursiveConstant name⟩) := by
  unfold valueOf at h
  split at h
  · cases h
  · next i c hi =>
    refine ⟨i, c, hi, ?_⟩
    have hmem : underway.any (· == i) = true ↔ i ∈ underway := by simp
    split at h
    · next hm =>
      cases h
      exact .inl ⟨hmem.mp hm, rfl, rfl⟩
    · next hm =>
      refine .inr ⟨fun hi => hm (hmem.mpr hi), ?_⟩
      rintro depth' rfl
      exact h

/-- The name stands at the location, in a definition that its own definition leads to. -/
def Recurs (constants : List Constant) (loc : Location) (name : String) : Prop :=
  ∃ c ∈ constants, ReflTransGen (UsedBy constants) c.name name ∧
    Expr.constant loc name ∈ c.expr.nodes

theorem Recurs.depends {loc : Location} {name : String} (h : Recurs constants loc name) :
    TransGen (UsedBy constants) name name := by
  obtain ⟨c, hc, hreach, hnode⟩ := h
  exact .head' ⟨c, hc, rfl, mem_names_of_mem_nodes hnode⟩ hreach

/-- Evaluating the definition of `c` from inside definitions that lead to it. A definition that is
met again is one of them or `c` itself, and before the levels are used up one is met again. -/
theorem recurs_of_value {depth i : Nat} {entered : List Nat} {c : Constant}
    (hi : constants[i]? = some c) (hm : i ∉ entered)
    (hu : Dependency.Underway (UsedBy constants) (constants.map Constant.name) (depth + 1) entered
      [c.name]) {loc : Location} {name : String}
    (h : c.expr.value (Located.map .arithmetic) (valueOf (index constants) depth (i :: entered)) =
      .error ⟨loc, .recursiveConstant name⟩) : Recurs constants loc name := by
  induction depth using Nat.strong_induction_on generalizing i entered c with
  | _ depth ih =>
    have hc := List.mem_of_getElem? hi
    have hname : (constants.map Constant.name)[i]? = some c.name := by
      rw [List.getElem?_map, hi, Option.map_some]
    have huses : ∀ x ∈ c.expr.names, UsedBy constants x c.name := fun x hx => ⟨c, hc, rfl, hx⟩
    have hu' := hu.enter hname (List.mem_singleton_self _) hm huses
    rcases value_eq_error h with ⟨a, ha⟩ | ⟨loc', x, hx, hf⟩
    · cases ha
    · have hused := mem_names_of_mem_nodes hx
      obtain ⟨j, d, hj, ⟨hentered, rfl, rfl⟩ | ⟨hnew, hvalue⟩⟩ := value_of_eq_recursive hf
      · refine ⟨c, hc, ?_, hx⟩
        obtain ⟨hdj, hdx⟩ := get_elem?_of_index hj
        rcases List.mem_cons.mp hentered with rfl | hentered
        · rw [hi] at hdj
          cases hdj
          exact hdx ▸ .refl
        · obtain ⟨y, hy, hreach⟩ := hu.depends j hentered
          rw [named_of_index hj, hdx] at hy
          cases hy
          exact (hreach _ (List.mem_singleton_self _)).to_reflTransGen
      · have hdj := get_elem?_of_index hj
        obtain ⟨depth, rfl⟩ := Nat.exists_eq_succ_of_ne_zero
          (hu'.depth_pos (named_of_index hj) hnew).ne'
        refine ih depth (Nat.lt_succ_self depth) hdj.1 hnew (hu'.subset ?_) (hvalue depth rfl)
        intro y hy
        rw [List.mem_singleton.mp hy, hdj.2]
        exact hused

theorem recurs_of_values_from {cs : List Constant} {i : Nat}
    (hcs : ∀ c ∈ cs.zipIdx i, constants[c.2]? = some c.1) {loc : Location} {name : String}
    (h : valuesFrom (index constants) constants.length i cs =
      .error ⟨loc, .recursiveConstant name⟩) : Recurs constants loc name := by
  induction cs generalizing i with
  | nil => cases h
  | cons c cs ih =>
    rw [List.zipIdx_cons, List.forall_mem_cons] at hcs
    rw [valuesFrom] at h
    split at h
    · next hc =>
      cases h
      refine recurs_of_value hcs.1 List.not_mem_nil ?_ hc
      exact ⟨List.nodup_nil, by simp, by simp⟩
    · split at h
      · next hrest =>
        cases h
        exact ih hcs.2 hrest
      · cases h

theorem recurs_of_values {loc : Location} {name : String}
    (h : values constants = .error ⟨loc, .recursiveConstant name⟩) :
    (constants.map Constant.name).Nodup ∧ Recurs constants loc name := by
  rw [values] at h
  split at h
  · cases h
  · next hrepeat =>
    refine ⟨((first_repeat?_eq_none Constant.name constants []).mp hrepeat).1, ?_⟩
    exact recurs_of_values_from (fun c hc => List.mem_zipIdx_iff_getElem?.mp hc) h

end Constant

namespace CompilationUnit

variable {u : CompilationUnit}

theorem recursive_struct_of_resolve {loc : Location} {name : String}
    (h : u.resolve.failure = some ⟨loc, .recursiveStruct name⟩) :
    (u.structs.map Struct.name).Nodup ∧
    (∃ s ∈ u.structs, s.name = name ∧ s.location = loc) ∧
    TransGen (EmbeddedIn u.structs) name name := by
  cases fails_in_of_resolve h with
  | binding hfrom => cases hfrom
  | placing hfrom => cases hfrom
  | evaluation hvalues => cases Constant.values_from hvalues
  | ordering hb hblames =>
    refine ⟨(bind_refs_failure.mp hb).structs_distinct, ?_⟩
    rcases hblames with ⟨s, hs, he, hcycle⟩ | ⟨s, hs, he, _⟩
    · obtain ⟨s', hs', hbare⟩ := u.linked_same_structs.exists_mem hs
      have hname := congrArg Struct.name hbare
      have hloc := congrArg Struct.location hbare
      cases he
      rw [u.linked_same_structs.contains, contains_eq_embedded_in] at hcycle
      exact ⟨⟨s', hs', hname, hloc⟩, hcycle⟩
    · cases he

theorem recursive_constant_of_resolve {loc : Location} {name : String}
    (h : u.resolve.failure = some ⟨loc, .recursiveConstant name⟩) :
    (u.constants.map Constant.name).Nodup ∧ Constant.Recurs u.constants loc name := by
  cases fails_in_of_resolve h with
  | binding hfrom => cases hfrom
  | placing hfrom => cases hfrom
  | ordering _ hblames => cases blames_from hblames
  | evaluation hvalues =>
    rw [u.resolve_structs_keeps.constants] at hvalues
    exact Constant.recurs_of_values hvalues

/-- A struct is reported as recursive at its definition, and only if it contains itself by value. A
constant is reported as recursive where its name stands in a definition that its own definition
leads to. Without such cycles nothing is reported as recursive. -/
theorem resolve_blames_cycles (u : CompilationUnit) :
    (∀ loc name, u.resolve.failure = some ⟨loc, .recursiveStruct name⟩ →
      (u.structs.map Struct.name).Nodup ∧
      (∃ s ∈ u.structs, s.name = name ∧ s.location = loc) ∧
      TransGen (EmbeddedIn u.structs) name name) ∧
    (∀ loc name, u.resolve.failure = some ⟨loc, .recursiveConstant name⟩ →
      (u.constants.map Constant.name).Nodup ∧
      (∃ c ∈ u.constants, ReflTransGen (Constant.UsedBy u.constants) c.name name ∧
        Expr.constant loc name ∈ c.expr.nodes) ∧
      TransGen (Constant.UsedBy u.constants) name name) ∧
    (Dependency.Acyclic (EmbeddedIn u.structs) →
      ∀ loc name, u.resolve.failure ≠ some ⟨loc, .recursiveStruct name⟩) ∧
    (Dependency.Acyclic (Constant.UsedBy u.constants) →
      ∀ loc name, u.resolve.failure ≠ some ⟨loc, .recursiveConstant name⟩) := by
  refine ⟨fun loc name => recursive_struct_of_resolve, fun loc name h => ?_, ?_, ?_⟩
  · obtain ⟨hd, hrecurs⟩ := recursive_constant_of_resolve h
    exact ⟨hd, hrecurs, hrecurs.depends⟩
  · exact fun ha loc name h => ha name (recursive_struct_of_resolve h).2.2
  · exact fun ha loc name h => ha name (recursive_constant_of_resolve h).2.depends

/-- Two structs that contain each other, the second through an array and after a pointer. -/
def nestedUnit : CompilationUnit :=
  { empty "a" with
    structs := [
      ⟨⟨"a", 1⟩, "P", [⟨⟨"a", 1⟩, "q", .struct ⟨⟨"a", 1⟩, "Q", none⟩, none⟩], false, none⟩,
      ⟨⟨"a", 2⟩, "Q", [⟨⟨"a", 2⟩, "p", .pointer (.struct ⟨⟨"a", 2⟩, "P", none⟩), none⟩,
        ⟨⟨"a", 3⟩, "ps", .array (.struct ⟨⟨"a", 3⟩, "P", none⟩) 2, none⟩], false, none⟩] }

def circularUnit : CompilationUnit :=
  { empty "a" with
    constants := [⟨⟨"a", 1⟩, "X", .constant ⟨"a", 1⟩ "Y", false⟩,
      ⟨⟨"a", 2⟩, "Y", .unary ⟨"a", 2⟩ .negate (.constant ⟨"a", 2⟩ "Z"), false⟩,
      ⟨⟨"a", 3⟩, "Z", .constant ⟨"a", 4⟩ "Y", false⟩] }

theorem resolve_blames_cycles_found :
    (nestedUnit.resolve.failure = some ⟨⟨"a", 1⟩, .recursiveStruct "P"⟩ ∧
      TransGen (EmbeddedIn nestedUnit.structs) "P" "P") ∧
    circularUnit.resolve.failure = some ⟨⟨"a", 4⟩, .recursiveConstant "Y"⟩ ∧
      TransGen (Constant.UsedBy circularUnit.constants) "Y" "Y" := by
  have hnested : nestedUnit.resolve.failure = some ⟨⟨"a", 1⟩, .recursiveStruct "P"⟩ := by cbv
  have hcircular : circularUnit.resolve.failure = some ⟨⟨"a", 4⟩, .recursiveConstant "Y"⟩ := by
    cbv
  exact ⟨⟨hnested, ((resolve_blames_cycles nestedUnit).1 _ _ hnested).2.2⟩,
    hcircular, ((resolve_blames_cycles circularUnit).2.1 _ _ hcircular).2.2⟩

end CompilationUnit

end DataLayout
