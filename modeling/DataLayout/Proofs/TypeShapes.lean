import DataLayout.Proofs.References
import DataLayout.Proofs.TypeText

/-!
# Shapes of types

A star may not be put behind an array type. So a type of a file, also one in the signature of a
function type, is array layers around pointer layers around a base, and neither including a file nor
resolving a unit changes that. Fields are checked for storage through their array layers alone,
which therefore reaches every array in the type of a field. Signatures are not checked.
-/

set_option autoImplicit false

namespace DataLayout
open Grammar

/-! ## Every type of a unit is written in a text -/

section Literals

mutual

theorem Grammar.OfType.literals_in_text {ts : List Token} {w : WrittenType} (h : OfType ts w)
    (hts : ∀ t ∈ ts, t.value.Writable) : ∀ w' ∈ w.literals, w'.InText :=
  match h with
  | .primitive | .void | .struct => by simp [WrittenType.literals]
  | .array h _ | .pointer h _ => by
    rw [WrittenType.literals]
    exact h.literals_in_text fun t ht => hts t (List.mem_append_left _ ht)
  | .function h hp => by
    have hw := hts
    simp only [List.forall_mem_append, List.forall_mem_cons] at hts
    rw [WrittenType.literals, List.forall_mem_append, List.forall_mem_append]
    refine ⟨⟨h.literals_in_text hts.1, hp.literals_in_text hts.2.2.1⟩, ?_⟩
    intro w' hw'
    rw [List.mem_singleton.mp hw']
    exact ⟨_, .function h hp, hw⟩

theorem Grammar.Params.literals_in_text {ts : List Token} {params : List (String × WrittenType)}
    (h : Params ts params) (hts : ∀ t ∈ ts, t.value.Writable) :
    ∀ w ∈ WrittenType.paramLiterals params, w.InText :=
  match h with
  | .none => by simp [WrittenType.paramLiterals]
  | .some ht hm => by
    simp only [List.forall_mem_append, List.forall_mem_cons] at hts
    rw [WrittenType.paramLiterals, List.forall_mem_append]
    exact ⟨ht.literals_in_text hts.1, hm.literals_in_text hts.2.2⟩

theorem Grammar.MoreParams.literals_in_text {ts : List Token} {params : List (String × WrittenType)}
    (h : MoreParams ts params) (hts : ∀ t ∈ ts, t.value.Writable) :
    ∀ w ∈ WrittenType.paramLiterals params, w.InText :=
  match h with
  | .nil => by simp [WrittenType.paramLiterals]
  | .cons ht hm => by
    simp only [List.forall_mem_append, List.forall_mem_cons] at hts
    rw [WrittenType.paramLiterals, List.forall_mem_append]
    exact ⟨ht.literals_in_text hts.2.1, hm.literals_in_text hts.2.2.2⟩

end

theorem Grammar.MoreParams.in_text {ts : List Token} {params : List (String × WrittenType)}
    (h : MoreParams ts params) (hts : ∀ t ∈ ts, t.value.Writable) :
    ∀ param ∈ params, param.2.InText :=
  match h with
  | .nil => by simp
  | .cons ht hm => by
    simp only [List.forall_mem_append, List.forall_mem_cons] at hts
    exact List.forall_mem_cons.mpr ⟨⟨_, ht, hts.2.1⟩, hm.in_text hts.2.2.2⟩

theorem Grammar.Params.in_text {ts : List Token} {params : List (String × WrittenType)}
    (h : Params ts params) (hts : ∀ t ∈ ts, t.value.Writable) :
    ∀ param ∈ params, param.2.InText := by
  cases h with
  | none => simp
  | some ht hm =>
    simp only [List.forall_mem_append, List.forall_mem_cons] at hts
    exact List.forall_mem_cons.mpr ⟨⟨_, ht, hts.1⟩, hm.in_text hts.2.2⟩

theorem Definition.InText.literals {d : Definition} (h : d.InText) :
    ∀ w ∈ d.literals, w.InText := by
  cases d with
  | struct name groups =>
    intro w hw
    obtain ⟨g, hg, hw⟩ := List.mem_flatMap.mp hw
    obtain ⟨ts, ht, hts⟩ := h g hg
    exact ht.literals_in_text hts w hw
  | constant | inclusion => simp [Definition.literals]

end Literals

section Signatures

variable {fns : List FunctionType}

theorem Parameter.Mean.unfolds_in_text {ps : List Parameter} {params : List (String × WrittenType)}
    (h : Parameter.Mean fns ps params) (hw : ∀ param ∈ params, param.2.InText) :
    ∀ p ∈ ps, ∃ w : WrittenType, p.ty.Unfolds fns w.plain ∧ w.InText := by
  induction ps generalizing params with
  | nil => simp
  | cons p ps ih =>
    cases h with
    | cons hp hps =>
      obtain ⟨hfirst, hrest⟩ := List.forall_mem_cons.mp hw
      exact List.forall_mem_cons.mpr ⟨⟨_, hp.unfolds, hfirst⟩, ih hps hrest⟩

theorem FunctionType.Means.unfolds_in_text {f : FunctionType} {w : WrittenType}
    (h : f.Means fns w) (hw : w.InText) :
    ∀ t ∈ f.types, ∃ w : WrittenType, t.Unfolds fns w.plain ∧ w.InText := by
  obtain ⟨ts, ht, hts⟩ := hw
  cases h with
  | mk hr hp =>
    cases ht with
    | function hreturns hparams =>
      simp only [List.forall_mem_append, List.forall_mem_cons] at hts
      refine List.forall_mem_cons.mpr ⟨⟨_, hr.unfolds, _, hreturns, hts.1⟩, ?_⟩
      rw [List.forall_mem_map]
      exact hp.unfolds_in_text (hparams.in_text hts.2.2.1)

end Signatures

namespace CompilationUnit

variable {u v : CompilationUnit}

/-- Every type of the unit has the plain type of a type that is written in some text. -/
def InText (u : CompilationUnit) : Prop :=
  ∀ t ∈ u.types, ∃ w : WrittenType, t.Unfolds u.functions w.plain ∧ w.InText

theorem Enriches.exists_mem_types (h : u.Enriches v) {t' : Ty} (ht : t' ∈ v.types) :
    ∃ t ∈ u.types, t'.bare = t.bare := by
  rw [types, List.mem_append, List.mem_flatMap, List.mem_flatMap] at ht
  rcases ht with ⟨s', hs', ht'⟩ | ⟨f', hf', ht'⟩
  · obtain ⟨field', hfield', rfl⟩ := List.mem_map.mp ht'
    obtain ⟨s, hs, hb⟩ := h.structs.exists_mem hs'
    have hmem : field'.bare ∈ s.bare.fields := hb ▸ List.mem_map_of_mem hfield'
    obtain ⟨field, hfield, hbare⟩ := List.mem_map.mp hmem
    refine ⟨field.ty, ?_, congrArg Field.ty hbare.symm⟩
    exact List.mem_append_left _ (List.mem_flatMap.mpr ⟨s, hs, List.mem_map_of_mem hfield⟩)
  · have hmem : f'.bare ∈ u.functions.map FunctionType.bare :=
      h.functions ▸ List.mem_map_of_mem hf'
    obtain ⟨f, hf, hb⟩ := List.mem_map.mp hmem
    obtain ⟨t, ht, hbare⟩ := FunctionType.exists_mem_types hb.symm ht'
    exact ⟨t, List.mem_append_right _ (List.mem_flatMap.mpr ⟨f, hf, ht⟩), hbare⟩

theorem InText.of_enriches (hu : u.InText) (h : u.Enriches v) : v.InText := by
  intro t' ht'
  obtain ⟨t, ht, hbare⟩ := h.exists_mem_types ht'
  obtain ⟨w, hunfolds, hw⟩ := hu t ht
  exact ⟨w, hunfolds.of_bare h.functions hbare, hw⟩

end CompilationUnit

theorem Loader.load_to_types_in_text {sources : Sources} {depth : Nat} {source : Source}
    {loading : List String} {u : CompilationUnit}
    (h : (loadTo sources depth source loading).1 = .ok u) : u.InText := by
  refine CompilationUnit.forall_mem_types.mpr ⟨fun s hs f hf => ?_, fun f hf => ?_⟩
  · obtain ⟨w, hmeans, hw⟩ := load_to_in_text h hs hf
    exact ⟨w, hmeans.unfolds, hw⟩
  · obtain ⟨ds, items, hds, hitems⟩ := load_to_exists_flattens h
    obtain ⟨hholds, _⟩ := load_to_holds h ds items hds hitems
    obtain ⟨x, hx, hwritten⟩ := exists_mem_of_forall₂ hholds.functions hf
    obtain ⟨item, hitem, hx⟩ := List.mem_flatMap.mp hx
    obtain ⟨w, hw, rfl⟩ := List.mem_map.mp hx
    have hin : item.definition.InText := hitems.in_text hds.in_text item hitem
    exact hwritten.means.unfolds_in_text (hin.literals w hw)

theorem Obtained.in_text {sources : Sources} {u : CompilationUnit} (h : Obtained sources u) :
    u.InText := by
  induction h with
  | empty filename => exact List.forall_mem_nil _
  | loaded h => exact Loader.load_to_types_in_text h
  | @resolved u _ ih => exact ih.of_enriches u.resolve_enriches

/-! ## Array layers around pointer layers around a base -/

inductive Base where
  | primitive (type : Primitive)
  | void
  | struct (ref : StructRef)
  | function (id : Nat)

def Base.ty : Base → Ty
  | .primitive p => .primitive p
  | .void => .void
  | .struct r => .struct r
  | .function id => .function id

namespace Ty

def pointers : Nat → Ty → Ty
  | 0, t => t
  | m + 1, t => .pointer (pointers m t)

def arrays : List Nat → Ty → Ty
  | [], t => t
  | n :: ns, t => .array (arrays ns t) n

end Ty

structure Layers where
  bounds : List Nat
  stars : Nat
  base : Base

namespace Layers

def ty (l : Layers) : Ty := .arrays l.bounds (.pointers l.stars l.base.ty)

def core (l : Layers) : Ty := .pointers l.stars l.base.ty

theorem is_array_core (l : Layers) : l.core.isArray = false := by
  obtain ⟨_, m, base⟩ := l
  cases m with
  | zero => cases base <;> rfl
  | succ m => rfl

theorem bounds_eq_nil {l : Layers} (h : l.ty.isArray = false) : l.bounds = [] := by
  obtain ⟨ns, m, base⟩ := l
  cases ns with
  | nil => rfl
  | cons n ns => cases h

end Layers

theorem Ty.Unfolds.is_array_eq {fns : List FunctionType} {t : Ty} {w : WrittenType}
    (h : t.Unfolds fns w.plain) : t.isArray = w.isArray := by
  cases w <;> rw [WrittenType.plain] at h <;> cases h <;> rfl

/-- The shape of a type of the grammar: each suffix adds a layer on the outside, and a star is only
added to what is no array. -/
theorem Grammar.OfType.exists_layers {ts : List Token} {w : WrittenType} (h : OfType ts w)
    {fns : List FunctionType} {t : Ty} (ht : t.Unfolds fns w.plain) : ∃ l : Layers, l.ty = t :=
  match h with
  | .primitive (p := p) => by
    rw [WrittenType.plain] at ht
    cases ht
    exact ⟨⟨[], 0, .primitive p⟩, rfl⟩
  | .void => by
    rw [WrittenType.plain] at ht
    cases ht
    exact ⟨⟨[], 0, .void⟩, rfl⟩
  | .struct => by
    rw [WrittenType.plain] at ht
    cases ht with
    | @struct r => exact ⟨⟨[], 0, .struct r⟩, rfl⟩
  | .array (n := n) h _ => by
    rw [WrittenType.plain] at ht
    cases ht with
    | array ht =>
      obtain ⟨l, rfl⟩ := h.exists_layers ht
      exact ⟨⟨n.toInt.toNat :: l.bounds, l.stars, l.base⟩, rfl⟩
  | .pointer h ha => by
    rw [WrittenType.plain] at ht
    cases ht with
    | pointer ht =>
      have hnone := ht.is_array_eq.trans ha
      obtain ⟨⟨ns, m, base⟩, rfl⟩ := h.exists_layers ht
      obtain rfl : ns = [] := Layers.bounds_eq_nil hnone
      exact ⟨⟨[], m + 1, base⟩, rfl⟩
  | .function _ _ => by
    rw [WrittenType.plain] at ht
    cases ht with
    | @function id => exact ⟨⟨[], 0, .function id⟩, rfl⟩

theorem CompilationUnit.InText.exists_layers {u : CompilationUnit} (h : u.InText) {t : Ty}
    (ht : t ∈ u.types) : ∃ l : Layers, l.ty = t := by
  obtain ⟨w, hunfolds, ts, hw, _⟩ := h t ht
  exact hw.exists_layers hunfolds

/-! ## Elements of arrays -/

namespace Ty

/-- The types that a type is made of, from the outside in. Function types are not looked into. -/
def within : Ty → List Ty
  | .pointer t => .pointer t :: t.within
  | .array t n => .array t n :: t.within
  | .primitive p => [.primitive p]
  | .void => [.void]
  | .struct r => [.struct r]
  | .function id => [.function id]

def ElementsStored (t : Ty) : Prop :=
  ∀ element n, .array element n ∈ t.within → element ≠ .void ∧ ∀ id, element ≠ .function id

theorem elements_stored_array {t : Ty} {n : Nat} :
    (array t n).ElementsStored ↔ (t ≠ .void ∧ ∀ id, t ≠ .function id) ∧ t.ElementsStored := by
  constructor
  · intro h
    exact ⟨h t n List.mem_cons_self, fun el m hm => h el m (List.mem_cons_of_mem _ hm)⟩
  · rintro ⟨ht, hrest⟩ el m hm
    rcases List.mem_cons.mp hm with heq | hm
    · cases heq
      exact ht
    · exact hrest el m hm

theorem elements_stored_core (l : Layers) : l.core.ElementsStored := by
  obtain ⟨_, m, base⟩ := l
  induction m with
  | zero =>
    intro el n hm
    cases base <;> simp [Layers.core, pointers, Base.ty, within] at hm
  | succ m ih =>
    intro el n hm
    rcases List.mem_cons.mp hm with heq | hm
    · cases heq
    · exact ih el n hm

theorem elements_stored_array_layers (l : Layers) (n : Nat) :
    (array l.ty n).ElementsStored ↔ l.ty.Storable := by
  obtain ⟨ns, m, base⟩ := l
  induction ns generalizing n with
  | nil =>
    rw [elements_stored_array]
    have hcore := elements_stored_core ⟨[], m, base⟩
    cases m with
    | zero => cases base <;> simp_all [Layers.ty, Layers.core, arrays, pointers, Base.ty, Storable]
    | succ m => simp_all [Layers.ty, Layers.core, arrays, pointers, Storable]
  | cons n' ns ih =>
    rw [elements_stored_array, show (Layers.ty ⟨n' :: ns, m, base⟩) =
      .array (Layers.ty ⟨ns, m, base⟩) n' from rfl, ih n']
    simp [Storable]

theorem elements_stored_iff (l : Layers) :
    l.ty.ElementsStored ↔ (l.ty.isArray = true → l.ty.Storable) := by
  obtain ⟨ns, m, base⟩ := l
  cases ns with
  | nil =>
    have hcore := elements_stored_core ⟨[], m, base⟩
    have harray := Layers.is_array_core ⟨[], m, base⟩
    exact ⟨fun _ h => absurd (harray.symm.trans h) Bool.false_ne_true, fun _ => hcore⟩
  | cons n ns =>
    have hlayers := elements_stored_array_layers ⟨ns, m, base⟩ n
    exact hlayers.trans ⟨fun h _ => h, fun h => h rfl⟩

end Ty

namespace Obtained

variable {sources : Sources} {u v : CompilationUnit}

/-- Once a unit is resolved, the elements of all arrays in the types of its fields have storage.
Those of the arrays in signatures have storage just if these arrays, wherever they are returned or
taken, pass the check that fields must pass. -/
theorem elements_stored (h : Obtained sources u) (hv : u.resolve = .done v) :
    (∀ s ∈ v.structs, ∀ f ∈ s.fields, f.ty.ElementsStored) ∧
    ((∀ t ∈ v.types, t.ElementsStored) ↔
      ∀ f ∈ v.functions, ∀ t ∈ f.types, t.isArray = true →
        t.checkStorage f.location = .ok ()) := by
  have hin : v.InText := h.in_text.of_enriches (CompilationUnit.enriches_of_resolve hv)
  obtain ⟨extent, hres⟩ := CompilationUnit.resolve_spec hv
  have hiff : ∀ t ∈ v.types, (t.ElementsStored ↔ (t.isArray = true → t.Storable)) := by
    intro t ht
    obtain ⟨l, rfl⟩ := hin.exists_layers ht
    exact Ty.elements_stored_iff l
  obtain ⟨hfields, hfunctions⟩ := CompilationUnit.forall_mem_types.mp hiff
  have hstored : ∀ s ∈ v.structs, ∀ f ∈ s.fields, f.ty.ElementsStored := by
    intro s hs f hf
    exact (hfields s hs f hf).mpr fun _ => hres.laid_out.storable s hs f hf
  refine ⟨hstored, ?_⟩
  rw [CompilationUnit.forall_mem_types]
  constructor
  · rintro ⟨_, hall⟩ f hf t ht harray
    have hstorable := (hfunctions f hf t ht).mp (hall f hf t ht) harray
    exact (t.check_storage_eq_ok f.location ()).mpr hstorable
  · intro hall
    refine ⟨hstored, fun f hf t ht => (hfunctions f hf t ht).mpr fun harray => ?_⟩
    exact (t.check_storage_eq_ok f.location ()).mp (hall f hf t ht harray)

/-- A file with arrays in the types of a field, of a parameter and of what a function returns. -/
def storedSource : Source := ⟨"a", "a", "struct A\x7bu8*[3][2]a;A*[4](u8[5]p)*f;\x7d"⟩

def storedUnit : CompilationUnit :=
  let here : Location := ⟨"a", 1⟩
  { CompilationUnit.empty "a" with
    structs := [⟨here, "A", [⟨here, "a", .array (.array (.pointer (.primitive .u8)) 3) 2, none⟩,
      ⟨here, "f", .pointer (.function 0), none⟩], false, none⟩]
    functions := [⟨here, .array (.pointer (.struct ⟨here, "A", none⟩)) 4,
      [⟨"p", .array (.primitive .u8) 5⟩], false⟩] }

theorem elements_stored_nested : ∃ u v, Obtained MemorySources.empty.sources u ∧
    u.resolve = .done v ∧ .array (.primitive .u8) 5 ∈ v.types ∧
    (∀ s ∈ v.structs, ∀ f ∈ s.fields, f.ty.ElementsStored) ∧ ∀ t ∈ v.types, t.ElementsStored := by
  have hload : ((Loader.ofSources MemorySources.empty.sources).load storedSource).1.toOption =
      some storedUnit := by decide +kernel
  have hrun : (storedUnit.resolve.failure == none &&
      decide (.array (.primitive .u8) 5 ∈ storedUnit.resolve.state.types) &&
      storedUnit.resolve.state.functions.all fun f => f.types.all fun t =>
        !t.isArray || (t.checkStorage f.location).toBool) = true := by cbv
  simp only [Bool.and_eq_true, beq_iff_eq, decide_eq_true_eq, List.all_eq_true, Bool.or_eq_true,
    Bool.not_eq_true'] at hrun
  obtain ⟨⟨hdone, hmem⟩, hpass⟩ := hrun
  have hu : Obtained MemorySources.empty.sources storedUnit :=
    .loaded (except_to_option_eq_some.mp hload)
  obtain ⟨hfields, hall⟩ := elements_stored hu (Progress.eq_done hdone)
  refine ⟨_, _, hu, Progress.eq_done hdone, hmem, hfields, hall.mpr fun f hf t ht harray => ?_⟩
  rcases hpass f hf t ht with hfalse | hok
  · exact absurd (hfalse.symm.trans harray) Bool.false_ne_true
  · cases hcheck : t.checkStorage f.location with
    | ok => rfl
    | error e =>
      rw [hcheck] at hok
      cases hok

/-- A function type that takes an array of `void` and an array of functions. -/
def unstoredSource : Source := ⟨"a", "a", "struct A\x7bvoid(void[2]p,u8()[3]q)*f;\x7d"⟩

def unstoredUnit : CompilationUnit :=
  let here : Location := ⟨"a", 1⟩
  { CompilationUnit.empty "a" with
    structs := [⟨here, "A", [⟨here, "f", .pointer (.function 1), none⟩], false, none⟩]
    functions := [⟨here, .primitive .u8, [], false⟩,
      ⟨here, .void, [⟨"p", .array .void 2⟩, ⟨"q", .array (.function 0) 3⟩], false⟩] }

theorem elements_unstored : ∃ u v, Obtained MemorySources.empty.sources u ∧ u.resolve = .done v ∧
    .array .void 2 ∈ v.types ∧ .array (.function 0) 3 ∈ v.types ∧
    ¬ ∀ t ∈ v.types, t.ElementsStored := by
  have hload : ((Loader.ofSources MemorySources.empty.sources).load unstoredSource).1.toOption =
      some unstoredUnit := by decide +kernel
  have hrun : (unstoredUnit.resolve.failure == none &&
      decide (.array .void 2 ∈ unstoredUnit.resolve.state.types) &&
      decide (.array (.function 0) 3 ∈ unstoredUnit.resolve.state.types)) = true := by cbv
  simp only [Bool.and_eq_true, beq_iff_eq, decide_eq_true_eq] at hrun
  obtain ⟨⟨hdone, hvoid⟩, hfunction⟩ := hrun
  refine ⟨_, _, .loaded (except_to_option_eq_some.mp hload), Progress.eq_done hdone, hvoid,
    hfunction, fun hall => ?_⟩
  exact (hall _ hvoid .void 2 List.mem_cons_self).1 rfl

end Obtained

end DataLayout
