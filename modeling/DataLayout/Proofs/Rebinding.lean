import DataLayout.Proofs.Binding

/-!
# Binding again

A step is repeatable when taking it again, from where it got to, ends in the same way. Binding is:
what was bound is bound to the same position again, and the first failure is met where it was met
before.
-/

set_option autoImplicit false

namespace DataLayout

namespace Progress

variable {α β : Type}

def Repeatable (f : α → Progress α) : Prop := ∀ a, f (f a).state = f a

theorem and_then_of_failure {p : Progress α} (h : p.failure ≠ none) (f : α → Progress α) :
    p.andThen f = p := by
  rw [andThen]
  split
  · next hn => exact absurd hn h
  · rfl

theorem and_then_assoc (p : Progress α) (f g : α → Progress α) :
    (p.andThen f).andThen g = p.andThen fun a => (f a).andThen g := by
  by_cases h : p.failure = none
  · rw [and_then_of_failure_eq_none h, and_then_of_failure_eq_none h]
  · rw [and_then_of_failure h, and_then_of_failure h, and_then_of_failure h]

theorem and_then_repeats {f g : α → Progress α} {a : α} (hf : f (f a).state = f a)
    (hg : (f a).failure = none → f (g (f a).state).state = done (g (f a).state).state ∧
      g (g (f a).state).state = g (f a).state) :
    (f ((f a).andThen g).state).andThen g = (f a).andThen g := by
  by_cases h : (f a).failure = none
  · obtain ⟨hfix, hrep⟩ := hg h
    rw [and_then_of_failure_eq_none h, hfix, and_then_of_failure_eq_none (done_failure _),
      done_state, hrep]
  · rw [and_then_of_failure h, hf, and_then_of_failure h]

theorem list_repeatable {f : α → Progress α} (hf : Repeatable f) : Repeatable (list f) := by
  intro as
  induction as with
  | nil => rfl
  | cons a as ih =>
    have ha := hf a
    cases hfa : f a with
    | mk b failure =>
      rw [hfa] at ha
      cases failure with
      | some e => simp only [list, hfa, ha]
      | none => simp only [list, hfa, map_state, ha, ih]

theorem list_state_map {f : α → Progress α} {key : α → β} (hf : ∀ a, key (f a).state = key a)
    (as : List α) : (list f as).state.map key = as.map key := by
  induction as with
  | nil => rfl
  | cons a as ih =>
    have ha := hf a
    cases hfa : f a with
    | mk b failure =>
      rw [hfa] at ha
      cases failure with
      | some e => simp only [list, hfa, List.map_cons, ha]
      | none => simp only [list, hfa, map_state, List.map_cons, ha, ih]

end Progress

variable {position : String → Option Nat}

theorem Ty.linked_linked (t : Ty) : (t.linked position).linked position = t.linked position :=
  t.map_ref_map_ref _ _

theorem Ty.bind_ref_again {t t' : Ty} (h : t.bindRef position = .ok t') :
    t'.bindRef position = .ok t' := by
  obtain ⟨hd, rfl⟩ := bind_ref_eq_ok.mp h
  refine bind_ref_eq_ok.mpr ⟨fun r hr => ?_, t.linked_linked⟩
  rw [ref?_map_ref, Option.map_eq_some_iff] at hr
  obtain ⟨r', hr', rfl⟩ := hr
  exact hd r' hr'

namespace Field

theorem bind_ref_again {seen : List String} {f f' : Field} (h : f.bindRef position seen = .ok f') :
    f'.bindRef position seen = .ok f' := by
  obtain ⟨hs, ⟨hstore, hd⟩, rfl⟩ := bind_ref_eq_ok.mp h
  have hty := Ty.bind_ref_eq_ok.mp (Ty.bind_ref_again (Ty.bind_ref_eq_ok.mpr ⟨hd, rfl⟩))
  refine bind_ref_eq_ok.mpr ⟨hs, ⟨(Ty.storable_map_ref _ f.ty).mpr hstore, hty.1⟩, ?_⟩
  rw [mapTy, mapTy, Ty.linked_linked]

theorem bind_all_again (fs : List Field) (seen : List String) :
    bindAll position (bindAll position fs seen).state seen = bindAll position fs seen := by
  induction fs generalizing seen with
  | nil => rfl
  | cons f fs ih =>
    cases h : f.bindRef position seen with
    | error e => simp only [bindAll, h, Progress.stopped]
    | ok f' =>
      have hn : f'.name = f.name := by
        obtain ⟨_, _, rfl⟩ := bind_ref_eq_ok.mp h
        rfl
      simp only [bindAll, h, Progress.map_state, bind_ref_again h, hn, ih]

end Field

theorem Struct.bind_refs_repeatable (position : String → Option Nat) :
    Progress.Repeatable (Struct.bindRefs position) := by
  intro s
  rw [bindRefs, bindRefs, Progress.map_state, Field.bind_all_again]

theorem Parameter.bind_ref_repeatable (position : String → Option Nat) :
    Progress.Repeatable (Parameter.bindRef position) := by
  intro p
  cases h : p.ty.bindRef position with
  | error e => simp only [bindRef, h, Except.map, Progress.ofExcept, Progress.stopped]
  | ok t =>
    simp only [bindRef, h, Except.map, Progress.ofExcept, Progress.done_state, Ty.bind_ref_again h]

theorem FunctionType.bind_refs_repeatable (position : String → Option Nat) :
    Progress.Repeatable (FunctionType.bindRefs position) := by
  intro f
  have hparams := Progress.list_repeatable (Parameter.bind_ref_repeatable position) f.params
  cases h : f.returns.bindRef position with
  | error e =>
    simp only [bindRefs, h, Except.map, Progress.ofExcept, Progress.stopped, Progress.andThen]
  | ok t =>
    simp only [bindRefs, h, Except.map, Progress.ofExcept, Progress.done, Progress.andThen,
      Progress.map_state, Ty.bind_ref_again h, hparams]

namespace CompilationUnit

variable {u v : CompilationUnit}

theorem position?_congr (h : u.structs.map Struct.name = v.structs.map Struct.name) :
    u.position? = v.position? := by
  have hmap : ∀ (w : CompilationUnit) name,
      w.position? name = (w.structs.map Struct.name).findIdx? (· == name) := by
    intro w name
    rw [position?, List.findIdx?_map]
    rfl
  funext name
  rw [hmap, hmap, h]

theorem bind_refs_of_repeat (hd : ¬ (u.structs.map Struct.name).Nodup) : u.bindRefs.state = u := by
  rw [bindRefs]
  split
  · rfl
  · next hr => exact absurd ((first_repeat?_eq_none _ _ _).mp hr).1 hd

def bindFields (position : String → Option Nat) (u : CompilationUnit) :
    Progress CompilationUnit :=
  (Progress.list (·.bindRefs position) u.structs).map fun structs => { u with structs }

def bindFunctions (position : String → Option Nat) (u : CompilationUnit) :
    Progress CompilationUnit :=
  (Progress.list (·.bindRefs position) u.functions).map fun functions => { u with functions }

theorem bind_refs_eq (hd : (u.structs.map Struct.name).Nodup) :
    u.bindRefs = (u.bindFields u.position?).andThen (bindFunctions u.position?) :=
  bind_refs_of_distinct hd

theorem bind_fields_repeatable : Progress.Repeatable (bindFields position) := by
  intro u
  have hstructs := Progress.list_repeatable (Struct.bind_refs_repeatable position) u.structs
  simp only [bindFields, Progress.map_state, hstructs]

theorem bind_functions_repeatable : Progress.Repeatable (bindFunctions position) := by
  intro u
  have hfunctions :=
    Progress.list_repeatable (FunctionType.bind_refs_repeatable position) u.functions
  simp only [bindFunctions, Progress.map_state, hfunctions]

theorem bind_fields_after_bind_functions (h : (u.bindFields position).failure = none) :
    ((u.bindFields position).state.bindFunctions position).state.bindFields position =
      .done ((u.bindFields position).state.bindFunctions position).state := by
  have hstructs := Progress.list_repeatable (Struct.bind_refs_repeatable position) u.structs
  simp only [bindFields, bindFunctions, Progress.map_state, Progress.map_failure] at h ⊢
  rw [hstructs, Progress.map, h]
  rfl

theorem bind_refs_names (u : CompilationUnit) :
    u.bindRefs.state.structs.map Struct.name = u.structs.map Struct.name := by
  have hfields : (u.bindFields u.position?).state.structs.map Struct.name =
      u.structs.map Struct.name := Progress.list_state_map (fun _ => rfl) u.structs
  by_cases hd : (u.structs.map Struct.name).Nodup
  · rw [bind_refs_eq hd]
    by_cases hf : (u.bindFields u.position?).failure = none
    · rw [Progress.and_then_of_failure_eq_none hf]
      exact hfields
    · rw [Progress.and_then_of_failure hf]
      exact hfields
  · rw [bind_refs_of_repeat hd]

theorem bind_refs_repeatable : Progress.Repeatable bindRefs := by
  intro u
  by_cases hd : (u.structs.map Struct.name).Nodup
  · have hnames := u.bind_refs_names
    rw [bind_refs_eq (by rw [hnames]; exact hd), position?_congr hnames, bind_refs_eq hd]
    exact Progress.and_then_repeats (bind_fields_repeatable u) fun hf =>
      ⟨bind_fields_after_bind_functions hf, bind_functions_repeatable _⟩
  · have hstate := bind_refs_of_repeat hd
    rw [hstate]

end CompilationUnit

end DataLayout
