import DataLayout.Proofs.ReportedNumbers

/-!
# Function types written out

A type is written out by writing out the function types that it mentions, which may mention others.
This comes to an end because a function type mentions only earlier ones, and the texts are those
that a report shows.
-/

set_option autoImplicit false

namespace DataLayout

mutual

inductive Ty.Expands (fns : List FunctionType) : Ty → String → Prop
  | primitive (p : Primitive) : Ty.Expands fns (.primitive p) p.name
  | void : Ty.Expands fns .void "void"
  | struct (r : StructRef) : Ty.Expands fns (.struct r) r.name
  | pointer {t : Ty} {text : String} (h : Ty.Expands fns t text) :
      Ty.Expands fns (.pointer t) (text ++ "*")
  | array {t : Ty} {text : String} (n : Nat) (h : Ty.Expands fns t text) :
      Ty.Expands fns (.array t n) (text ++ "[" ++ toString n ++ "]")
  | function {id : Nat} {f : FunctionType} {returns : String} {params : List String}
      (hf : fns[id]? = some f) (hr : Ty.Expands fns f.returns returns)
      (hp : ExpandsParams fns f.params params) :
      Ty.Expands fns (.function id) (returns ++ "(" ++ ", ".intercalate params ++ ")")

inductive ExpandsParams (fns : List FunctionType) : List Parameter → List String → Prop
  | nil : ExpandsParams fns [] []
  | cons {p : Parameter} {ps : List Parameter} {text : String} {texts : List String}
      (h : Ty.Expands fns p.ty text) (hs : ExpandsParams fns ps texts) :
      ExpandsParams fns (p :: ps) ((text ++ " " ++ p.name) :: texts)

end

variable {fns : List FunctionType} {t : Ty}

mutual

theorem Ty.Expands.unique {t : Ty} {text text' : String} (h : t.Expands fns text)
    (h' : t.Expands fns text') : text = text' :=
  match h, h' with
  | .primitive _, .primitive _ => rfl
  | .void, .void => rfl
  | .struct _, .struct _ => rfl
  | .pointer h, .pointer h' => by rw [h.unique h']
  | .array _ h, .array _ h' => by rw [h.unique h']
  | .function hf hr hp, .function hf' hr' hp' => by
    cases hf.symm.trans hf'
    rw [hr.unique hr', hp.unique hp']

theorem ExpandsParams.unique {ps : List Parameter} {texts texts' : List String}
    (h : ExpandsParams fns ps texts) (h' : ExpandsParams fns ps texts') : texts = texts' :=
  match h, h' with
  | .nil, .nil => rfl
  | .cons h hs, .cons h' hs' => by rw [h.unique h', hs.unique hs']

end

mutual

theorem Ty.Expands.append {t : Ty} {text : String} (h : t.Expands fns text)
    (more : List FunctionType) : t.Expands (fns ++ more) text :=
  match h with
  | .primitive p => .primitive p
  | .void => .void
  | .struct r => .struct r
  | .pointer h => .pointer (h.append more)
  | .array n h => .array n (h.append more)
  | .function hf hr hp => by
    refine .function ?_ (hr.append more) (hp.append more)
    rw [List.getElem?_append_left (List.getElem?_eq_some_iff.mp hf).1, hf]

theorem ExpandsParams.append {ps : List Parameter} {texts : List String}
    (h : ExpandsParams fns ps texts) (more : List FunctionType) :
    ExpandsParams (fns ++ more) ps texts :=
  match h with
  | .nil => .nil
  | .cons h hs => .cons (h.append more) (hs.append more)

end

section Spelling

variable {function : Nat → Option String}

theorem Ty.expands_of_spell {text : String} (h : t.spell function = some text)
    (hf : ∀ id s, t.function? = some id → function id = some s → (Ty.function id).Expands fns s) :
    t.Expands fns text := by
  induction t generalizing text with
  | primitive p =>
    cases h
    exact .primitive p
  | void =>
    cases h
    exact .void
  | struct r =>
    cases h
    exact .struct r
  | function id => exact hf id text rfl h
  | pointer t ih =>
    obtain ⟨s, hs, rfl⟩ := Option.map_eq_some_iff.mp h
    exact .pointer (ih hs hf)
  | array t n ih =>
    obtain ⟨s, hs, rfl⟩ := Option.map_eq_some_iff.mp h
    exact .array n (ih hs hf)

theorem expands_params_of_spell {ps : List Parameter} {texts : List String}
    (h : (ps.mapM fun p => (p.ty.spell function).map fun s => s ++ " " ++ p.name) = some texts)
    (hf : ∀ p ∈ ps, ∀ s, p.ty.spell function = some s → p.ty.Expands fns s) :
    ExpandsParams fns ps texts := by
  induction ps generalizing texts with
  | nil =>
    cases h
    exact .nil
  | cons p ps ih =>
    obtain ⟨hfirst, hrest⟩ := List.forall_mem_cons.mp hf
    simp only [List.mapM_cons, Option.bind_eq_bind, Option.bind_eq_some_iff,
      Option.map_eq_some_iff, Option.pure_def, Option.some.injEq] at h
    obtain ⟨_, ⟨s, hs, rfl⟩, texts, htexts, rfl⟩ := h
    exact .cons (hfirst s hs) (ih htexts hrest)

theorem FunctionType.expands_of_spell {f : FunctionType} {id : Nat} {text : String}
    (hid : fns[id]? = some f) (h : f.spell function = some text)
    (hf : ∀ t ∈ f.types, ∀ s, t.spell function = some s → t.Expands fns s) :
    (Ty.function id).Expands fns text := by
  obtain ⟨hreturns, hparams⟩ := List.forall_mem_cons.mp hf
  simp only [spell, Option.bind_eq_bind, Option.bind_eq_some_iff, Option.pure_def,
    Option.some.injEq] at h
  obtain ⟨returns, hr, params, hp, rfl⟩ := h
  refine .function hid (hreturns returns hr) (expands_params_of_spell hp fun p hm => ?_)
  exact hparams p.ty (List.mem_map_of_mem hm)

end Spelling

theorem FunctionType.lt_of_spelling {id : Nat} {text : String}
    (h : spelling fns id = some text) : id < fns.length := by
  have hs := Option.join_eq_some_iff.mp h
  simpa [length_spell_all] using (List.getElem?_eq_some_iff.mp hs).1

theorem WellNumbered.expands_spelling (h : WellNumbered fns) {id : Nat} {text : String}
    (hs : FunctionType.spelling fns id = some text) : (Ty.function id).Expands fns text := by
  induction h generalizing id text with
  | nil => exact absurd (FunctionType.lt_of_spelling hs) (Nat.not_lt_zero id)
  | @snoc fns f hfns hf ih =>
    have hlength := FunctionType.lt_of_spelling hs
    rw [List.length_append, List.length_singleton] at hlength
    by_cases hlt : id < fns.length
    · rw [FunctionType.spelling_snoc_of_lt hlt] at hs
      exact (ih hs).append [f]
    · obtain rfl : id = fns.length := by omega
      rw [FunctionType.spelling_snoc_last] at hs
      refine FunctionType.expands_of_spell List.getElem?_concat_length hs fun t ht s h => ?_
      exact (Ty.expands_of_spell h fun id s _ hid => ih hid).append [f]

theorem WellNumbered.expands_of_spell (h : WellNumbered fns) {text : String}
    (hs : t.spell (FunctionType.spelling fns) = some text) : t.Expands fns text :=
  Ty.expands_of_spell hs fun _ _ _ hid => h.expands_spelling hid

namespace Report

variable {u : CompilationUnit}

theorem spell_of_of_field {spelled : List (Option String)} {f : Field} {r : FieldReport}
    (h : ofField u spelled f = .ok r) :
    (f.ty.spell fun id => (spelled[id]?).join) = some r.type := by
  obtain ⟨offset, _, hrest⟩ := except_bind_eq_ok.mp h
  split at hrest
  · next hspell =>
    cases hrest
    exact hspell
  · cases hrest

end Report

end DataLayout
