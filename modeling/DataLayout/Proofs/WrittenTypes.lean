import DataLayout.Proofs.Grammar
import DataLayout.Proofs.Phrases
import Mathlib.Data.List.Forall2

/-!
# Types as they are written

A type refers to its function types by their positions in a list. With that list it stands for a
type as it is written. Every type of the grammar that a name follows is read as a type that stands
for it, and for each function literal in it, when the literal is complete, a function type is put
behind those met before. Nothing but a type of the grammar is read as a type.
-/

set_option autoImplicit false

namespace DataLayout

theorem exists_mem_of_forall₂ {α β : Type} {R : α → β → Prop} {as : List α} {bs : List β}
    (h : List.Forall₂ R as bs) {a : α} (ha : a ∈ as) : ∃ b ∈ bs, R a b := by
  induction h with
  | nil => cases ha
  | @cons _ b _ _ hab _ ih =>
    cases ha with
    | head => exact ⟨b, List.mem_cons_self, hab⟩
    | tail _ ha =>
      obtain ⟨b', hb', hab'⟩ := ih ha
      exact ⟨b', List.mem_cons_of_mem b hb', hab'⟩

namespace WrittenType

mutual

/-- The function types in a type, each behind those in its return type and its parameters. -/
def literals : WrittenType → List WrittenType
  | .primitive _ | .void | .struct _ _ => []
  | .pointer w | .array w _ => w.literals
  | .function loc returns params =>
    returns.literals ++ paramLiterals params ++ [.function loc returns params]

def paramLiterals : List (String × WrittenType) → List WrittenType
  | [] => []
  | (_, w) :: params => w.literals ++ paramLiterals params

end

end WrittenType

mutual

/-- What a type stands for, where `fns` are the function types it refers to. -/
inductive Ty.Means (fns : List FunctionType) : Ty → WrittenType → Prop
  | primitive {p : Primitive} : Ty.Means fns (.primitive p) (.primitive p)
  | void : Ty.Means fns .void .void
  | struct {loc : Location} {name : String} :
      Ty.Means fns (.struct ⟨loc, name, none⟩) (.struct loc name)
  | pointer {t : Ty} {w : WrittenType} (h : Ty.Means fns t w) :
      Ty.Means fns (.pointer t) (.pointer w)
  | array {t : Ty} {w : WrittenType} {n : Nat} (h : Ty.Means fns t w) :
      Ty.Means fns (.array t n) (.array w n)
  | function {id : Nat} {f : FunctionType} {w : WrittenType} (hid : fns[id]? = some f)
      (h : FunctionType.Means fns f w) : Ty.Means fns (.function id) w

inductive FunctionType.Means (fns : List FunctionType) : FunctionType → WrittenType → Prop
  | mk {f : FunctionType} {returns : WrittenType} {params : List (String × WrittenType)}
      (hr : Ty.Means fns f.returns returns) (hp : Parameter.Mean fns f.params params) :
      FunctionType.Means fns f (.function f.location returns params)

inductive Parameter.Mean (fns : List FunctionType) :
    List Parameter → List (String × WrittenType) → Prop
  | nil : Parameter.Mean fns [] []
  | cons {p : Parameter} {ps : List Parameter} {w : WrittenType}
      {params : List (String × WrittenType)} (h : Ty.Means fns p.ty w)
      (hs : Parameter.Mean fns ps params) : Parameter.Mean fns (p :: ps) ((p.name, w) :: params)

end

theorem Ty.Means.is_array_eq {fns : List FunctionType} {t : Ty} {w : WrittenType}
    (h : t.Means fns w) : t.isArray = w.isArray := by
  cases h with
  | function _ h => cases h; rfl
  | primitive | void | struct | pointer | array => rfl

/-- The second function type is the first, moved up with those it refers to. It may be included
where the first is not. -/
structure FunctionType.MovesTo (offset : Nat) (f f' : FunctionType) : Prop where
  location : f'.location = f.location
  returns : f'.returns = f.returns.shift offset
  params : f'.params = f.params.map (·.mapTy (Ty.shift offset))

/-- The function types of one list are in the other, `offset` positions later. -/
def FunctionType.MovedTo (offset : Nat) (fns fns' : List FunctionType) : Prop :=
  ∀ id f, fns[id]? = some f → ∃ f', fns'[id + offset]? = some f' ∧ f.MovesTo offset f'

section Moving

variable {offset : Nat} {fns fns' : List FunctionType}

mutual

theorem Ty.Means.shift (hm : FunctionType.MovedTo offset fns fns') {t : Ty} {w : WrittenType}
    (h : t.Means fns w) : (t.shift offset).Means fns' w :=
  match h with
  | .primitive => .primitive
  | .void => .void
  | .struct => .struct
  | .pointer h => .pointer (h.shift hm)
  | .array h => .array (h.shift hm)
  | .function hid h => by
    obtain ⟨f', hid', hf⟩ := hm _ _ hid
    exact .function hid' (h.shift hm hf)

theorem FunctionType.Means.shift (hm : FunctionType.MovedTo offset fns fns') {f f' : FunctionType}
    {w : WrittenType} (h : f.Means fns w) (hf : f.MovesTo offset f') : f'.Means fns' w :=
  match h with
  | .mk hreturns hparams => by
    rw [← hf.location]
    refine .mk ?_ ?_
    · rw [hf.returns]
      exact hreturns.shift hm
    · rw [hf.params]
      exact hparams.shift hm

theorem Parameter.Mean.shift (hm : FunctionType.MovedTo offset fns fns') {ps : List Parameter}
    {params : List (String × WrittenType)} (h : Parameter.Mean fns ps params) :
    Parameter.Mean fns' (ps.map (·.mapTy (Ty.shift offset))) params :=
  match h with
  | .nil => .nil
  | .cons h hs => .cons (h.shift hm) (hs.shift hm)

end

end Moving

@[simp] theorem Ty.shift_zero (t : Ty) : t.shift 0 = t := by
  induction t with
  | pointer t ih => rw [shift, ih]
  | array t n ih => rw [shift, ih]
  | primitive | void | struct | function => rfl

theorem FunctionType.moves_to_zero (f : FunctionType) : f.MovesTo 0 f :=
  ⟨rfl, (Ty.shift_zero _).symm, by simp [Parameter.mapTy]⟩

theorem FunctionType.moved_to_of_longer {fns fns' : List FunctionType} (h : fns <+: fns') :
    MovedTo 0 fns fns' := by
  obtain ⟨more, rfl⟩ := h
  intro id f hid
  have hlt := (List.getElem?_eq_some_iff.mp hid).1
  refine ⟨f, ?_, f.moves_to_zero⟩
  rw [Nat.add_zero, List.getElem?_append_left hlt, hid]

theorem FunctionType.moved_to_append {fns fns' : List FunctionType}
    {g : FunctionType → FunctionType} (hg : ∀ f : FunctionType, f.MovesTo fns.length (g f)) :
    MovedTo fns.length fns' (fns ++ fns'.map g) := by
  intro id f hid
  refine ⟨g f, ?_, hg f⟩
  rw [List.getElem?_append_right (Nat.le_add_left _ _), Nat.add_sub_cancel, List.getElem?_map, hid,
    Option.map_some]

section Growing

variable {fns fns' : List FunctionType}

theorem Ty.Means.of_longer (hp : fns <+: fns') {t : Ty} {w : WrittenType} (h : t.Means fns w) :
    t.Means fns' w := by
  have hs := h.shift (FunctionType.moved_to_of_longer hp)
  rwa [shift_zero] at hs

theorem FunctionType.Means.of_longer (hp : fns <+: fns') {f : FunctionType} {w : WrittenType}
    (h : f.Means fns w) : f.Means fns' w :=
  h.shift (moved_to_of_longer hp) f.moves_to_zero

end Growing

/-- Some function types are followed by those that the literals stand for. -/
def FunctionType.Adds (fns fns' : List FunctionType) (ws : List WrittenType) : Prop :=
  ∃ new, fns' = fns ++ new ∧
    List.Forall₂ (fun f w => f.included = false ∧ f.Means fns' w) new ws

namespace FunctionType.Adds

variable {fns fns₁ fns₂ : List FunctionType} {ws ws' : List WrittenType}

theorem refl (fns : List FunctionType) : Adds fns fns [] :=
  ⟨[], (List.append_nil fns).symm, .nil⟩

theorem grows (h : Adds fns fns₁ ws) : fns <+: fns₁ := by
  obtain ⟨new, rfl, _⟩ := h
  exact List.prefix_append fns new

theorem trans (h : Adds fns fns₁ ws) (h' : Adds fns₁ fns₂ ws') : Adds fns fns₂ (ws ++ ws') := by
  have hgrows := h'.grows
  obtain ⟨new, rfl, hnew⟩ := h
  obtain ⟨new', rfl, hnew'⟩ := h'
  refine ⟨new ++ new', List.append_assoc _ _ _, List.rel_append ?_ hnew'⟩
  exact hnew.imp fun f w hf => ⟨hf.1, hf.2.of_longer hgrows⟩

theorem snoc {f : FunctionType} (hown : f.included = false) {w : WrittenType}
    (hf : f.Means fns w) : Adds fns (fns ++ [f]) [w] :=
  ⟨[f], rfl, .cons ⟨hown, hf.of_longer (List.prefix_append _ _)⟩ .nil⟩

end FunctionType.Adds

namespace Ty
open Grammar

section Steps

variable {ending : Ending} {fns fns₁ fns₂ : List FunctionType} {ty : Ty} {loc : Location}
  {ts rest : List Token} {v : WithFunctions Ty} {params : List Parameter}

theorem read_bound_gives {n : Nat} : (readBound ending ts).Gives n rest ↔
    ∃ loc loc' i, ts = ⟨loc, .integer i⟩ :: ⟨loc', .mark .rbracket⟩ :: rest ∧ 0 ≤ i ∧
      n = i.toInt.toNat := by
  constructor
  · intro h
    rw [readBound] at h
    split at h
    · simp at h
    · next i r₁ h₁ hi =>
      split_ifs at h with hneg
      · simp at h
      · split at h
        · simp at h
        · next close r₂ h₂ hc =>
          obtain ⟨loc', rfl, rfl⟩ := Ending.expect_mark_gives.mp ⟨h₂, hc⟩
          obtain ⟨rfl, rfl⟩ := Reading.gives_ok.mp h
          exact ⟨i.location, loc', i.value, Ending.expect_integer_gives.mp ⟨h₁, hi⟩,
            Int64.not_lt.mp hneg, rfl⟩
  · rintro ⟨loc, loc', i, rfl, hi, rfl⟩
    rw [readBound, Ending.expect_integer_cons]
    simp only [if_neg (Int64.not_lt.mpr hi), Ending.expect_mark_cons]
    simp

theorem read_base {t : Token} {base : Ty} (hb : ofToken? t = some base)
    (h : (readSuffixes ending fns base ts).Gives v rest) :
    (read ending fns (t :: ts)).Gives v rest := by
  obtain ⟨h₁, hs⟩ := h
  rw [read, Ending.take, hb]
  simp only [Phrase.one, hs]
  simp

theorem exists_of_type_of_of_token? {t : Token} {base : Ty} (h : ofToken? t = some base) :
    ∃ w, OfType [t] w ∧ w.isArray = base.isArray := by
  obtain ⟨loc, s⟩ := t
  cases s with
  | primitive p =>
    cases h
    exact ⟨_, .primitive, rfl⟩
  | identifier x =>
    cases h
    exact ⟨_, .struct, rfl⟩
  | keyword k =>
    cases k <;> cases h
    exact ⟨_, .void, rfl⟩
  | integer | quoted | mark | eof => cases h

theorem base_of_read (h : (read ending fns ts).Gives v rest) :
    ∃ t ts', ts = t :: ts' ∧ (ofToken? t).isSome := by
  rw [read] at h
  split at h
  · simp at h
  · next base r₁ h₁ hb =>
    obtain ⟨t, hts, ht⟩ := Ending.take_gives.mp ⟨h₁, hb⟩
    exact ⟨t, r₁, hts, by rw [ht]; rfl⟩

theorem read_suffixes_name {x : String} :
    (readSuffixes ending fns ty (⟨loc, .identifier x⟩ :: rest)).Gives (ty, fns)
      (⟨loc, .identifier x⟩ :: rest) := by
  rw [readSuffixes]
  · simp [Phrase.none]
  all_goals simp

theorem read_suffixes_array {i : Int64} {loc₁ loc₂ : Location} (hi : 0 ≤ i)
    (h : (readSuffixes ending fns (.array ty i.toInt.toNat) ts).Gives v rest) :
    (readSuffixes ending fns ty (⟨loc, .mark .lbracket⟩ :: ⟨loc₁, .integer i⟩ ::
      ⟨loc₂, .mark .rbracket⟩ :: ts)).Gives v rest := by
  have hbound : (readBound ending (⟨loc₁, .integer i⟩ :: ⟨loc₂, .mark .rbracket⟩ :: ts)).Gives
      i.toInt.toNat ts := read_bound_gives.mpr ⟨loc₁, loc₂, i, rfl, hi, rfl⟩
  obtain ⟨h₁, hbound⟩ := hbound
  obtain ⟨h₂, hs⟩ := h
  rw [readSuffixes, hbound]
  simp only [hs]
  simp

theorem read_suffixes_pointer (ha : ty.isArray = false)
    (h : (readSuffixes ending fns (.pointer ty) ts).Gives v rest) :
    (readSuffixes ending fns ty (⟨loc, .mark .star⟩ :: ts)).Gives v rest := by
  obtain ⟨h₁, hs⟩ := h
  rw [readSuffixes, if_neg (Bool.eq_false_iff.mp ha), hs]
  simp

theorem read_suffixes_function {r₁ : List Token}
    (hp : (readParams ending fns ts).Gives (params, fns₁) r₁)
    (h : (readSuffixes ending (fns₁ ++ [⟨loc, ty, params, false⟩]) (.function fns₁.length)
      r₁).Gives v rest) :
    (readSuffixes ending fns ty (⟨loc, .mark .lparen⟩ :: ts)).Gives v rest := by
  obtain ⟨h₁, hp⟩ := hp
  obtain ⟨h₂, hs⟩ := h
  rw [readSuffixes, hp]
  simp only [hs]
  simp

theorem read_params_none : (readParams ending fns (⟨loc, .mark .rparen⟩ :: rest)).Gives ([], fns)
    rest := by
  rw [readParams]
  simp

theorem read_params_first {name : String} {r₁ : List Token}
    (ht : (read ending fns ts).Gives (ty, fns₁) (⟨loc, .identifier name⟩ :: r₁))
    (hm : (readMoreParams ending fns₁ r₁).Gives (params, fns₂) rest) :
    (readParams ending fns ts).Gives (⟨name, ty⟩ :: params, fns₂) rest := by
  obtain ⟨t, ts', hts, hbase⟩ := base_of_read ht
  obtain ⟨h₁, ht⟩ := ht
  obtain ⟨h₂, hm⟩ := hm
  rw [readParams]
  · simp only [ht, Ending.expect_name_cons, hm]
    simp
  · rintro loc' rest' rfl
    cases hts
    cases hbase

theorem read_more_params_none :
    (readMoreParams ending fns (⟨loc, .mark .rparen⟩ :: rest)).Gives ([], fns) rest := by
  rw [readMoreParams]
  simp

theorem read_more_params_next {loc' : Location} {name : String} {r₁ : List Token}
    (ht : (read ending fns ts).Gives (ty, fns₁) (⟨loc, .identifier name⟩ :: r₁))
    (hm : (readMoreParams ending fns₁ r₁).Gives (params, fns₂) rest) :
    (readMoreParams ending fns (⟨loc', .mark .comma⟩ :: ts)).Gives (⟨name, ty⟩ :: params, fns₂)
      rest := by
  obtain ⟨h₁, ht⟩ := ht
  obtain ⟨h₂, hm⟩ := hm
  rw [readMoreParams]
  · simp only [Ending.expect_mark_cons, ht, Ending.expect_name_cons, hm]
    simp
  · simp

end Steps

mutual

theorem read_of_type (ending : Ending) {ts : List Token} {w : WrittenType} (h : OfType ts w)
    (fns : List FunctionType) :
    ∃ ty fns', FunctionType.Adds fns fns' w.literals ∧ ty.Means fns' w ∧
      ∀ ts' v rest, (readSuffixes ending fns' ty ts').Gives v rest →
        (read ending fns (ts ++ ts')).Gives v rest :=
  match h with
  | .primitive => ⟨_, fns, .refl fns, .primitive, fun _ _ _ => read_base rfl⟩
  | .void => ⟨_, fns, .refl fns, .void, fun _ _ _ => read_base rfl⟩
  | .struct => ⟨_, fns, .refl fns, .struct, fun _ _ _ => read_base rfl⟩
  | .array h hi => by
    obtain ⟨ty, fns', hadds, hmeans, hread⟩ := read_of_type ending h fns
    refine ⟨.array ty _, fns', hadds, .array hmeans, fun ts' v rest hs => ?_⟩
    rw [List.append_assoc]
    exact hread _ v rest (read_suffixes_array hi hs)
  | .pointer h ha => by
    obtain ⟨ty, fns', hadds, hmeans, hread⟩ := read_of_type ending h fns
    refine ⟨.pointer ty, fns', hadds, .pointer hmeans, fun ts' v rest hs => ?_⟩
    rw [List.append_assoc]
    exact hread _ v rest (read_suffixes_pointer (hmeans.is_array_eq.trans ha) hs)
  | @OfType.function _ _ _ _ loc loc' h hp => by
    obtain ⟨ty, fns₁, hadds, hmeans, hread⟩ := read_of_type ending h fns
    obtain ⟨params, fns₂, hadds', hmean, hreads⟩ := read_of_params ending hp fns₁ loc'
    let f : FunctionType := ⟨loc, ty, params, false⟩
    have hf : f.Means fns₂ (.function f.location _ _) :=
      .mk (hmeans.of_longer hadds'.grows) hmean
    refine ⟨.function fns₂.length, fns₂ ++ [f], (hadds.trans hadds').trans (.snoc rfl hf),
      .function List.getElem?_concat_length (hf.of_longer (List.prefix_append _ _)),
      fun ts' v rest hs => ?_⟩
    rw [List.append_assoc, List.cons_append, List.append_assoc]
    exact hread _ v rest (read_suffixes_function (hreads _) hs)

theorem read_of_params (ending : Ending) {ts : List Token} {ps : List (String × WrittenType)}
    (h : Params ts ps) (fns : List FunctionType) (loc : Location) :
    ∃ params fns', FunctionType.Adds fns fns' (WrittenType.paramLiterals ps) ∧
      Parameter.Mean fns' params ps ∧
      ∀ rest, (readParams ending fns (ts ++ ⟨loc, .mark .rparen⟩ :: rest)).Gives (params, fns')
        rest :=
  match h with
  | .none => ⟨[], fns, .refl fns, .nil, fun _ => read_params_none⟩
  | .some ht hm => by
    obtain ⟨ty, fns₁, hadds, hmeans, hread⟩ := read_of_type ending ht fns
    obtain ⟨params, fns₂, hadds', hmean, hreads⟩ := read_of_more_params ending hm fns₁ loc
    refine ⟨⟨_, ty⟩ :: params, fns₂, hadds.trans hadds',
      .cons (hmeans.of_longer hadds'.grows) hmean, fun rest => ?_⟩
    rw [List.append_assoc, List.cons_append]
    exact read_params_first (hread _ _ _ read_suffixes_name) (hreads rest)

theorem read_of_more_params (ending : Ending) {ts : List Token}
    {ps : List (String × WrittenType)} (h : MoreParams ts ps) (fns : List FunctionType)
    (loc : Location) :
    ∃ params fns', FunctionType.Adds fns fns' (WrittenType.paramLiterals ps) ∧
      Parameter.Mean fns' params ps ∧
      ∀ rest, (readMoreParams ending fns (ts ++ ⟨loc, .mark .rparen⟩ :: rest)).Gives
        (params, fns') rest :=
  match h with
  | .nil => ⟨[], fns, .refl fns, .nil, fun _ => read_more_params_none⟩
  | .cons ht hm => by
    obtain ⟨ty, fns₁, hadds, hmeans, hread⟩ := read_of_type ending ht fns
    obtain ⟨params, fns₂, hadds', hmean, hreads⟩ := read_of_more_params ending hm fns₁ loc
    refine ⟨⟨_, ty⟩ :: params, fns₂, hadds.trans hadds',
      .cons (hmeans.of_longer hadds'.grows) hmean, fun rest => ?_⟩
    rw [List.cons_append, List.append_assoc, List.cons_append]
    exact read_more_params_next (hread _ _ _ read_suffixes_name) (hreads rest)

end

section Derivation

variable {ending : Ending}

mutual

theorem Reads.derives {fns fns' : List FunctionType} {ts rest : List Token} {ty : Ty}
    (h : Reads ending fns ts ty fns' rest) : ∃ pre w, ts = pre ++ rest ∧ OfType pre w :=
  match h with
  | .base hb hs => by
    obtain ⟨w, hw, ha⟩ := exists_of_type_of_of_token? hb
    obtain ⟨pre, w', rfl, hw'⟩ := hs.derives hw ha
    exact ⟨_ :: pre, w', rfl, hw'⟩

theorem ReadsSuffixes.derives {fns fns' : List FunctionType} {ts rest : List Token} {ty ty' : Ty}
    (h : ReadsSuffixes ending fns ty ts ty' fns' rest) {before : List Token} {w : WrittenType}
    (hw : OfType before w) (ha : w.isArray = ty.isArray) :
    ∃ pre w', ts = pre ++ rest ∧ OfType (before ++ pre) w' :=
  match h with
  | .stop => ⟨[], w, rfl, by rwa [List.append_nil]⟩
  | @ReadsSuffixes.array _ _ _ loc₁ _ _ _ _ p hn hs => by
    obtain ⟨loc₂, loc₃, i, hts, hi, _⟩ := read_bound_gives.mp ⟨p.fewer, hn⟩
    have harray : OfType (before ++ [⟨loc₁, .mark .lbracket⟩, ⟨loc₂, .integer i⟩,
        ⟨loc₃, .mark .rbracket⟩]) _ := .array hw hi
    obtain ⟨pre, w', hrest, hw'⟩ := hs.derives harray rfl
    rw [List.append_assoc] at hw'
    exact ⟨_, w', by rw [hts, hrest]; rfl, hw'⟩
  | .pointer hp hs => by
    obtain ⟨pre, w', rfl, hw'⟩ := hs.derives (.pointer hw (ha.trans hp)) rfl
    rw [List.append_assoc] at hw'
    exact ⟨_, w', rfl, hw'⟩
  | @ReadsSuffixes.function _ _ _ _ loc _ _ _ _ _ _ hp hs => by
    obtain ⟨pre, loc', params, rfl, hparams⟩ := hp.derives
    have hfunction : OfType
        (before ++ ⟨loc, .mark .lparen⟩ :: (pre ++ [⟨loc', .mark .rparen⟩])) _ :=
      .function hw hparams
    obtain ⟨pre', w', rfl, hw'⟩ := hs.derives hfunction rfl
    rw [List.append_assoc] at hw'
    refine ⟨_, w', ?_, hw'⟩
    simp only [List.cons_append, List.append_assoc, List.nil_append]

theorem ReadsParams.derives {fns fns' : List FunctionType} {ts rest : List Token}
    {params : List Parameter} (h : ReadsParams ending fns ts params fns' rest) :
    ∃ pre loc ps, ts = pre ++ ⟨loc, .mark .rparen⟩ :: rest ∧ Params pre ps :=
  match h with
  | .none => ⟨[], _, [], rfl, .none⟩
  | @ReadsParams.first _ _ _ _ loc _ name _ _ _ _ ht hm => by
    obtain ⟨pre, w, rfl, hw⟩ := ht.derives
    obtain ⟨pre', loc', ps, rfl, hps⟩ := hm.derives
    refine ⟨pre ++ ⟨loc, .identifier name⟩ :: pre', loc', _, ?_, .some hw hps⟩
    rw [List.append_assoc, List.cons_append]

theorem ReadsMore.derives {fns fns' : List FunctionType} {ts rest : List Token}
    {params : List Parameter} (h : ReadsMore ending fns ts params fns' rest) :
    ∃ pre loc ps, ts = pre ++ ⟨loc, .mark .rparen⟩ :: rest ∧ MoreParams pre ps :=
  match h with
  | .none => ⟨[], _, [], rfl, .nil⟩
  | @ReadsMore.next _ _ _ _ loc comma _ name _ _ _ _ ht hm => by
    obtain ⟨pre, w, rfl, hw⟩ := ht.derives
    obtain ⟨pre', loc', ps, rfl, hps⟩ := hm.derives
    refine ⟨⟨comma, .mark .comma⟩ :: (pre ++ ⟨loc, .identifier name⟩ :: pre'), loc', _, ?_,
      .cons hw hps⟩
    rw [List.cons_append, List.append_assoc, List.cons_append]

end

end Derivation

theorem of_type_of_read {ending : Ending} {fns : List FunctionType} {ts rest : List Token}
    {v : WithFunctions Ty} (h : (read ending fns ts).Gives v rest) :
    ∃ pre w, ts = pre ++ rest ∧ OfType pre w := by
  obtain ⟨h₁, hr⟩ := h
  exact ((reads_of_read ending).1 fns ts _ hr).derives

end Ty

end DataLayout
