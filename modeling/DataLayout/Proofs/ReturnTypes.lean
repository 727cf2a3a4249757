import DataLayout.Proofs.Declarators

/-!
# What the definition of a function type tells

In the definition of a function type a header has the base and the stars of the type that is
returned, but not its bounds. A base is named by a word of C, by the name of a struct or by the name
that its file gives to a function type. Where structs have none of the other names, the text stands
for what is left of the type without its array layers.
-/

set_option autoImplicit false

namespace DataLayout
open Grammar Lexeme

/-! ## Plain types without their array layers -/

namespace PlainType

def core : PlainType → PlainType
  | .array p _ => p.core
  | p => p

def pointers : Nat → PlainType → PlainType
  | 0, p => p
  | m + 1, p => .pointer (pointers m p)

def IsBase : PlainType → Prop
  | .pointer _ | .array _ _ => False
  | .primitive _ | .void | .struct _ | .function _ _ => True

theorem core_pointers {p : PlainType} (hp : p.IsBase) (m : Nat) :
    (pointers m p).core = pointers m p := by
  cases m with
  | zero =>
    cases p with
    | pointer | array => cases hp
    | primitive | void | struct | function => simp [pointers, core]
  | succ m => simp [pointers, core]

theorem pointers_inj {p q : PlainType} (hp : p.IsBase) (hq : q.IsBase) {m n : Nat} :
    pointers m p = pointers n q ↔ m = n ∧ p = q := by
  refine ⟨fun h => ?_, fun h => h.1 ▸ h.2 ▸ rfl⟩
  induction m generalizing n with
  | zero =>
    cases n with
    | zero => exact ⟨rfl, h⟩
    | succ n =>
      rw [pointers, pointers] at h
      rw [h] at hp
      cases hp
  | succ m ih =>
    cases n with
    | zero =>
      rw [pointers, pointers] at h
      rw [← h] at hq
      cases hq
    | succ n =>
      obtain ⟨rfl, hpq⟩ := ih (PlainType.pointer.inj h)
      exact ⟨rfl, hpq⟩

end PlainType

section Unfolding

variable {fns : List FunctionType}

theorem Base.is_base_of_unfolds {b : Base} {q : PlainType} (h : b.ty.Unfolds fns q) : q.IsBase := by
  cases b <;> cases h <;> trivial

theorem Layers.core_of_unfolds {l : Layers} {p : PlainType} (h : l.ty.Unfolds fns p) :
    ∃ q, l.base.ty.Unfolds fns q ∧ p.core = q.pointers l.stars := by
  obtain ⟨ns, m, base⟩ := l
  induction ns generalizing p with
  | nil =>
    have hstars : ∃ q, base.ty.Unfolds fns q ∧ p = q.pointers m := by
      induction m generalizing p with
      | zero => exact ⟨p, h, rfl⟩
      | succ m ih =>
        cases h with
        | pointer h =>
          obtain ⟨q, hq, rfl⟩ := ih h
          exact ⟨q, hq, rfl⟩
    obtain ⟨q, hq, rfl⟩ := hstars
    exact ⟨q, hq, PlainType.core_pointers (Base.is_base_of_unfolds hq) m⟩
  | cons n ns ih =>
    cases h with
    | array h =>
      obtain ⟨q, hq, hcore⟩ := ih h
      rw [PlainType.core]
      exact ⟨q, hq, hcore⟩

end Unfolding

/-! ## The names of bases -/

section Stars

variable {a b : List Char} {m n : Nat}

theorem get_last?_append_stars (a : List Char) (n : Nat) :
    (a ++ List.replicate (n + 1) '*').getLast? = some '*' := by
  rw [List.replicate_succ', ← List.append_assoc, List.getLast?_concat]

theorem append_stars_inj (ha : a.getLast? ≠ some '*') (hb : b.getLast? ≠ some '*') :
    a ++ List.replicate m '*' = b ++ List.replicate n '*' ↔ a = b ∧ m = n := by
  refine ⟨fun h => ?_, fun h => h.1 ▸ h.2 ▸ rfl⟩
  induction m generalizing n with
  | zero =>
    cases n with
    | zero => simpa using h
    | succ n =>
      rw [List.replicate_zero, List.append_nil] at h
      exact absurd (h ▸ get_last?_append_stars b n) ha
  | succ m ih =>
    cases n with
    | zero =>
      rw [List.replicate_zero, List.append_nil] at h
      exact absurd (h ▸ get_last?_append_stars a m) hb
    | succ n =>
      rw [List.replicate_succ', List.replicate_succ', ← List.append_assoc, ← List.append_assoc,
        List.append_left_inj] at h
      obtain ⟨hab, rfl⟩ := ih h
      exact ⟨hab, rfl⟩

end Stars

namespace Primitive

theorem c_name_injective {p q : Primitive} (h : p.cName = q.cName) : p = q := by
  cases p <;> cases q <;> first | rfl | exact absurd h (by decide)

theorem c_name_ne_void (p : Primitive) : p.cName ≠ "void" := by cases p <;> decide

theorem head?_c_name (p : Primitive) : p.cName.toList.head? ≠ some '_' := by cases p <;> decide

end Primitive

namespace CompilationUnit

variable {u : CompilationUnit}

/-- No struct is named like a scalar type of C or like a function type of the file. -/
def NamesApart (u : CompilationUnit) : Prop :=
  ∀ s ∈ u.structs, (∀ p : Primitive, s.name ≠ p.cName) ∧
    ∀ k < u.localFunctions.length, s.name ≠ u.aliasAt k

theorem head?_alias_at (u : CompilationUnit) (k : Nat) : (u.aliasAt k).toList.head? = some '_' := by
  simp [aliasAt, Header.aliasStem]

theorem ne_alias_at {name : String} (h : name.toList.head? ≠ some '_') (k : Nat) :
    name ≠ u.aliasAt k := by
  rintro rfl
  exact h (u.head?_alias_at k)

theorem names_apart_of_is_upper (h : ∀ s ∈ u.structs, s.name.toList.head?.any Char.isUpper = true) :
    u.NamesApart := by
  intro s hs
  have hupper := h s hs
  refine ⟨fun p heq => ?_, fun k _ heq => ?_⟩
  · rw [heq] at hupper
    cases p <;> exact absurd hupper (by decide)
  · rw [heq, u.head?_alias_at] at hupper
    exact absurd hupper (by decide)

theorem get_last?_alias_at (u : CompilationUnit) (k : Nat) :
    (u.aliasAt k).toList.getLast? ≠ some '*' := by
  intro hlast
  obtain ⟨hne, hdigit, _⟩ := numeral_repr k
  rw [aliasAt, String.toList_append, Nat.toString_eq_repr,
    List.getLast?_append_of_ne_nil _ hne] at hlast
  exact absurd (hdigit '*' (List.mem_of_getLast? hlast)) (by decide)

end CompilationUnit

namespace Base

variable {u : CompilationUnit} {b b' : Base} {name : String}

/-- The base, if it is a struct, is one of the unit and has a name that can be written. -/
def Known (u : CompilationUnit) : Base → Prop
  | .struct r => (Symbol.identifier r.name).Writable ∧ ∃ s ∈ u.structs, s.name = r.name
  | .primitive _ | .void | .function _ => True

theorem get_last?_of_c_name (hb : b.Known u) (h : b.cName? u = some name) :
    name.toList.getLast? ≠ some '*' := by
  cases b with
  | primitive p =>
    cases Option.some.inj h
    cases p <;> decide
  | void =>
    cases Option.some.inj h
    decide
  | struct r =>
    cases Option.some.inj h
    intro hlast
    have hpart := Lexeme.all_is_word_part hb.1.1 '*' (List.mem_of_getLast? hlast)
    exact absurd hpart (by decide)
  | function id =>
    obtain ⟨_, rfl, _⟩ := c_name?_function h
    exact u.get_last?_alias_at _

theorem Known.name_ne {r : StructRef} (h : (struct r).Known u) (hn : u.NamesApart) :
    (∀ p : Primitive, r.name ≠ p.cName) ∧ r.name ≠ "void" ∧
      ∀ k < u.localFunctions.length, r.name ≠ u.aliasAt k := by
  obtain ⟨⟨_, hkeyword, _⟩, s, hs, hname⟩ := h
  obtain ⟨hprimitive, halias⟩ := hn s hs
  rw [hname] at hprimitive halias
  exact ⟨hprimitive, (hkeyword .void).symm, halias⟩

theorem same_of_c_name (hn : u.NamesApart) (hb : b.Known u) (hb' : b'.Known u)
    (h : b.cName? u = some name) (h' : b'.cName? u = some name) :
    b.ty.function? = b'.ty.function? ∧
      ∀ q, b.ty.Unfolds u.functions q → b'.ty.Unfolds u.functions q := by
  -- names of different kinds are different: no word of C starts with an underscore, as the names of
  -- function types do, no struct is named by the keyword `void`, and the rest is assumed of structs
  cases b with
  | primitive p =>
    obtain rfl : p.cName = name := Option.some.inj h
    cases b' with
    | primitive p' =>
      obtain rfl := Primitive.c_name_injective (Option.some.inj h')
      exact ⟨rfl, fun _ hq => hq⟩
    | void => exact absurd (Option.some.inj h').symm p.c_name_ne_void
    | struct r' => exact absurd (Option.some.inj h') ((hb'.name_ne hn).1 p)
    | function id' =>
      exact absurd (c_name?_function h').2.1 (CompilationUnit.ne_alias_at p.head?_c_name _)
  | void =>
    obtain rfl : "void" = name := Option.some.inj h
    cases b' with
    | primitive p' => exact absurd (Option.some.inj h') p'.c_name_ne_void
    | void => exact ⟨rfl, fun _ hq => hq⟩
    | struct r' => exact absurd (Option.some.inj h') (hb'.name_ne hn).2.1
    | function id' =>
      exact absurd (c_name?_function h').2.1 (CompilationUnit.ne_alias_at (by decide) _)
  | struct r =>
    obtain rfl : r.name = name := Option.some.inj h
    obtain ⟨hprimitive, hvoid, halias⟩ := hb.name_ne hn
    cases b' with
    | primitive p' => exact absurd (Option.some.inj h').symm (hprimitive p')
    | void => exact absurd (Option.some.inj h').symm hvoid
    | struct r' =>
      refine ⟨rfl, fun q hq => ?_⟩
      cases hq
      rw [← Option.some.inj h']
      exact .struct
    | function id' =>
      obtain ⟨hlt, heq, _⟩ := c_name?_function h'
      exact absurd heq (halias _ hlt)
  | function id =>
    obtain ⟨hlt, rfl, f, hf, hown⟩ := c_name?_function h
    cases b' with
    | primitive p' =>
      exact absurd (Option.some.inj h') (CompilationUnit.ne_alias_at p'.head?_c_name _)
    | void => exact absurd (Option.some.inj h') (CompilationUnit.ne_alias_at (by decide) _)
    | struct r' => exact absurd (Option.some.inj h') ((hb'.name_ne hn).2.2 _ hlt)
    | function id' =>
      obtain ⟨_, heq, f', hf', hown'⟩ := c_name?_function h'
      obtain rfl : id = id' := own_rank_injective hf hown hf' hown' (u.alias_at_injective heq)
      exact ⟨rfl, fun _ hq => hq⟩

theorem c_name?_congr {q : PlainType} (h : b.ty.Unfolds u.functions q)
    (h' : b'.ty.Unfolds u.functions q) (hid : b.ty.function? = b'.ty.function?) :
    b.cName? u = b'.cName? u := by
  cases b with
  | primitive p =>
    cases h
    cases b' <;> cases h'
    rfl
  | void =>
    cases h
    cases b' <;> cases h'
    rfl
  | struct r =>
    cases h
    cases b' with
    | struct r' =>
      have hname : r.name = r'.name := PlainType.struct.inj (Ty.Unfolds.struct.unique h')
      rw [cName?, cName?, hname]
    | primitive | void | function => cases h'
  | function id =>
    cases b' <;> cases hid
    rfl

end Base

theorem Layers.text_eq_iff {u : CompilationUnit} (hn : u.NamesApart) {l l' : Layers}
    (hb : l.base.Known u) (hb' : l'.base.Known u) {name name' : String}
    (h : l.base.cName? u = some name) (h' : l'.base.cName? u = some name') {p p' : PlainType}
    (hp : l.ty.Unfolds u.functions p) (hp' : l'.ty.Unfolds u.functions p') :
    name ++ String.ofList (List.replicate l.stars '*') =
        name' ++ String.ofList (List.replicate l'.stars '*') ↔
      p.core = p'.core ∧ l.ty.function? = l'.ty.function? := by
  obtain ⟨q, hq, hcore⟩ := core_of_unfolds hp
  obtain ⟨q', hq', hcore'⟩ := core_of_unfolds hp'
  have htext : name ++ String.ofList (List.replicate l.stars '*') =
        name' ++ String.ofList (List.replicate l'.stars '*') ↔
      name = name' ∧ l.stars = l'.stars := by
    rw [← String.toList_inj, String.toList_append, String.toList_append, String.toList_ofList,
      String.toList_ofList, append_stars_inj (Base.get_last?_of_c_name hb h)
        (Base.get_last?_of_c_name hb' h'), String.toList_inj]
  rw [htext, hcore, hcore', PlainType.pointers_inj (Base.is_base_of_unfolds hq)
    (Base.is_base_of_unfolds hq'), l.function?_ty, l'.function?_ty]
  constructor
  · rintro ⟨rfl, hstars⟩
    obtain ⟨hid, hunfolds⟩ := Base.same_of_c_name hn hb hb' h h'
    exact ⟨⟨hstars, hq'.unique (hunfolds q hq)⟩, hid⟩
  · rintro ⟨⟨hstars, rfl⟩, hid⟩
    rw [Base.c_name?_congr hq hq' hid, h'] at h
    exact ⟨(Option.some.inj h).symm, hstars⟩

/-! ## The definitions in a header -/

/-- A text and a plain type for what a function type of the file returns. The text stands in the
definition of the function type, before its name. -/
structure CompilationUnit.DefinesReturn (u : CompilationUnit) (lines : List String) (k : Nat)
    (f : FunctionType) (text : String) (p : PlainType) : Prop where
  layers : ∃ (l : Layers) (name : String), l.ty = f.returns ∧ l.base.Known u ∧
    l.base.cName? u = some name ∧ text = name ++ String.ofList (List.replicate l.stars '*')
  unfolds : f.returns.Unfolds u.functions p
  line : ∃ ds : List CDeclaration, List.Forall₂ (fun p d => d.For u p.name p.ty) f.params ds ∧
    "typedef " ++ text ++ " " ++ u.aliasAt k ++ "(" ++
      ", ".intercalate (ds.map CDeclaration.text) ++ ");" ∈ lines

theorem Grammar.OfType.writable_ref {ts : List Token} {w : WrittenType} (h : OfType ts w)
    (hts : ∀ t ∈ ts, t.value.Writable) {fns : List FunctionType} {t : Ty}
    (ht : t.Unfolds fns w.plain) {r : StructRef} (hr : t.ref? = some r) :
    (Symbol.identifier r.name).Writable :=
  match h with
  | .primitive | .void | .function _ _ => by
    rw [WrittenType.plain] at ht
    cases ht
    cases hr
  | .struct => by
    rw [WrittenType.plain] at ht
    cases ht
    cases hr
    exact hts _ List.mem_cons_self
  | .array h _ => by
    rw [WrittenType.plain] at ht
    cases ht with
    | array ht => exact h.writable_ref (List.forall_mem_append.mp hts).1 ht hr
  | .pointer h _ => by
    rw [WrittenType.plain] at ht
    cases ht with
    | pointer ht => exact h.writable_ref (List.forall_mem_append.mp hts).1 ht hr

namespace Obtained

variable {sources : Sources} {u : CompilationUnit}

theorem base_known (h : Obtained sources u) (hr : u.resolved = true) {l : Layers}
    (hl : l.ty ∈ u.types) : l.base.Known u := by
  cases hb : l.base with
  | primitive | void | function => trivial
  | struct r =>
    have href : l.ty.ref? = some r := by
      rw [l.eq_base (g := Ty.ref?) (fun _ => rfl) fun _ _ => rfl, hb]
      rfl
    obtain ⟨w, hunfolds, ts, hw, hts⟩ := h.in_text l.ty hl
    obtain ⟨u₀, extent, hres⟩ := h.resolved_as hr
    have hbound := CompilationUnit.forall_mem_refs.mp (CompilationUnit.bound_iff.mp hres.bound)
    obtain ⟨i, s, _, hs, hname⟩ := hbound l.ty hl r href
    exact ⟨hw.writable_ref hts hunfolds href, s, List.mem_of_getElem? hs, hname⟩

theorem exists_defines_return (h : Obtained sources u) (hr : u.resolved = true)
    {lines : List String} (hlines : Header.lines u = .ok lines) (k : Nat) :
    ∃ (text : String) (p : PlainType), ∀ f, u.localFunctions[k]? = some f →
      u.DefinesReturn lines k f text p := by
  cases hk : u.localFunctions[k]? with
  | none => exact ⟨"", .void, fun f hf => by cases hf⟩
  | some f =>
    obtain ⟨d, ds, hd, hds, hline⟩ := h.exists_typedef hlines hk
    obtain ⟨base, hname, hl⟩ := hd.layers
    have hmem := (CompilationUnit.mem_local_functions.mp (List.mem_of_getElem? hk)).1
    have ht : f.returns ∈ u.types := CompilationUnit.signature_mem_types hmem List.mem_cons_self
    obtain ⟨w, hunfolds, _⟩ := h.in_text f.returns ht
    refine ⟨d.specifier ++ String.ofList (List.replicate d.stars '*'), w.plain, fun g hg => ?_⟩
    cases hg
    exact ⟨⟨_, _, hl.symm, h.base_known hr (hl ▸ ht), hname, rfl⟩, hunfolds, ds, hds, hline⟩

/-- The header of a resolved unit has a definition for each function type of the file, with a text
for the type that is returned. Where no struct has a name that the header needs for something else,
two of these texts are the same just if the types that are returned are the same inside their array
layers and mention the same function type. -/
theorem typedefs_tell_returns (h : Obtained sources u) (hr : u.resolved = true)
    (hn : u.NamesApart) :
    ∃ (lines : List String) (text : Nat → String) (plain : Nat → PlainType),
      Header.lines u = .ok lines ∧ Format.cheader.text u = .ok (unlines lines) ∧
      (∀ (k : Nat) (f : FunctionType), u.localFunctions[k]? = some f →
        f.returns.Unfolds u.functions (plain k) ∧ ∃ ds : List CDeclaration,
          List.Forall₂ (fun p d => d.For u p.name p.ty) f.params ds ∧
          "typedef " ++ text k ++ " " ++ u.aliasAt k ++ "(" ++
            ", ".intercalate (ds.map CDeclaration.text) ++ ");" ∈ lines) ∧
      ∀ (j k : Nat) (f g : FunctionType), u.localFunctions[j]? = some f →
        u.localFunctions[k]? = some g →
        (text j = text k ↔
          (plain j).core = (plain k).core ∧ f.returns.function? = g.returns.function?) := by
  obtain ⟨lines, hlines, hheader⟩ := h.exists_header_text hr
  choose text plain hdefines using h.exists_defines_return hr hlines
  refine ⟨lines, text, plain, hlines, hheader, fun k f hk => ?_, fun j k f g hj hk => ?_⟩
  · exact ⟨(hdefines k f hk).unfolds, (hdefines k f hk).line⟩
  · obtain ⟨⟨l, name, hl, hb, hname, htext⟩, hunfolds, _⟩ := hdefines j f hj
    obtain ⟨⟨l', name', hl', hb', hname', htext'⟩, hunfolds', _⟩ := hdefines k g hk
    rw [← hl] at hunfolds ⊢
    rw [← hl'] at hunfolds' ⊢
    rw [htext, htext']
    exact Layers.text_eq_iff hn hb hb' hname hname' hunfolds hunfolds'

/-- A file whose function types return an array of pointers, a number, a pointer to a function and
a pointer to a pointer. -/
def returningSource : Source := ⟨"a", "a", "struct S\x7bS*[2]()*f;u8()*()*g;S**()*h;\x7d"⟩

def returningUnit : CompilationUnit :=
  let here : Location := ⟨"a", 1⟩
  { CompilationUnit.empty "a" with
    structs := [⟨here, "S", [⟨here, "f", .pointer (.function 0), none⟩,
      ⟨here, "g", .pointer (.function 2), none⟩, ⟨here, "h", .pointer (.function 3), none⟩],
      false, none⟩]
    functions := [⟨here, .array (.pointer (.struct ⟨here, "S", none⟩)) 2, [], false⟩,
      ⟨here, .primitive .u8, [], false⟩, ⟨here, .pointer (.function 1), [], false⟩,
      ⟨here, .pointer (.pointer (.struct ⟨here, "S", none⟩)), [], false⟩] }

def returningResolved : CompilationUnit :=
  let here : Location := ⟨"a", 1⟩
  { returningUnit with
    structs := [⟨here, "S", [⟨here, "f", .pointer (.function 0), some 0⟩,
      ⟨here, "g", .pointer (.function 2), some 4⟩, ⟨here, "h", .pointer (.function 3), some 8⟩],
      false, some ⟨12, 2⟩⟩]
    functions := [⟨here, .array (.pointer (.struct ⟨here, "S", some 0⟩)) 2, [], false⟩,
      ⟨here, .primitive .u8, [], false⟩, ⟨here, .pointer (.function 1), [], false⟩,
      ⟨here, .pointer (.pointer (.struct ⟨here, "S", some 0⟩)), [], false⟩]
    resolved := true }

theorem typedefs_tell_returns_pointers :
    ∃ (u : CompilationUnit) (lines : List String) (text : Nat → String),
    Obtained MemorySources.empty.sources u ∧ u.resolved = true ∧ u.NamesApart ∧
    Header.lines u = .ok lines ∧ u.localFunctions.length = 4 ∧ text 0 ≠ text 3 ∧
    ∀ k < 4, ∃ params,
      "typedef " ++ text k ++ " " ++ u.aliasAt k ++ "(" ++ params ++ ");" ∈ lines := by
  have hload : ((Loader.ofSources MemorySources.empty.sources).load returningSource).1.toOption =
      some returningUnit := by decide +kernel
  have hresolve : decide (returningUnit.resolve.state = returningResolved) = true := by cbv
  have hu := of_load hload (of_decide_eq_true hresolve)
  have hn : returningResolved.NamesApart := CompilationUnit.names_apart_of_is_upper (by decide)
  obtain ⟨lines, text, plain, hlines, _, hdefined, htell⟩ := hu.typedefs_tell_returns rfl hn
  have hfirst : plain 0 = .array (.pointer (.struct "S")) 2 :=
    Ty.Unfolds.unique (.array (.pointer .struct)) (hdefined 0 _ rfl).1
  have hlast : plain 3 = .pointer (.pointer (.struct "S")) :=
    Ty.Unfolds.unique (.pointer (.pointer .struct)) (hdefined 3 _ rfl).1
  refine ⟨_, lines, text, hu, rfl, hn, hlines, rfl, fun htext => ?_, fun k hk => ?_⟩
  · have hcore := ((htell 0 3 _ _ rfl rfl).mp htext).1
    rw [hfirst, hlast] at hcore
    simp [PlainType.core] at hcore
  · obtain ⟨_, ds, _, hline⟩ := hdefined k _ (List.getElem?_eq_getElem hk)
    exact ⟨_, hline⟩

/-- A file with two function types, of which one returns an array and the other its element. -/
def boundedSource : Source := ⟨"a", "a", "struct S\x7bu8[2]()*f;u8()*g;\x7d"⟩

def boundedUnit : CompilationUnit :=
  let here : Location := ⟨"a", 1⟩
  { CompilationUnit.empty "a" with
    structs := [⟨here, "S", [⟨here, "f", .pointer (.function 0), none⟩,
      ⟨here, "g", .pointer (.function 1), none⟩], false, none⟩]
    functions := [⟨here, .array (.primitive .u8) 2, [], false⟩, ⟨here, .primitive .u8, [], false⟩] }

def boundedResolved : CompilationUnit :=
  let here : Location := ⟨"a", 1⟩
  { boundedUnit with
    structs := [⟨here, "S", [⟨here, "f", .pointer (.function 0), some 0⟩,
      ⟨here, "g", .pointer (.function 1), some 4⟩], false, some ⟨8, 2⟩⟩]
    resolved := true }

/-- Two function types that return different types have definitions with the same text for them: the
bound of an array that is returned is not in the header. -/
theorem typedefs_drop_bounds : ∃ u lines f g p q, Obtained MemorySources.empty.sources u ∧
    u.resolved = true ∧ u.NamesApart ∧ Header.lines u = .ok lines ∧
    u.localFunctions = [f, g] ∧ f.returns.Unfolds u.functions p ∧
    g.returns.Unfolds u.functions q ∧ p ≠ q ∧
    "typedef unsigned char " ++ u.aliasAt 0 ++ "();" ∈ lines ∧
    "typedef unsigned char " ++ u.aliasAt 1 ++ "();" ∈ lines := by
  have hload : ((Loader.ofSources MemorySources.empty.sources).load boundedSource).1.toOption =
      some boundedUnit := by decide +kernel
  have hresolve : decide (boundedUnit.resolve.state = boundedResolved) = true := by cbv
  have hu := of_load hload (of_decide_eq_true hresolve)
  have hn : boundedResolved.NamesApart := CompilationUnit.names_apart_of_is_upper (by decide)
  have hrun : ((Header.lines boundedResolved).toOption.any fun lines =>
      lines.contains ("typedef unsigned char " ++ boundedResolved.aliasAt 0 ++ "();") &&
      lines.contains ("typedef unsigned char " ++ boundedResolved.aliasAt 1 ++ "();")) = true := by
    decide +kernel
  obtain ⟨lines, hlines, hmem⟩ := (Option.any_eq_true _ _).mp hrun
  rw [Bool.and_eq_true, List.contains_iff_mem, List.contains_iff_mem] at hmem
  exact ⟨_, lines, _, _, _, _, hu, rfl, hn, except_to_option_eq_some.mp hlines, rfl,
    .array .primitive, .primitive, by simp, hmem.1, hmem.2⟩

end Obtained

end DataLayout
