import DataLayout.Proofs.AliasOrder
import DataLayout.Proofs.TypeShapes

/-!
# Declarations of C

A declaration of C is the name of a type and a declarator, which is the declared name with stars
before it and bounds behind it. Bounds bind tighter than stars, and the part of a declarator that
binds least is applied to the type first. So the bound next to the name is the length of the
outermost array, and there is no array below a pointer. Types of a unit have this shape, and C reads
the declarations in a header as the types that were written.
-/

set_option autoImplicit false

namespace DataLayout

inductive CType where
  | named (name : String)
  | pointer (target : CType)
  | array (element : CType) (length : Nat)

namespace CType

def pointers : Nat → CType → CType
  | 0, t => t
  | m + 1, t => .pointer (pointers m t)

def arrays : List Nat → CType → CType
  | [], t => t
  | n :: ns, t => .array (arrays ns t) n

theorem pointers_pointer (m : Nat) (t : CType) : pointers m (.pointer t) = pointers (m + 1) t := by
  induction m with
  | zero => rfl
  | succ m ih => exact congrArg pointer ih

end CType

inductive CDeclarator where
  | name (text : String)
  | star (d : CDeclarator)
  | bound (d : CDeclarator) (n : Nat)

namespace CDeclarator

/-- What the declared name is, if what the whole declarator stands for is of the given type. -/
def declares : CDeclarator → CType → CType
  | .name _, t => t
  | .star d, t => d.declares (.pointer t)
  | .bound d n, t => d.declares (.array t n)

def stars : Nat → CDeclarator → CDeclarator
  | 0, d => d
  | m + 1, d => .star (stars m d)

theorem declares_stars (m : Nat) (d : CDeclarator) (t : CType) :
    (stars m d).declares t = d.declares (.pointers m t) := by
  induction m generalizing t with
  | zero => rfl
  | succ m ih => rw [stars, declares, ih, CType.pointers_pointer]

theorem declares_bounds (ns : List Nat) (d : CDeclarator) (t : CType) :
    (ns.foldl bound d).declares t = d.declares (.arrays ns t) := by
  induction ns generalizing d with
  | nil => rfl
  | cons n ns ih => rw [List.foldl_cons, ih, declares, CType.arrays]

end CDeclarator

structure CDeclaration where
  specifier : String
  stars : Nat
  name : String
  bounds : List Nat

namespace CDeclaration

/-- The stars stand behind the name of the type, which makes no difference to C. -/
def text (d : CDeclaration) : String :=
  d.specifier ++ String.ofList (List.replicate d.stars '*') ++ " " ++ d.name
    ++ String.join (d.bounds.map fun n => "[" ++ toString n ++ "]")

/-- The declarator without the blank: stars around bounds around the name. -/
def declarator (d : CDeclaration) : CDeclarator :=
  .stars d.stars (d.bounds.foldl .bound (.name d.name))

def type (d : CDeclaration) : CType := d.declarator.declares (.named d.specifier)

theorem type_eq (d : CDeclaration) :
    d.type = .arrays d.bounds (.pointers d.stars (.named d.specifier)) := by
  rw [type, declarator, CDeclarator.declares_stars, CDeclarator.declares_bounds]
  rfl

end CDeclaration

def Primitive.cName (p : Primitive) : String :=
  if p.isIntegral then
    (if p.isSigned then "signed " else "unsigned ") ++
      (if p.size = 1 then "char" else if p.size = 2 then "short" else "int")
  else if p.size = 4 then "float" else "double"

theorem Header.primitive_eq (p : Primitive) : primitive p = p.cName := by cases p <;> rfl

/-- The name that C has for a base. A function type of the file itself is named by its number among
those of the file. -/
def Base.cName? (u : CompilationUnit) : Base → Option String
  | .primitive p => some p.cName
  | .void => some "void"
  | .struct r => some r.name
  | .function id => (u.functions[id]?).bind fun f =>
      if f.included then none else some (u.aliasAt (ownRank u.functions id))

theorem Base.c_name?_function {u : CompilationUnit} {id : Nat} {name : String}
    (h : (function id).cName? u = some name) :
    ownRank u.functions id < u.localFunctions.length ∧
      name = u.aliasAt (ownRank u.functions id) ∧
      ∃ f, u.functions[id]? = some f ∧ f.included = false := by
  obtain ⟨f, hf, h⟩ := Option.bind_eq_some_iff.mp h
  split_ifs at h with hi
  have hown : f.included = false := by simpa using hi
  exact ⟨own_rank_lt_length hf hown, (Option.some.inj h).symm, f, hf, hown⟩

def Ty.cType? (u : CompilationUnit) : Ty → Option CType
  | .primitive p => ((Base.primitive p).cName? u).map .named
  | .void => (Base.void.cName? u).map .named
  | .struct r => ((Base.struct r).cName? u).map .named
  | .pointer t => (t.cType? u).map .pointer
  | .array t n => (t.cType? u).map (.array · n)
  | .function id => ((Base.function id).cName? u).map .named

/-- The declaration is one for the name and the type. The type is the bounds around the stars around
a base that the specifier names, and C reads it as the type. -/
structure CDeclaration.For (u : CompilationUnit) (name : String) (t : Ty) (d : CDeclaration) :
    Prop where
  name : d.name = name
  layers : ∃ base : Base, base.cName? u = some d.specifier ∧
    t = Layers.ty ⟨d.bounds, d.stars, base⟩
  read : t.cType? u = some d.type

namespace Layers

variable {u : CompilationUnit} {l : Layers} {name : String}

theorem eq_base {α : Type} {g : Ty → α} (hp : ∀ t, g (.pointer t) = g t)
    (ha : ∀ t n, g (.array t n) = g t) (l : Layers) : g l.ty = g l.base.ty := by
  obtain ⟨ns, m, base⟩ := l
  induction ns with
  | nil =>
    induction m with
    | zero => rfl
    | succ m ih => exact (hp _).trans ih
  | cons n ns ih => exact (ha _ n).trans ih

theorem function?_ty (l : Layers) : l.ty.function? = l.base.ty.function? :=
  l.eq_base (fun _ => rfl) fun _ _ => rfl

theorem c_type?_ty (h : l.base.cName? u = some name) :
    l.ty.cType? u = some (.arrays l.bounds (.pointers l.stars (.named name))) := by
  obtain ⟨ns, m, base⟩ := l
  induction ns with
  | nil =>
    induction m with
    | zero => cases base <;> exact congrArg (Option.map CType.named) h
    | succ m ih => exact congrArg (Option.map CType.pointer) (ih h)
  | cons n ns ih => exact congrArg (Option.map (CType.array · n)) (ih h)

theorem before_base {base : Base} (h : base.cName? u = some name) :
    Header.before u.aliases base.ty = .ok name := by
  cases base with
  | primitive p =>
    rw [Base.ty, Header.before, Header.primitive_eq]
    exact congrArg Except.ok (Option.some.inj h)
  | void | struct => exact congrArg Except.ok (Option.some.inj h)
  | function id =>
    obtain ⟨f, hf, h⟩ := Option.bind_eq_some_iff.mp h
    split_ifs at h with hi
    have halias : u.aliases[id]? = some (some name) := by
      rw [Header.aliases_get_elem?, hf, Option.map_some, if_neg hi, Nat.zero_add]
      exact congrArg some h
    rw [Base.ty, Header.before, halias]

theorem before_ty (h : l.base.cName? u = some name) :
    Header.before u.aliases l.ty = .ok (name ++ String.ofList (List.replicate l.stars '*')) := by
  obtain ⟨ns, m, base⟩ := l
  induction ns with
  | nil =>
    induction m with
    | zero =>
      rw [List.replicate_zero, String.ofList_nil, String.append_empty]
      exact before_base h
    | succ m ih =>
      have hstep : Header.before u.aliases (Layers.ty ⟨[], m + 1, base⟩) =
          (Header.before u.aliases (Layers.ty ⟨[], m, base⟩)).map (· ++ "*") := rfl
      rw [hstep, ih h, List.replicate_succ', String.ofList_append, ← String.append_assoc]
      rfl
  | cons n ns ih => exact ih h

theorem after_ty (l : Layers) :
    Header.after l.ty = String.join (l.bounds.map fun n => "[" ++ toString n ++ "]") := by
  obtain ⟨ns, m, base⟩ := l
  induction ns with
  | nil =>
    cases m with
    | zero => cases base <;> rfl
    | succ m => rfl
  | cons n ns ih =>
    rw [List.map_cons, String.join_cons, ← ih]
    rfl

theorem declare_ty (h : l.base.cName? u = some name) (x : String) :
    Header.declare u.aliases l.ty x = .ok (CDeclaration.text ⟨name, l.stars, x, l.bounds⟩) := by
  rw [Header.declare, before_ty h, after_ty]
  rfl

theorem exists_c_name (h : l.ty.MentionsIn u.functions false) :
    ∃ name, l.base.cName? u = some name := by
  cases hb : l.base with
  | primitive | void | struct => exact ⟨_, rfl⟩
  | function id =>
    have hid : l.ty.function? = some id := by
      rw [l.function?_ty, hb]
      rfl
    obtain ⟨f, hf, hown⟩ := h id hid
    exact ⟨u.aliasAt (ownRank u.functions id), by
      rw [Base.cName?, hf, Option.bind_some, hown]
      rfl⟩

end Layers

namespace CDeclaration.For

variable {u : CompilationUnit} {name : String} {t : Ty} {d : CDeclaration}

theorem before (h : d.For u name t) :
    Header.before u.aliases t =
      .ok (d.specifier ++ String.ofList (List.replicate d.stars '*')) := by
  obtain ⟨base, hname, rfl⟩ := h.layers
  exact Layers.before_ty hname

theorem declare (h : d.For u name t) : Header.declare u.aliases t name = .ok d.text := by
  obtain ⟨base, hname, rfl⟩ := h.layers
  rw [← h.name]
  exact Layers.declare_ty hname d.name

theorem typedef_line {f : FunctionType} {ds : List CDeclaration} (h : d.For u name f.returns)
    (hds : List.Forall₂ (fun p d => d.For u p.name p.ty) f.params ds) :
    Header.typedefLine u.aliases f name =
      .ok ("typedef " ++ (d.specifier ++ String.ofList (List.replicate d.stars '*')) ++ " " ++
        name ++ "(" ++ ", ".intercalate (ds.map CDeclaration.text) ++ ");") := by
  have hparams : (f.params.mapM fun p => Header.declare u.aliases p.ty p.name) =
      .ok (ds.map CDeclaration.text) :=
    map_m_eq_ok.mpr (List.forall₂_map_right_iff.mpr (hds.imp fun _ _ hd => hd.declare))
  rw [Header.typedefLine, h.before, hparams]
  rfl

theorem struct_lines {s : Struct} {ds : List CDeclaration}
    (hds : List.Forall₂ (fun f d => d.For u f.name f.ty) s.fields ds) :
    Header.structLines u.aliases s = .ok (["struct " ++ s.name ++ " \x7b"] ++
      ds.map (fun d => "    " ++ d.text ++ ";") ++ ["\x7d;"]) := by
  have hfields : (s.fields.mapM fun f =>
      (Header.declare u.aliases f.ty f.name).map fun d => "    " ++ d ++ ";") =
      .ok (ds.map fun d => "    " ++ d.text ++ ";") := by
    refine map_m_eq_ok.mpr (List.forall₂_map_right_iff.mpr (hds.imp fun f d hd => ?_))
    rw [hd.declare]
    rfl
  rw [Header.structLines, hfields]
  rfl

end CDeclaration.For

theorem exists_forall₂ {α β : Type} {R : α → β → Prop} {as : List α} (h : ∀ a ∈ as, ∃ b, R a b) :
    ∃ bs, List.Forall₂ R as bs := by
  induction as with
  | nil => exact ⟨[], .nil⟩
  | cons a as ih =>
    obtain ⟨⟨b, hb⟩, has⟩ := List.forall_mem_cons.mp h
    obtain ⟨bs, hbs⟩ := ih has
    exact ⟨b :: bs, .cons hb hbs⟩

namespace CompilationUnit

variable {u : CompilationUnit} {lines : List String}

theorem InText.exists_declaration (h : u.InText) {t : Ty} (ht : t ∈ u.types)
    (hm : t.MentionsIn u.functions false) (x : String) : ∃ d : CDeclaration, d.For u x t := by
  obtain ⟨l, rfl⟩ := h.exists_layers ht
  obtain ⟨name, hname⟩ := Layers.exists_c_name hm
  refine ⟨⟨name, l.stars, x, l.bounds⟩, rfl, ⟨l.base, hname, rfl⟩, ?_⟩
  rw [CDeclaration.type_eq]
  exact Layers.c_type?_ty hname

theorem mem_local_functions {f : FunctionType} :
    f ∈ u.localFunctions ↔ f ∈ u.functions ∧ f.included = false := by
  simp [localFunctions]

theorem field_mem_types {s : Struct} (hs : s ∈ u.structs) {f : Field} (hf : f ∈ s.fields) :
    f.ty ∈ u.types :=
  List.mem_append_left _ (List.mem_flatMap.mpr ⟨s, hs, List.mem_map_of_mem hf⟩)

theorem signature_mem_types {f : FunctionType} (hf : f ∈ u.functions) {t : Ty} (ht : t ∈ f.types) :
    t ∈ u.types :=
  List.mem_append_right _ (List.mem_flatMap.mpr ⟨f, hf, ht⟩)

theorem exists_body_infix (h : Header.lines u = .ok lines) {s : Struct} (hs : s ∈ u.localStructs) :
    ∃ body, Header.structLines u.aliases s = .ok body ∧ body <:+: lines := by
  obtain ⟨⟨⟩, _, hrest⟩ := except_bind_eq_ok.mp h
  obtain ⟨typedefs, _, hrest⟩ := except_bind_eq_ok.mp hrest
  obtain ⟨bodies, hb, hrest⟩ := except_bind_eq_ok.mp hrest
  obtain ⟨assertions, _, hrest⟩ := except_bind_eq_ok.mp hrest
  cases hrest
  obtain ⟨body, hmem, hbody⟩ := exists_mem_of_forall₂ (map_m_eq_ok.mp hb) hs
  exact ⟨body, hbody, (List.infix_of_mem_flatten hmem).trans (List.infix_append _ _ _)⟩

theorem exists_typedef_mem (h : Header.lines u = .ok lines) {k : Nat} {f : FunctionType}
    (hk : u.localFunctions[k]? = some f) :
    ∃ line ∈ lines, Header.typedefLine u.aliases f (u.aliasAt k) = .ok line := by
  obtain ⟨⟨⟩, _, hrest⟩ := except_bind_eq_ok.mp h
  obtain ⟨typedefs, ht, hrest⟩ := except_bind_eq_ok.mp hrest
  obtain ⟨bodies, _, hrest⟩ := except_bind_eq_ok.mp hrest
  obtain ⟨assertions, _, hrest⟩ := except_bind_eq_ok.mp hrest
  cases hrest
  have hmem : (f, k) ∈ u.localFunctions.zipIdx := List.mem_zipIdx_iff_getElem?.mpr hk
  obtain ⟨line, hline, htypedef⟩ := exists_mem_of_forall₂ (Header.forall₂_of_typedef_lines ht) hmem
  refine ⟨line, ?_, htypedef⟩
  simp only [List.mem_append]
  exact .inl (.inl (.inr hline))

end CompilationUnit

namespace Obtained

variable {sources : Sources} {u : CompilationUnit}

theorem exists_header_text (h : Obtained sources u) (hr : u.resolved = true) :
    ∃ lines, Header.lines u = .ok lines ∧ Format.cheader.text u = .ok (unlines lines) := by
  obtain ⟨lines, hlines⟩ := (h.complete hr).exists_header hr
  refine ⟨lines, hlines, Format.text_of_lines ?_⟩
  rw [Format.pieces, hlines]
  rfl

theorem exists_field_declarations (h : Obtained sources u) {s : Struct} (hs : s ∈ u.localStructs) :
    ∃ ds : List CDeclaration, List.Forall₂ (fun f d => d.For u f.name f.ty) s.fields ds := by
  obtain ⟨hmem, hown⟩ := CompilationUnit.mem_local_structs.mp hs
  refine exists_forall₂ fun f hf => ?_
  exact h.in_text.exists_declaration (CompilationUnit.field_mem_types hmem hf)
    (hown ▸ h.numbered.fields s hmem f hf) f.name

theorem exists_signature_declaration (h : Obtained sources u) {f : FunctionType}
    (hf : f ∈ u.localFunctions) {t : Ty} (ht : t ∈ f.types) (x : String) :
    ∃ d : CDeclaration, d.For u x t := by
  obtain ⟨hmem, hown⟩ := CompilationUnit.mem_local_functions.mp hf
  exact h.in_text.exists_declaration (CompilationUnit.signature_mem_types hmem ht)
    (hown ▸ h.numbered.functions.mentions f hmem t ht) x

theorem exists_param_declarations (h : Obtained sources u) {f : FunctionType}
    (hf : f ∈ u.localFunctions) :
    ∃ ds : List CDeclaration, List.Forall₂ (fun p d => d.For u p.name p.ty) f.params ds := by
  refine exists_forall₂ fun p hp => ?_
  have ht : p.ty ∈ f.types := List.mem_cons_of_mem _ (List.mem_map_of_mem hp)
  exact h.exists_signature_declaration hf ht p.name

/-- The definition of a function type has the base and the stars of the type it returns, and the
declarations of its parameters. -/
theorem exists_typedef (h : Obtained sources u) {lines : List String}
    (hlines : Header.lines u = .ok lines) {k : Nat} {f : FunctionType}
    (hk : u.localFunctions[k]? = some f) :
    ∃ (d : CDeclaration) (ds : List CDeclaration), d.For u (u.aliasAt k) f.returns ∧
      List.Forall₂ (fun p d => d.For u p.name p.ty) f.params ds ∧
      "typedef " ++ (d.specifier ++ String.ofList (List.replicate d.stars '*')) ++ " " ++
        u.aliasAt k ++ "(" ++ ", ".intercalate (ds.map CDeclaration.text) ++ ");" ∈ lines := by
  have hf : f ∈ u.localFunctions := List.mem_of_getElem? hk
  obtain ⟨d, hd⟩ := h.exists_signature_declaration hf List.mem_cons_self (u.aliasAt k)
  obtain ⟨ds, hds⟩ := h.exists_param_declarations hf
  obtain ⟨line, hline, htypedef⟩ := CompilationUnit.exists_typedef_mem hlines hk
  rw [hd.typedef_line hds] at htypedef
  cases htypedef
  exact ⟨d, ds, hd, hds, hline⟩

/-- The header of a resolved unit has a declaration for each field of a struct of the file, in the
body of the struct, and one for each parameter of a function type of the file, in its definition.
The types of these are array layers around pointer layers around a base. A declaration has the name
of the base, a star for each pointer layer, and behind the declared name the bounds of the array
layers, the outermost first, so that C reads it as the type. -/
theorem header_declares_types (h : Obtained sources u) (hr : u.resolved = true) :
    ∃ lines, Header.lines u = .ok lines ∧ Format.cheader.text u = .ok (unlines lines) ∧
      (∀ s ∈ u.localStructs, ∃ ds : List CDeclaration,
        List.Forall₂ (fun f d => d.For u f.name f.ty) s.fields ds ∧
        ["struct " ++ s.name ++ " \x7b"] ++ ds.map (fun d => "    " ++ d.text ++ ";") ++
          ["\x7d;"] <:+: lines) ∧
      ∀ (k : Nat) (f : FunctionType), u.localFunctions[k]? = some f →
        ∃ (returns : String) (ds : List CDeclaration),
          List.Forall₂ (fun p d => d.For u p.name p.ty) f.params ds ∧
          "typedef " ++ returns ++ " " ++ u.aliasAt k ++ "(" ++
            ", ".intercalate (ds.map CDeclaration.text) ++ ");" ∈ lines := by
  obtain ⟨lines, hlines, htext⟩ := h.exists_header_text hr
  refine ⟨lines, hlines, htext, fun s hs => ?_, fun k f hk => ?_⟩
  · obtain ⟨ds, hds⟩ := h.exists_field_declarations hs
    obtain ⟨body, hbody, hinfix⟩ := CompilationUnit.exists_body_infix hlines hs
    cases (CDeclaration.For.struct_lines hds).symm.trans hbody
    exact ⟨ds, hds, hinfix⟩
  · obtain ⟨d, ds, _, hds, hline⟩ := h.exists_typedef hlines hk
    exact ⟨_, ds, hds, hline⟩

theorem of_load {source : Source} {v : CompilationUnit}
    (hload : ((Loader.ofSources sources).load source).1.toOption = some u)
    (hresolve : u.resolve.state = v) : Obtained sources v :=
  hresolve ▸ .resolved (.loaded (except_to_option_eq_some.mp hload))

def shapedSource : Source :=
  ⟨"a", "a", "struct B\x7bu8(i32 i,u16[3][2]j)*f;B*[4][5]g;f64 h;\x7d"⟩

def shapedUnit : CompilationUnit :=
  let here : Location := ⟨"a", 1⟩
  { CompilationUnit.empty "a" with
    structs := [⟨here, "B", [⟨here, "f", .pointer (.function 0), none⟩,
      ⟨here, "g", .array (.array (.pointer (.struct ⟨here, "B", none⟩)) 4) 5, none⟩,
      ⟨here, "h", .primitive .f64, none⟩], false, none⟩]
    functions := [⟨here, .primitive .u8, [⟨"i", .primitive .i32⟩,
      ⟨"j", .array (.array (.primitive .u16) 3) 2⟩], false⟩] }

def shapedResolved : CompilationUnit :=
  let here : Location := ⟨"a", 1⟩
  { shapedUnit with
    structs := [⟨here, "B", [⟨here, "f", .pointer (.function 0), some 0⟩,
      ⟨here, "g", .array (.array (.pointer (.struct ⟨here, "B", some 0⟩)) 4) 5, some 4⟩,
      ⟨here, "h", .primitive .f64, some 84⟩], false, some ⟨92, 2⟩⟩]
    resolved := true }

/-- Declarations in the header of the file: two fields, and the parameters of a function type. -/
def shapedLines : List String :=
  ["    B* g[5][4];", "    double h;",
    "typedef unsigned char " ++ "_blobc_fn_0CC175B9C0F1B6A831C399E269772661_0" ++
      "(signed int i, unsigned short j[2][3]);"]

theorem header_declares_types_shaped : ∃ u lines, Obtained MemorySources.empty.sources u ∧
    u.resolved = true ∧ Header.lines u = .ok lines ∧ shapedLines ⊆ lines ∧
    (∀ s ∈ u.localStructs, ∃ ds : List CDeclaration,
      List.Forall₂ (fun f d => d.For u f.name f.ty) s.fields ds ∧
      ["struct " ++ s.name ++ " \x7b"] ++ ds.map (fun d => "    " ++ d.text ++ ";") ++
        ["\x7d;"] <:+: lines) ∧
    ∀ (k : Nat) (f : FunctionType), u.localFunctions[k]? = some f →
      ∃ (returns : String) (ds : List CDeclaration),
        List.Forall₂ (fun p d => d.For u p.name p.ty) f.params ds ∧
        "typedef " ++ returns ++ " " ++ u.aliasAt k ++ "(" ++
          ", ".intercalate (ds.map CDeclaration.text) ++ ");" ∈ lines := by
  have hload : ((Loader.ofSources MemorySources.empty.sources).load shapedSource).1.toOption =
      some shapedUnit := by decide +kernel
  have hresolve : decide (shapedUnit.resolve.state = shapedResolved) = true := by cbv
  have hu := of_load hload (of_decide_eq_true hresolve)
  obtain ⟨lines, hlines, _, hstructs, hfunctions⟩ := hu.header_declares_types rfl
  have hrun : ((Header.lines shapedResolved).toOption.any fun lines =>
      decide (shapedLines ⊆ lines)) = true := by decide +kernel
  rw [hlines] at hrun
  exact ⟨_, lines, hu, rfl, hlines, of_decide_eq_true hrun, hstructs, hfunctions⟩

end Obtained

end DataLayout
