import DataLayout.Proofs.Enrichment
import DataLayout.Proofs.Flattening
import DataLayout.Proofs.Inclusion
import DataLayout.Proofs.Positions

/-!
# Names stand where they are located

The names in a unit are those of its structs, their fields and its constants, and those by which
types refer to structs and expressions to constants. Each of them is an identifier of one of the
files that were read, on the line that its location says. Includes move and mark declarations and
resolution reorders and completes them; neither touches a name or its location.
-/

set_option autoImplicit false

namespace DataLayout

section Units

def Ty.locatedNames (t : Ty) : List (Located String) :=
  t.ref?.toList.map fun r => ⟨r.location, r.name⟩

def Expr.locatedNames : Expr → List (Located String)
  | .literal _ _ => []
  | .constant location name => [⟨location, name⟩]
  | .unary _ _ e => e.locatedNames
  | .binary _ _ l r => l.locatedNames ++ r.locatedNames

def Field.locatedNames (f : Field) : List (Located String) :=
  ⟨f.location, f.name⟩ :: f.ty.locatedNames

def Struct.locatedNames (s : Struct) : List (Located String) :=
  ⟨s.location, s.name⟩ :: s.fields.flatMap Field.locatedNames

def Constant.locatedNames (c : Constant) : List (Located String) :=
  ⟨c.location, c.name⟩ :: c.expr.locatedNames

def FunctionType.locatedNames (f : FunctionType) : List (Located String) :=
  f.types.flatMap Ty.locatedNames

def CompilationUnit.locatedNames (u : CompilationUnit) : List (Located String) :=
  u.structs.flatMap Struct.locatedNames ++ u.functions.flatMap FunctionType.locatedNames ++
    u.constants.flatMap Constant.locatedNames

theorem Ty.located_names_bare (t : Ty) : t.bare.locatedNames = t.locatedNames := by
  rw [locatedNames, locatedNames, bare, ref?_map_ref]
  cases t.ref? <;> rfl

theorem Struct.located_names_bare (s : Struct) : s.bare.locatedNames = s.locatedNames := by
  have hfield : ∀ f : Field, f.bare.locatedNames = f.locatedNames := by
    intro f
    rw [Field.locatedNames, Field.bare, Ty.located_names_bare, Field.locatedNames]
  simp only [locatedNames, bare, List.flatMap_map, hfield]

theorem FunctionType.located_names_bare (f : FunctionType) :
    f.bare.locatedNames = f.locatedNames := by
  simp only [locatedNames, bare, types_map_ty, List.flatMap_map, Ty.located_names_bare]

theorem CompilationUnit.Enriches.located_names_perm {u v : CompilationUnit} (h : u.Enriches v) :
    v.locatedNames.Perm u.locatedNames := by
  have hstructs : (v.structs.flatMap Struct.locatedNames).Perm
      (u.structs.flatMap Struct.locatedNames) := by
    have hperm := List.Perm.flatMap_right Struct.locatedNames h.structs
    simpa only [List.flatMap_map, Struct.located_names_bare] using hperm
  have hfunctions : v.functions.flatMap FunctionType.locatedNames =
      u.functions.flatMap FunctionType.locatedNames := by
    have heq := congrArg (List.flatMap FunctionType.locatedNames) h.functions
    simpa only [List.flatMap_map, FunctionType.located_names_bare] using heq
  rw [locatedNames, locatedNames, hfunctions, h.constants]
  exact (hstructs.append_right _).append_right _

end Units

section Definitions

def Token.name? (t : Token) : Option (Located String) :=
  t.value.identifier?.map (⟨t.location, ·⟩)

def identifiers (ts : List Token) : List (Located String) := ts.filterMap Token.name?

theorem append_subset_append {α : Type} {as as' bs bs' : List α} (h : as ⊆ bs) (h' : as' ⊆ bs') :
    as ++ as' ⊆ bs ++ bs' :=
  List.append_subset.mpr ⟨List.subset_append_of_subset_left _ h,
    List.subset_append_of_subset_right _ h'⟩

theorem identifiers_append (ts ts' : List Token) :
    identifiers (ts ++ ts') = identifiers ts ++ identifiers ts' :=
  List.filterMap_append

theorem identifiers_name (location : Location) (name : String) (ts : List Token) :
    identifiers (⟨location, .identifier name⟩ :: ts) = ⟨location, name⟩ :: identifiers ts :=
  rfl

theorem identifiers_mark (location : Location) (m : Mark) (ts : List Token) :
    identifiers (⟨location, .mark m⟩ :: ts) = identifiers ts :=
  rfl

theorem identifiers_keyword (location : Location) (k : Keyword) (ts : List Token) :
    identifiers (⟨location, .keyword k⟩ :: ts) = identifiers ts :=
  rfl

theorem Token.eq_of_name? {t : Token} {x : Located String} (h : t.name? = some x) :
    t = ⟨x.location, .identifier x.value⟩ := by
  obtain ⟨location, symbol⟩ := t
  obtain ⟨name, hname, rfl⟩ := Option.map_eq_some_iff.mp h
  cases symbol <;> cases hname
  rfl

namespace WrittenType

mutual

def locatedNames : WrittenType → List (Located String)
  | .primitive _ | .void => []
  | .struct location name => [⟨location, name⟩]
  | .pointer w | .array w _ => w.locatedNames
  | .function _ returns params => returns.locatedNames ++ paramNames params

/-- The names of the structs that are written in the types of parameters. -/
def paramNames : List (String × WrittenType) → List (Located String)
  | [] => []
  | (_, w) :: params => w.locatedNames ++ paramNames params

end

mutual

theorem literals_names (w : WrittenType) :
    ∀ l ∈ w.literals, l.locatedNames ⊆ w.locatedNames := by
  cases w with
  | primitive | void | struct => simp [literals]
  | pointer w | array w =>
    rw [literals, locatedNames]
    exact literals_names w
  | function location returns params =>
    simp only [literals, List.forall_mem_append, List.forall_mem_singleton]
    refine ⟨⟨fun l hl => ?_, fun l hl => ?_⟩, List.Subset.refl _⟩
    · exact List.subset_append_of_subset_left _ (literals_names returns l hl)
    · exact List.subset_append_of_subset_right _ (param_literals_names params l hl)

theorem param_literals_names (params : List (String × WrittenType)) :
    ∀ l ∈ paramLiterals params, l.locatedNames ⊆ paramNames params := by
  match params with
  | [] => simp [paramLiterals]
  | (_, w) :: params =>
    simp only [paramLiterals, List.forall_mem_append]
    refine ⟨fun l hl => ?_, fun l hl => ?_⟩
    · exact List.subset_append_of_subset_left _ (literals_names w l hl)
    · exact List.subset_append_of_subset_right _ (param_literals_names params l hl)

end

end WrittenType

def Definition.locatedNames : Definition → List (Located String)
  | .struct name groups => name :: groups.flatMap fun g => g.names ++ g.type.locatedNames
  | .constant name expr => name :: identifiers expr
  | .inclusion _ => []

namespace Grammar

mutual

theorem OfType.names_subset {ts : List Token} {w : WrittenType} (h : OfType ts w) :
    w.locatedNames ⊆ identifiers ts := by
  cases h with
  | primitive | void => exact List.nil_subset _
  | struct => exact List.Subset.refl _
  | array h _ | pointer h _ =>
    rw [identifiers_append]
    exact List.subset_append_of_subset_left _ h.names_subset
  | function h hp =>
    rw [WrittenType.locatedNames, identifiers_append, identifiers_mark, identifiers_append]
    exact append_subset_append h.names_subset
      (List.subset_append_of_subset_left _ hp.names_subset)

theorem Params.names_subset {ts : List Token} {params : List (String × WrittenType)}
    (h : Params ts params) : WrittenType.paramNames params ⊆ identifiers ts := by
  cases h with
  | none => exact List.nil_subset _
  | some ht hm =>
    rw [WrittenType.paramNames, identifiers_append, identifiers_name]
    exact append_subset_append ht.names_subset (List.subset_cons_of_subset _ hm.names_subset)

theorem MoreParams.names_subset {ts : List Token} {params : List (String × WrittenType)}
    (h : MoreParams ts params) : WrittenType.paramNames params ⊆ identifiers ts := by
  cases h with
  | nil => exact List.nil_subset _
  | cons ht hm =>
    rw [WrittenType.paramNames, identifiers_mark, identifiers_append, identifiers_name]
    exact append_subset_append ht.names_subset (List.subset_cons_of_subset _ hm.names_subset)

end

variable {ts : List Token}

theorem MoreNames.identifiers_eq {names : List (Located String)} (h : MoreNames ts names) :
    identifiers ts = names := by
  induction h with
  | nil => rfl
  | cons _ ih => rw [identifiers_mark, identifiers_name, ih]

theorem OfFields.names_subset {g : FieldGroup} (h : OfFields ts g) :
    g.names ++ g.type.locatedNames ⊆ identifiers ts := by
  cases h with
  | mk ht hn =>
    rw [identifiers_append, identifiers_name, identifiers_append, hn.identifiers_eq]
    refine List.append_subset.mpr ⟨?_, ?_⟩
    · exact List.subset_append_of_subset_right _
        (List.cons_subset_cons _ (List.subset_append_left _ _))
    · exact List.subset_append_of_subset_left _ ht.names_subset

theorem Groups.names_subset {groups : List FieldGroup} (h : Groups ts groups) :
    (groups.flatMap fun g => g.names ++ g.type.locatedNames) ⊆ identifiers ts := by
  induction h with
  | nil => exact List.nil_subset _
  | cons hg _ ih =>
    rw [List.flatMap_cons, identifiers_append]
    exact append_subset_append hg.names_subset ih

theorem Defines.names_subset {d : Definition} (h : Defines ts d) :
    d.locatedNames ⊆ identifiers ts := by
  cases h with
  | struct hg _ =>
    rw [identifiers_keyword, identifiers_name, identifiers_mark, identifiers_append]
    exact List.cons_subset_cons _ (List.subset_append_of_subset_left _ hg.names_subset)
  | constant _ _ =>
    rw [identifiers_keyword, identifiers_name, identifiers_mark, identifiers_append]
    exact List.cons_subset_cons _ (List.subset_append_left _ _)
  | inclusion => exact List.nil_subset _

theorem File.names_subset {ds : List Definition} (h : File ts ds) :
    ∀ d ∈ ds, d.locatedNames ⊆ identifiers ts := by
  induction h with
  | nil => simp
  | cons hd _ ih =>
    rw [identifiers_append]
    refine List.forall_mem_cons.mpr ⟨?_, fun d' hd' => ?_⟩
    · exact List.subset_append_of_subset_left _ hd.names_subset
    · exact List.subset_append_of_subset_right _ (ih d' hd')

end Grammar

end Definitions

section Holding

variable {fns : List FunctionType}

theorem Ty.Means.names_subset {t : Ty} {w : WrittenType} (h : t.Means fns w) :
    t.locatedNames ⊆ w.locatedNames := by
  induction t generalizing w with
  | primitive | void | function => exact List.nil_subset _
  | struct r =>
    cases h
    exact List.Subset.refl _
  | pointer t ih =>
    cases h with
    | pointer h =>
      rw [WrittenType.locatedNames]
      exact ih h
  | array t _ ih =>
    cases h with
    | array h =>
      rw [WrittenType.locatedNames]
      exact ih h

theorem Parameter.Mean.names_subset {ps : List Parameter} {params : List (String × WrittenType)}
    (h : Parameter.Mean fns ps params) :
    ps.flatMap (·.ty.locatedNames) ⊆ WrittenType.paramNames params := by
  induction ps generalizing params with
  | nil => exact List.nil_subset _
  | cons p ps ih =>
    cases h with
    | cons hp hps =>
      rw [List.flatMap_cons, WrittenType.paramNames]
      exact append_subset_append hp.names_subset (ih hps)

theorem FunctionType.Means.names_subset {f : FunctionType} {w : WrittenType}
    (h : f.Means fns w) : f.locatedNames ⊆ w.locatedNames := by
  cases h with
  | mk hr hp =>
    rw [locatedNames, types, List.flatMap_cons, List.flatMap_map, WrittenType.locatedNames]
    exact append_subset_append hr.names_subset hp.names_subset

theorem Expr.Spelled.identifiers_eq {level : Nat} {ts : List Token} {e : Expr}
    (h : Spelled level ts e) : identifiers ts = e.locatedNames := by
  induction h with
  | literal | name => rfl
  | group _ ih =>
    rw [identifiers_mark, identifiers_append, ih]
    exact List.append_nil _
  | complement _ ih | negate _ ih => rw [identifiers_mark, ih, locatedNames]
  | @binary _ t op _ _ _ _ ht _ _ _ ihl ihr =>
    have hname : t.name? = none := by
      obtain ⟨loc, s⟩ := t
      cases s <;> first | rfl | cases ht
    rw [identifiers_append, ihl, identifiers, List.filterMap_cons_none hname, locatedNames]
    exact congrArg _ ihr

theorem Struct.Written.names_subset {s : Struct} {x : Item} (h : s.Written fns x) :
    s.locatedNames ⊆ x.definition.locatedNames := by
  cases h with
  | @mk name groups hname hloc hf =>
    have hfields : s.fields.flatMap Field.locatedNames ⊆
        groups.flatMap fun g => g.names ++ g.type.locatedNames := by
      intro y hy
      obtain ⟨f, hmem, hy⟩ := List.mem_flatMap.mp hy
      obtain ⟨member, hmember, hmeans⟩ := exists_mem_of_forall₂ hf hmem
      obtain ⟨g, hg, hmember⟩ := List.mem_flatMap.mp hmember
      obtain ⟨n, hn, rfl⟩ := List.mem_map.mp hmember
      refine List.mem_flatMap.mpr ⟨g, hg, ?_⟩
      rw [Field.locatedNames, hmeans.name, hmeans.location] at hy
      rcases List.mem_cons.mp hy with rfl | hy
      · exact List.mem_append_left _ hn
      · exact List.mem_append_right _ (hmeans.type.names_subset hy)
    rw [locatedNames, hname, hloc]
    exact List.cons_subset_cons _ hfields

theorem Constant.Written.names_subset {c : Constant} {x : Item} (h : c.Written x) :
    c.locatedNames ⊆ x.definition.locatedNames := by
  cases h with
  | mk hname hloc he =>
    rw [locatedNames, hname, hloc, ← he.identifiers_eq]
    exact List.Subset.refl _

theorem Definition.literals_names (d : Definition) :
    ∀ l ∈ d.literals, l.locatedNames ⊆ d.locatedNames := by
  cases d with
  | constant | inclusion => simp [literals]
  | struct name groups =>
    intro l hl y hy
    obtain ⟨g, hg, hl⟩ := List.mem_flatMap.mp hl
    have hmem := WrittenType.literals_names g.type l hl hy
    exact List.mem_cons_of_mem _ (List.mem_flatMap.mpr ⟨g, hg, List.mem_append_right _ hmem⟩)

theorem CompilationUnit.Holds.exists_item {u : CompilationUnit} {items : List Item}
    (h : u.Holds items) : ∀ y ∈ u.locatedNames, ∃ x ∈ items, y ∈ x.definition.locatedNames := by
  simp only [locatedNames, List.forall_mem_append, List.forall_mem_flatMap]
  refine ⟨⟨fun s hs y hy => ?_, fun f hf y hy => ?_⟩, fun c hc y hy => ?_⟩
  · obtain ⟨x, hx, hwritten⟩ := exists_mem_of_forall₂ h.structs hs
    exact ⟨x, List.mem_of_mem_filter hx, hwritten.names_subset hy⟩
  · obtain ⟨l, hl, hwritten⟩ := exists_mem_of_forall₂ h.functions hf
    obtain ⟨x, hx, hl⟩ := List.mem_flatMap.mp hl
    obtain ⟨w, hw, rfl⟩ := List.mem_map.mp hl
    exact ⟨x, hx, x.definition.literals_names w hw (hwritten.means.names_subset hy)⟩
  · obtain ⟨x, hx, hwritten⟩ := exists_mem_of_forall₂ h.constants hc
    exact ⟨x, List.mem_of_mem_filter hx, hwritten.names_subset hy⟩

end Holding

section Files

open Relation

variable {sources : Sources}

theorem Source.Derives.inclusion_mem {a : Source} {ds : List Definition} (h : a.Derives ds)
    {path : Located String} (hp : .inclusion path ∈ ds) :
    .inclusion path.location path.value ∈ (Script.ofText a.name a.text).statements := by
  obtain ⟨s, hs, hstates⟩ := exists_mem_of_forall₂ h.states.flip hp
  cases hstates
  exact hs

theorem Flattens.exists_source {file : String} {ds : List Definition} {items : List Item}
    (h : Flattens sources file ds items) {a : Source} (hfile : a.name = file)
    {all : List Definition} (ha : a.Derives all) (hds : ds ⊆ all) :
    ∀ x ∈ items, ∃ b inner, ReflTransGen (Includes sources) a b ∧ b.Derives inner ∧
      x.definition ∈ inner := by
  induction h generalizing a all with
  | nil => simp
  | own _ _ ih =>
    obtain ⟨hd, hds⟩ := List.cons_subset.mp hds
    exact List.forall_mem_cons.mpr ⟨⟨a, all, .refl, ha, hd⟩, ih hfile ha hds⟩
  | @inclusion _ path b _ _ _ _ hb hinner _ _ ihb ih =>
    obtain ⟨hd, hds⟩ := List.cons_subset.mp hds
    have hincludes : Includes sources a b :=
      ⟨path.location, path.value, ha.inclusion_mem hd, hfile ▸ hb⟩
    refine List.forall_mem_append.mpr ⟨List.forall_mem_map.mpr fun x hx => ?_, ih hfile ha hds⟩
    obtain ⟨c, inner, hc, hderives, hx⟩ := ihb rfl hinner (List.Subset.refl _) x hx
    exact ⟨c, inner, .head hincludes hc, hderives, hx⟩

/-- The name is an identifier of the source and stands on the line that its location says. -/
structure Source.Shows (source : Source) (x : Located String) : Prop where
  file : x.location.file = source.name
  first : 1 ≤ x.location.line
  last : x.location.line ≤ 1 + source.text.toList.count '\n'
  stands : ∃ before, Lexeme.StandsBehind (.identifier x.value) before source.text.toList ∧
    x.location.line = 1 + before.count '\n'

theorem Source.shows_identifier (source : Source) :
    ∀ x ∈ identifiers (TokenStream.ofText source.name source.text).tokens, source.Shows x := by
  intro x hx
  obtain ⟨t, ht, hname⟩ := List.mem_filterMap.mp hx
  obtain ⟨before, hstands, hloc⟩ := TokenStream.of_text_stands source.name source.text t ht
  cases Token.eq_of_name? hname
  obtain ⟨location, name⟩ := x
  cases hloc
  have hle := hstands.line_ends_le
  exact ⟨rfl, Nat.le_add_right _ _, Nat.add_le_add_left hle 1, before, hstands, rfl⟩

theorem Loader.load_shows {l : Loader} {root : Source} {u : CompilationUnit}
    (h : (l.load root).1 = .ok u) : ∀ x ∈ u.locatedNames, ∃ b,
      ReflTransGen (Includes l.sources) root b ∧ b.Shows x := by
  intro x hx
  obtain ⟨ds, items, hds, hitems⟩ := load_to_exists_flattens h
  obtain ⟨item, hitem, hx⟩ := (load_to_holds h ds items hds hitems).1.exists_item x hx
  obtain ⟨b, inner, hb, hinner, hmem⟩ :=
    hitems.exists_source rfl hds (List.Subset.refl _) item hitem
  exact ⟨b, hb, b.shows_identifier x (hinner.2.names_subset _ hmem hx)⟩

/-- Every name in a loaded unit, however often the unit has been resolved since, is an identifier of
a file that was opened, on the line that its location says. -/
theorem names_stand_where_located (l : Loader) (root : Source) (u : CompilationUnit)
    (h : (l.load root).1 = .ok u) (n : Nat) :
    ∀ x ∈ ((fun v : CompilationUnit => v.resolve.state)^[n] u).locatedNames, ∃ b,
      ReflTransGen (Includes l.sources) root b ∧ b.Shows x := by
  have hperm : ((fun v : CompilationUnit => v.resolve.state)^[n] u).locatedNames.Perm
      u.locatedNames := by
    induction n with
    | zero => exact .refl _
    | succ n ih =>
      rw [Function.iterate_succ_apply']
      exact (CompilationUnit.resolve_enriches _).located_names_perm.trans ih
  intro x hx
  exact Loader.load_shows h x (hperm.mem_iff.mp hx)

/-- A file with a comment and a shared field type that includes one with a function type. -/
def spreadSources : MemorySources :=
  ⟨[("a", "// S\ninclude\"b\"\nstruct S\x7b\n T* t,\n u;\x7d"),
    ("b", "const N=1 const\n M=~N struct T\x7bu8(T* p)* f;\x7d")]⟩

theorem names_stand_where_located_spread :
    ∃ root u, spreadSources.sources.fetch none "a" = .ok root ∧
      ((Loader.ofSources spreadSources.sources).load root).1 = .ok u ∧
      u.locatedNames = [⟨⟨"b", 2⟩, "T"⟩, ⟨⟨"b", 2⟩, "f"⟩, ⟨⟨"a", 3⟩, "S"⟩, ⟨⟨"a", 4⟩, "t"⟩,
        ⟨⟨"a", 4⟩, "T"⟩, ⟨⟨"a", 5⟩, "u"⟩, ⟨⟨"a", 4⟩, "T"⟩, ⟨⟨"b", 2⟩, "T"⟩, ⟨⟨"b", 1⟩, "N"⟩,
        ⟨⟨"b", 2⟩, "M"⟩, ⟨⟨"b", 2⟩, "N"⟩] ∧
      ∀ n, ∀ x ∈ ((fun v : CompilationUnit => v.resolve.state)^[n] u).locatedNames, ∃ b,
        ReflTransGen (Includes spreadSources.sources) root b ∧ b.Shows x := by
  have hnames : ((spreadSources.sources.fetch none "a").toOption.bind fun root =>
      ((Loader.ofSources spreadSources.sources).load root).1.toOption.map
        CompilationUnit.locatedNames) = some [⟨⟨"b", 2⟩, "T"⟩, ⟨⟨"b", 2⟩, "f"⟩, ⟨⟨"a", 3⟩, "S"⟩,
        ⟨⟨"a", 4⟩, "t"⟩, ⟨⟨"a", 4⟩, "T"⟩, ⟨⟨"a", 5⟩, "u"⟩, ⟨⟨"a", 4⟩, "T"⟩, ⟨⟨"b", 2⟩, "T"⟩,
        ⟨⟨"b", 1⟩, "N"⟩, ⟨⟨"b", 2⟩, "M"⟩, ⟨⟨"b", 2⟩, "N"⟩] := by decide +kernel
  obtain ⟨root, hroot, hloaded⟩ := Option.bind_eq_some_iff.mp hnames
  obtain ⟨u, hu, hlist⟩ := Option.map_eq_some_iff.mp hloaded
  rw [except_to_option_eq_some] at hroot hu
  exact ⟨root, u, hroot, hu, hlist, names_stand_where_located _ root u hu⟩

end Files

end DataLayout
