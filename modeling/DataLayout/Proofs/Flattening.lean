import DataLayout.Proofs.Loading
import DataLayout.Proofs.Safety
import DataLayout.Proofs.WrittenFiles

/-!
# Includes are flattened

The unit of a file holds the definitions of the file in order, with the flattened definitions of
an included file in the place of the statement that includes it. A definition comes through any
number of includes as it is written, function types spelled out. It is marked as included unless
it is written in the file itself.
-/

set_option autoImplicit false

namespace DataLayout

structure Item where
  definition : Definition
  included : Bool

namespace Definition

def isStruct : Definition → Bool
  | .struct _ _ => true
  | .constant _ _ | .inclusion _ => false

def isConstant : Definition → Bool
  | .constant _ _ => true
  | .struct _ _ | .inclusion _ => false

end Definition

namespace Item

def markIncluded (x : Item) : Item := { x with included := true }

def isStruct (x : Item) : Bool := x.definition.isStruct

def isConstant (x : Item) : Bool := x.definition.isConstant

def literals (x : Item) : List (WrittenType × Bool) := x.definition.literals.map (·, x.included)

theorem literals_mark_included (x : Item) :
    x.markIncluded.literals = x.literals.map fun w => (w.1, true) := by
  rw [literals, literals, List.map_map]
  rfl

end Item

/-- The definitions of a file, with the flattened definitions of an included file in the place of
the statement that includes it. -/
inductive Flattens (sources : Sources) : String → List Definition → List Item → Prop
  | nil {file : String} : Flattens sources file [] []
  | own {file : String} {d : Definition} {ds : List Definition} {items : List Item}
      (hd : d.path? = none) (h : Flattens sources file ds items) :
      Flattens sources file (d :: ds) (⟨d, false⟩ :: items)
  | inclusion {file : String} {path : Located String} {b : Source} {inner ds : List Definition}
      {nested items : List Item} (hb : sources.fetch (some file) path.value = .ok b)
      (hinner : b.Derives inner) (hnested : Flattens sources b.name inner nested)
      (h : Flattens sources file ds items) :
      Flattens sources file (.inclusion path :: ds) (nested.map Item.markIncluded ++ items)

theorem Flattens.tail_of_own {sources : Sources} {file : String} {d : Definition}
    {ds : List Definition} {items : List Item} (h : Flattens sources file (d :: ds) items)
    (hd : d.path? = none) : ∃ rest, items = ⟨d, false⟩ :: rest ∧ Flattens sources file ds rest := by
  cases h with
  | own _ h => exact ⟨_, rfl, h⟩
  | inclusion => cases hd

theorem Flattens.own_items {sources : Sources} {file : String} {ds : List Definition}
    {items : List Item} (h : Flattens sources file ds items) :
    (items.filter (!·.included)).map Item.definition = ds.filter (·.path?.isNone) := by
  induction h with
  | nil => rfl
  | own hd _ ih => simp [hd, ih]
  | @inclusion _ _ _ _ _ nested _ _ _ _ _ _ ih =>
    have hnone : (nested.map Item.markIncluded).filter (!·.included) = [] := by
      rw [List.filter_map, List.map_eq_nil_iff, List.filter_eq_nil_iff]
      exact fun x _ => Bool.false_ne_true
    rw [List.filter_append, hnone, List.nil_append]
    exact ih

/-- The struct has the name, the location, the fields and the flag of the item. -/
inductive Struct.Written (fns : List FunctionType) : Struct → Item → Prop
  | mk {s : Struct} {name : Located String} {groups : List FieldGroup}
      (hname : s.name = name.value) (hloc : s.location = name.location)
      (hf : List.Forall₂ (Field.Means fns) s.fields (groups.flatMap FieldGroup.members)) :
      Written fns s ⟨.struct name groups, s.included⟩

/-- The constant has the name, the location, the expression and the flag of the item. -/
inductive Constant.Written : Constant → Item → Prop
  | mk {c : Constant} {name : Located String} {ts : List Token} (hname : c.name = name.value)
      (hloc : c.location = name.location) (he : Expr.Spelled 1 ts c.expr) :
      Written c ⟨.constant name ts, c.included⟩

structure FunctionType.Written (fns : List FunctionType) (f : FunctionType)
    (x : WrittenType × Bool) : Prop where
  means : f.Means fns x.1
  included : f.included = x.2

structure CompilationUnit.Holds (u : CompilationUnit) (items : List Item) : Prop where
  structs : List.Forall₂ (Struct.Written u.functions) u.structs (items.filter Item.isStruct)
  constants : List.Forall₂ Constant.Written u.constants (items.filter Item.isConstant)
  functions : List.Forall₂ (FunctionType.Written u.functions) u.functions
    (items.flatMap Item.literals)

section Moving

variable {offset : Nat} {fns fns' : List FunctionType}

theorem Struct.Written.shift (hm : FunctionType.MovedTo offset fns fns') {s : Struct} {x : Item}
    (h : s.Written fns x) : (s.mapTy (Ty.shift offset)).Written fns' x := by
  cases h with
  | mk hname hloc hf =>
    refine @mk fns' (s.mapTy (Ty.shift offset)) _ _ hname hloc ?_
    rw [mapTy, List.forall₂_map_left_iff]
    exact hf.imp fun f m hm' => ⟨hm'.name, hm'.location, hm'.type.shift hm⟩

theorem Struct.Written.of_longer (hp : fns <+: fns') {s : Struct} {x : Item}
    (h : s.Written fns x) : s.Written fns' x := by
  cases h with
  | mk hname hloc hf => exact .mk hname hloc (hf.imp fun _ _ hm => hm.of_longer hp)

theorem Struct.Written.mark_included {s : Struct} {x : Item} (h : s.Written fns x) :
    s.markIncluded.Written fns x.markIncluded := by
  cases h with
  | mk hname hloc hf => exact @mk fns s.markIncluded _ _ hname hloc hf

theorem Constant.Written.mark_included {c : Constant} {x : Item} (h : c.Written x) :
    c.markIncluded.Written x.markIncluded := by
  cases h with
  | mk hname hloc he => exact @mk c.markIncluded _ _ hname hloc he

theorem FunctionType.written_append {g : FunctionType → FunctionType} (flag : Bool → Bool)
    (hg : ∀ f : FunctionType, f.MovesTo fns.length (g f))
    (hflag : ∀ f, (g f).included = flag f.included) {xs ys : List (WrittenType × Bool)}
    (h : List.Forall₂ (Written fns) fns xs) (h' : List.Forall₂ (Written fns') fns' ys) :
    List.Forall₂ (Written (fns ++ fns'.map g)) (fns ++ fns'.map g)
      (xs ++ ys.map fun y => (y.1, flag y.2)) := by
  refine List.rel_append ?_ ?_
  · exact h.imp fun f x hf => ⟨hf.means.of_longer (List.prefix_append _ _), hf.included⟩
  · rw [List.forall₂_map_left_iff, List.forall₂_map_right_iff]
    refine h'.imp fun f y hf => ⟨hf.means.shift (moved_to_append hg) (hg f), ?_⟩
    rw [hflag, hf.included]

end Moving

namespace CompilationUnit.Holds

variable {u w : CompilationUnit} {items nested : List Item}

theorem empty (file : String) : (CompilationUnit.empty file).Holds [] :=
  ⟨.nil, .nil, .nil⟩

theorem add_struct (hu : u.Holds items) {s : Struct} {fns : List FunctionType} {d : Definition}
    (hs : (Statement.struct s fns).States d) :
    (u.addStruct s fns).Holds (items ++ [⟨d, false⟩]) := by
  cases hs with
  | @struct name groups fields _ hf hl =>
    obtain ⟨_, rfl, hl⟩ := hl
    have hmoves : ∀ f : FunctionType,
        f.MovesTo u.functions.length (f.mapTy (Ty.shift u.functions.length)) :=
      fun f => ⟨rfl, rfl, rfl⟩
    constructor
    · rw [List.filter_append]
      refine List.rel_append ?_ (.cons ?_ .nil)
      · exact hu.structs.imp fun s x hs => hs.of_longer (List.prefix_append _ _)
      · exact Struct.Written.shift (FunctionType.moved_to_append hmoves) (.mk rfl rfl hf)
    · simpa [CompilationUnit.addStruct, Item.isConstant, Definition.isConstant] using hu.constants
    · have hown := hl.imp fun f w hf => FunctionType.Written.mk (x := (w, false)) hf.2 hf.1
      rw [← List.forall₂_map_right_iff] at hown
      have hall := FunctionType.written_append id hmoves (fun f => rfl) hu.functions hown
      simpa [CompilationUnit.addStruct, Item.literals, Definition.literals, Function.comp_def]
        using hall

theorem add_constant (hu : u.Holds items) {c : Constant} {d : Definition}
    (hc : (Statement.constant c).States d) : (u.addConstant c).Holds (items ++ [⟨d, false⟩]) := by
  cases hc with
  | @constant name ts e he =>
    constructor
    · simpa [CompilationUnit.addConstant, Item.isStruct, Definition.isStruct] using hu.structs
    · rw [List.filter_append]
      exact List.rel_append hu.constants (.cons (.mk rfl rfl he) .nil)
    · simpa [CompilationUnit.addConstant, Item.literals, Definition.literals] using hu.functions

theorem add_included (hu : u.Holds items) (hw : w.Holds nested) (path : String) :
    (u.addIncluded path w).Holds (items ++ nested.map Item.markIncluded) := by
  have hmoves : ∀ f : FunctionType, f.MovesTo u.functions.length
      (f.mapTy (Ty.shift u.functions.length)).markIncluded := fun f => ⟨rfl, rfl, rfl⟩
  constructor
  · rw [List.filter_append, List.filter_map]
    refine List.rel_append ?_ ?_
    · exact hu.structs.imp fun s x hs => hs.of_longer (List.prefix_append _ _)
    · rw [List.forall₂_map_left_iff, List.forall₂_map_right_iff]
      exact hw.structs.imp fun s x hs =>
        (hs.shift (FunctionType.moved_to_append hmoves)).mark_included
  · rw [List.filter_append, List.filter_map]
    refine List.rel_append hu.constants ?_
    rw [List.forall₂_map_left_iff, List.forall₂_map_right_iff]
    exact hw.constants.imp fun c x hc => hc.mark_included
  · have hall := FunctionType.written_append (fun _ => true) hmoves (fun f => rfl) hu.functions
      hw.functions
    have hmarked : (nested.map Item.markIncluded).flatMap Item.literals =
        (nested.flatMap Item.literals).map fun w => (w.1, true) := by
      rw [List.flatMap_map, List.map_flatMap]
      simp only [Item.literals_mark_included]
    rw [List.flatMap_append, hmarked]
    exact hall

end CompilationUnit.Holds

namespace Loader

variable {sources : Sources} {nested : Source → CompilationUnit → Prop} {file : String}
  {statements : List Statement} {ds : List Definition} {u v : CompilationUnit}

theorem Gathers.exists_flattens (h : Gathers sources nested file statements u v)
    (hn : ∀ b w, nested b w → ∃ inner items, b.Derives inner ∧
      Flattens sources b.name inner items)
    (hs : List.Forall₂ Statement.States statements ds) :
    ∃ items, Flattens sources file ds items := by
  induction h generalizing ds with
  | nil =>
    cases hs
    exact ⟨[], .nil⟩
  | struct _ ih =>
    cases hs with
    | cons hd hs =>
      obtain ⟨items, hi⟩ := ih hs
      cases hd
      exact ⟨_, .own rfl hi⟩
  | constant _ ih =>
    cases hs with
    | cons hd hs =>
      obtain ⟨items, hi⟩ := ih hs
      cases hd
      exact ⟨_, .own rfl hi⟩
  | inclusion hb hw _ ih =>
    cases hs with
    | cons hd hs =>
      obtain ⟨items, hi⟩ := ih hs
      obtain ⟨inner, nested, hinner, hnested⟩ := hn _ _ hw
      cases hd
      exact ⟨_, .inclusion hb hinner hnested hi⟩

/-- What statements are gathered to holds the flattened definitions behind what was held before,
and lists the paths behind those listed before. -/
theorem Gathers.holds (h : Gathers sources nested file statements u v)
    (hn : ∀ b w, nested b w → ∀ inner items, b.Derives inner →
      Flattens sources b.name inner items → w.Holds items)
    (hs : List.Forall₂ Statement.States statements ds) {items before : List Item}
    (hi : Flattens sources file ds items) (hu : u.Holds before) :
    v.Holds (before ++ items) ∧ v.includes = u.includes ++ ds.filterMap Definition.path? := by
  induction h generalizing ds items before with
  | nil =>
    cases hs
    cases hi
    simpa using hu
  | struct _ ih =>
    cases hs with
    | cons hd hs =>
      cases hd with
      | struct hf hl =>
        obtain ⟨items, rfl, htail⟩ := hi.tail_of_own rfl
        rw [List.append_cons]
        exact ih hs htail (hu.add_struct (.struct hf hl))
  | constant _ ih =>
    cases hs with
    | cons hd hs =>
      cases hd with
      | constant he =>
        obtain ⟨items, rfl, htail⟩ := hi.tail_of_own rfl
        rw [List.append_cons]
        exact ih hs htail (hu.add_constant (.constant he))
  | inclusion hb hw _ ih =>
    cases hs with
    | cons hd hs =>
      cases hd with
      | @inclusion path =>
        cases hi with
        | own hd => cases hd
        | inclusion hb' hinner hnested hi =>
          cases hb.symm.trans hb'
          obtain ⟨hheld, hincludes⟩ :=
            ih hs hi (hu.add_included (hn _ _ hw _ _ hinner hnested) path.value)
          have hpath : (Definition.inclusion path).path? = some path.value := rfl
          rw [← List.append_assoc, List.filterMap_cons_some hpath, List.append_cons]
          exact ⟨hheld, hincludes⟩

theorem load_to_exists_flattens {depth : Nat} {source : Source} {loading : List String}
    (h : (loadTo sources depth source loading).1 = .ok u) :
    ∃ ds items, source.Derives ds ∧ Flattens sources source.name ds items := by
  refine load_to_source_induction (P := fun source _ =>
    ∃ ds items, source.Derives ds ∧ Flattens sources source.name ds items) ?_ h
  intro source nested u hn hf hg
  obtain ⟨ds, hds⟩ := Source.failure_eq_none.mp hf
  obtain ⟨items, hitems⟩ := hg.exists_flattens hn hds.states
  exact ⟨ds, items, hds, hitems⟩

theorem load_to_holds {depth : Nat} {source : Source} {loading : List String}
    (h : (loadTo sources depth source loading).1 = .ok u) :
    ∀ ds items, source.Derives ds → Flattens sources source.name ds items →
      u.Holds items ∧ u.includes = ds.filterMap Definition.path? := by
  refine load_to_source_induction (P := fun source u => ∀ ds items, source.Derives ds →
    Flattens sources source.name ds items →
      u.Holds items ∧ u.includes = ds.filterMap Definition.path?) ?_ h
  intro source nested u hn _ hg ds items hds hitems
  exact hg.holds (fun b w hw inner items hi hf => (hn b w hw inner items hi hf).1) hds.states hitems
    (.empty source.name)

/-- The unit of a file holds the flattened definitions of the file, of which those of the file
itself are not marked as included, and lists the paths that the file itself includes. -/
theorem load_flattens (l : Loader) (root : Source) {u : CompilationUnit}
    (h : (l.load root).1 = .ok u) :
    (∃ ds items, root.Derives ds ∧ Flattens l.sources root.name ds items) ∧
    ∀ ds items, root.Derives ds → Flattens l.sources root.name ds items →
      u.Holds items ∧ u.includes = ds.filterMap Definition.path? ∧
      (items.filter (!·.included)).map Item.definition = ds.filter (·.path?.isNone) := by
  refine ⟨load_to_exists_flattens h, fun ds items hds hitems => ?_⟩
  obtain ⟨hholds, hincludes⟩ := load_to_holds h ds items hds hitems
  exact ⟨hholds, hincludes, hitems.own_items⟩

def repeatedSources : MemorySources :=
  ⟨[("a", "include\"b\"struct A\x7bvoid(B*b,u8()*h)*f;\x7dinclude\"b\""),
    ("b", "struct B\x7bu16()*g;\x7dinclude\"c\""), ("c", "const N=2")]⟩

def repeatedRoot : Source :=
  ⟨"a", "a", "include\"b\"struct A\x7bvoid(B*b,u8()*h)*f;\x7dinclude\"b\""⟩

theorem load_flattens_repeated : ∃ root u, repeatedSources.sources.fetch none "a" = .ok root ∧
    ((ofSources repeatedSources.sources).load root).1 = .ok u ∧
    u.structs.map (fun s => (s.name, s.included)) = [("B", true), ("A", false), ("B", true)] ∧
    u.functions.map FunctionType.included = [true, false, false, true] ∧
    ∃ ds items, root.Derives ds ∧ Flattens repeatedSources.sources root.name ds items ∧
      u.Holds items ∧ u.includes = ["b", "b"] ∧ u.includes = ds.filterMap Definition.path? := by
  have hroot : repeatedSources.sources.fetch none "a" = .ok repeatedRoot := by decide +kernel
  have hrun : (((ofSources repeatedSources.sources).load repeatedRoot).1.toOption.any fun u =>
      u.structs.map (fun s => (s.name, s.included)) == [("B", true), ("A", false), ("B", true)] &&
      u.functions.map FunctionType.included == [true, false, false, true] &&
      u.includes == ["b", "b"]) = true := by decide +kernel
  obtain ⟨u, hu, hchecks⟩ := (Option.any_eq_true _ _).mp hrun
  simp only [Bool.and_eq_true, beq_iff_eq] at hchecks
  obtain ⟨⟨hstructs, hflags⟩, hpaths⟩ := hchecks
  have hload := except_to_option_eq_some.mp hu
  obtain ⟨⟨ds, items, hds, hitems⟩, hall⟩ := load_flattens _ repeatedRoot hload
  obtain ⟨hholds, hincludes, _⟩ := hall ds items hds hitems
  exact ⟨repeatedRoot, u, hroot, hload, hstructs, hflags, ds, items, hds, hitems, hholds, hpaths,
    hincludes⟩

end Loader

end DataLayout
