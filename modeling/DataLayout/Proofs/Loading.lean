import DataLayout.Loader
import Mathlib.Data.List.Basic

/-!
# What loading gathers

The unit of a file is gathered from its statements, an inclusion bringing in the unit of the file
it names. How deep a load may go and which files are being read around it only decide whether
there is a unit: one that was found is found again with more depth and fewer files around.
-/

set_option autoImplicit false

namespace DataLayout.Loader

variable {sources : Sources} {load : Option (Source → List String → Outcome)} {file : String}

def KeepsStack (load : Option (Source → List String → Outcome)) : Prop :=
  ∀ load', load = some load' → ∀ source loading, (load' source loading).2 = loading

theorem assemble_stack (hl : KeepsStack load) {failure : Option ParseFailure}
    {statements : List Statement} {unit : CompilationUnit} {loading : List String} :
    (assemble sources load file failure statements unit loading).2 = loading := by
  induction statements generalizing unit with
  | nil => cases failure <;> rfl
  | cons statement rest ih =>
    cases statement with
    | struct s fns => exact ih
    | constant c => exact ih
    | inclusion loc path =>
      rw [assemble]
      cases sources.fetch (some file) path with
      | error e => rfl
      | ok b =>
        dsimp only
        split_ifs
        · rfl
        · cases load with
          | none => rfl
          | some load' =>
            have hk := hl load' rfl b loading
            dsimp only
            generalize load' b loading = outcome at hk
            obtain ⟨result, loading'⟩ := outcome
            cases hk
            cases result with
            | error f => rfl
            | ok nested => exact ih

theorem enter_stack (hl : KeepsStack load) (source : Source) (loading : List String) :
    (enter sources load source loading).2 = loading :=
  congrArg List.tail (assemble_stack hl)

def below (sources : Sources) : Nat → Option (Source → List String → Outcome)
  | 0 => none
  | depth + 1 => some (loadTo sources depth)

theorem load_to_eq (sources : Sources) (depth : Nat) :
    loadTo sources depth = enter sources (below sources depth) := by
  cases depth <;> rfl

theorem below_keeps_stack (sources : Sources) (depth : Nat) : KeepsStack (below sources depth) := by
  induction depth with
  | zero => exact fun load' h => by cases h
  | succ depth ih =>
    rintro load' ⟨⟩
    rw [load_to_eq]
    exact enter_stack ih

/-- Adding statements of a file to a unit gives another unit, where `nested` says which unit an
included file stands for. -/
inductive Gathers (sources : Sources) (nested : Source → CompilationUnit → Prop) (file : String) :
    List Statement → CompilationUnit → CompilationUnit → Prop
  | nil {u : CompilationUnit} : Gathers sources nested file [] u u
  | struct {s : Struct} {fns : List FunctionType} {rest : List Statement}
      {u v : CompilationUnit} (hrest : Gathers sources nested file rest (u.addStruct s fns) v) :
      Gathers sources nested file (.struct s fns :: rest) u v
  | constant {c : Constant} {rest : List Statement} {u v : CompilationUnit}
      (hrest : Gathers sources nested file rest (u.addConstant c) v) :
      Gathers sources nested file (.constant c :: rest) u v
  | inclusion {loc : Location} {path : String} {rest : List Statement} {u v w : CompilationUnit}
      {b : Source} (hb : sources.fetch (some file) path = .ok b) (hw : nested b w)
      (hrest : Gathers sources nested file rest (u.addIncluded path w) v) :
      Gathers sources nested file (.inclusion loc path :: rest) u v

theorem Gathers.mono {nested nested' : Source → CompilationUnit → Prop}
    (hn : ∀ b w, nested b w → nested' b w) {statements : List Statement} {u v : CompilationUnit}
    (h : Gathers sources nested file statements u v) :
    Gathers sources nested' file statements u v := by
  induction h with
  | nil => exact .nil
  | struct _ ih => exact .struct ih
  | constant _ ih => exact .constant ih
  | inclusion hb hw _ ih => exact .inclusion hb (hn _ _ hw) ih

theorem Gathers.inclusion_iff {nested : Source → CompilationUnit → Prop} {loc : Location}
    {path : String} {rest : List Statement} {u v : CompilationUnit} :
    Gathers sources nested file (.inclusion loc path :: rest) u v ↔
      ∃ b, sources.fetch (some file) path = .ok b ∧ ∃ w, nested b w ∧
        Gathers sources nested file rest (u.addIncluded path w) v := by
  constructor
  · rintro (_ | _ | _ | ⟨hb, hw, hrest⟩)
    exact ⟨_, hb, _, hw, hrest⟩
  · rintro ⟨b, hb, w, hw, hrest⟩
    exact .inclusion hb hw hrest

def Nested (load : Option (Source → List String → Outcome)) (loading : List String) (b : Source)
    (w : CompilationUnit) : Prop :=
  b.identity ∉ loading ∧ ∃ load', load = some load' ∧ (load' b loading).1 = .ok w

theorem assemble_eq_ok (hl : KeepsStack load) {failure : Option ParseFailure}
    {statements : List Statement} {u v : CompilationUnit} {loading : List String} :
    (assemble sources load file failure statements u loading).1 = .ok v ↔
      failure = none ∧ Gathers sources (Nested load loading) file statements u v := by
  induction statements generalizing u with
  | nil =>
    cases failure with
    | some f => simp [assemble]
    | none =>
      rw [assemble]
      exact ⟨fun h => by cases h; exact ⟨rfl, .nil⟩, fun h => by cases h.2; rfl⟩
  | cons statement rest ih =>
    cases statement with
    | struct s fns =>
      rw [assemble, ih]
      exact and_congr_right fun _ => ⟨.struct, fun h => by cases h; assumption⟩
    | constant c =>
      rw [assemble, ih]
      exact and_congr_right fun _ => ⟨.constant, fun h => by cases h; assumption⟩
    | inclusion loc path =>
      rw [Gathers.inclusion_iff, assemble]
      cases hf : sources.fetch (some file) path with
      | error e => simp
      | ok b =>
        simp only [Except.ok.injEq, exists_eq_left']
        split_ifs with hm
        · simp [Nested, hm]
        · cases load with
          | none => simp [Nested]
          | some load' =>
            have hk := hl load' rfl b loading
            simp only [Nested, hm, not_false_iff, true_and, Option.some.injEq, exists_eq_left']
            generalize load' b loading = outcome at hk
            obtain ⟨result, loading'⟩ := outcome
            cases hk
            cases result with
            | error f => simp
            | ok w =>
              simp only [ih, Except.ok.injEq, exists_eq_left']

theorem load_to_eq_ok {depth : Nat} {source : Source} {loading : List String}
    {v : CompilationUnit} : (loadTo sources depth source loading).1 = .ok v ↔
      (Script.ofText source.name source.text).failure = none ∧
      Gathers sources (Nested (below sources depth) (source.identity :: loading)) source.name
        (Script.ofText source.name source.text).statements (.empty source.name) v := by
  rw [load_to_eq, enter]
  exact assemble_eq_ok (below_keeps_stack sources depth)

/-- What holds of a file and the unit it gathers, if it holds of the files it includes, holds of
every file and the unit it is loaded as. -/
theorem load_to_source_induction {P : Source → CompilationUnit → Prop}
    (step : ∀ (source : Source) nested v, (∀ b w, nested b w → P b w) →
      (Script.ofText source.name source.text).failure = none →
      Gathers sources nested source.name (Script.ofText source.name source.text).statements
        (.empty source.name) v → P source v)
    {depth : Nat} {source : Source} {loading : List String} {v : CompilationUnit}
    (h : (loadTo sources depth source loading).1 = .ok v) : P source v := by
  induction depth generalizing source loading v with
  | zero =>
    obtain ⟨hf, hg⟩ := load_to_eq_ok.mp h
    refine step source _ v ?_ hf hg
    rintro b w ⟨_, load', hb, _⟩
    cases hb
  | succ depth ih =>
    obtain ⟨hf, hg⟩ := load_to_eq_ok.mp h
    refine step source _ v ?_ hf hg
    rintro b w ⟨_, load', ⟨⟩, hw⟩
    exact ih hw

theorem load_to_induction {P : CompilationUnit → Prop}
    (step : ∀ (source : Source) nested v, (∀ b w, nested b w → P w) →
      Gathers sources nested source.name (Script.ofText source.name source.text).statements
        (.empty source.name) v → P v)
    {depth : Nat} {source : Source} {loading : List String} {v : CompilationUnit}
    (h : (loadTo sources depth source loading).1 = .ok v) : P v :=
  load_to_source_induction (P := fun _ => P) (fun source nested v hn _ => step source nested v hn) h

theorem load_to_mono {depth depth' : Nat} (hd : depth ≤ depth') {loading loading' : List String}
    (hl : loading' ⊆ loading) {source : Source} {v : CompilationUnit}
    (h : (loadTo sources depth source loading).1 = .ok v) :
    (loadTo sources depth' source loading').1 = .ok v := by
  induction depth generalizing depth' loading loading' source v with
  | zero =>
    -- nothing was included
    obtain ⟨hf, hg⟩ := load_to_eq_ok.mp h
    refine load_to_eq_ok.mpr ⟨hf, hg.mono ?_⟩
    rintro b w ⟨_, load', hb, _⟩
    cases hb
  | succ depth ih =>
    obtain ⟨hf, hg⟩ := load_to_eq_ok.mp h
    refine load_to_eq_ok.mpr ⟨hf, hg.mono ?_⟩
    rintro b w ⟨hm, load', ⟨⟩, hw⟩
    have hs := List.cons_subset_cons source.identity hl
    cases depth' with
    | zero => exact absurd hd (Nat.not_succ_le_zero depth)
    | succ depth' =>
      exact ⟨fun hm' => hm (hs hm'), _, rfl, ih (Nat.le_of_succ_le_succ hd) hs hw⟩

end DataLayout.Loader
