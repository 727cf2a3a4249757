import DataLayout.Proofs.Loading
import DataLayout.Proofs.Safety
import DataLayout.Proofs.WrittenFiles

/-!
# The files that are accepted

A file that includes no other can fail only as it is read, and it is read to its end exactly if
its tokens derive from the grammar.
-/

set_option autoImplicit false

namespace DataLayout
open Grammar

/-- The tokens hold no include statement: a path nowhere follows the word `include`. -/
def Grammar.NoInclude (ts : List Token) : Prop :=
  ∀ loc loc' path, ¬ [⟨loc, .keyword .incl⟩, ⟨loc', .quoted path⟩] <:+: ts

theorem Grammar.File.not_no_include {ts : List Token} {ds : List Definition} (h : File ts ds)
    {path : Located String} (hm : .inclusion path ∈ ds) : ¬ NoInclude ts := by
  intro hno
  induction h with
  | nil => cases hm
  | @cons ts ts' d ds hd hs ih =>
    cases hm with
    | tail _ hm =>
      refine ih hm fun loc loc' path' hin => hno loc loc' path' ?_
      exact hin.trans (List.suffix_append ts ts').isInfix
    | head =>
      cases hd with
      | @inclusion loc loc' _ end' ht =>
        exact hno loc loc' _ ⟨[], end' ++ ts', rfl⟩

theorem mem_of_forall₂_states {statements : List Statement} {ds : List Definition}
    (h : List.Forall₂ Statement.States statements ds) {loc : Location} {path : String}
    (hm : .inclusion loc path ∈ statements) : .inclusion ⟨loc, path⟩ ∈ ds := by
  induction h with
  | nil => cases hm
  | cons hs _ ih =>
    cases hm with
    | tail _ hm => exact List.mem_cons_of_mem _ (ih hm)
    | head =>
      cases hs with
      | inclusion => exact List.mem_cons_self

namespace Loader

theorem exists_gathers_of_nested {sources : Sources} {nested : Source → CompilationUnit → Prop}
    {file : String} {statements : List Statement}
    (h : ∀ loc path, .inclusion loc path ∈ statements →
      ∃ b, sources.fetch (some file) path = .ok b ∧ ∃ w, nested b w) (u : CompilationUnit) :
    ∃ v, Gathers sources nested file statements u v := by
  induction statements generalizing u with
  | nil => exact ⟨u, .nil⟩
  | cons statement rest ih =>
    have hrest := fun u => ih (fun loc path hm => h loc path (List.mem_cons_of_mem _ hm)) u
    cases statement with
    | struct s fns =>
      obtain ⟨v, hv⟩ := hrest (u.addStruct s fns)
      exact ⟨v, .struct hv⟩
    | constant c =>
      obtain ⟨v, hv⟩ := hrest (u.addConstant c)
      exact ⟨v, .constant hv⟩
    | inclusion loc path =>
      obtain ⟨b, hb, w, hw⟩ := h loc path List.mem_cons_self
      obtain ⟨v, hv⟩ := hrest (u.addIncluded path w)
      exact ⟨v, .inclusion hb hw hv⟩

theorem exists_gathers {sources : Sources} {nested : Source → CompilationUnit → Prop}
    {file : String} {statements : List Statement}
    (h : ∀ loc path, .inclusion loc path ∉ statements) (u : CompilationUnit) :
    ∃ v, Gathers sources nested file statements u v :=
  exists_gathers_of_nested (fun loc path hm => absurd hm (h loc path)) u

theorem exists_load_of_no_inclusion (l : Loader) {source : Source}
    (h : (Script.ofText source.name source.text).failure = none)
    (hno : ∀ loc path, .inclusion loc path ∉ (Script.ofText source.name source.text).statements) :
    ∃ u, (l.load source).1 = .ok u := by
  obtain ⟨u, hu⟩ := exists_gathers hno (.empty source.name)
  exact ⟨u, load_to_eq_ok.mpr ⟨h, hu⟩⟩

/-- A file without lexical errors and without include statements is accepted exactly if its
tokens derive from the grammar. -/
theorem load_ok_iff_derives (l : Loader) (source : Source) {loc : Location}
    (hlex : (TokenStream.ofText source.name source.text).ending = .eof loc)
    (hinclude : NoInclude (TokenStream.ofText source.name source.text).tokens) :
    (∃ u, (l.load source).1 = .ok u) ↔
      ∃ ds, File (TokenStream.ofText source.name source.text).tokens ds := by
  constructor
  · rintro ⟨u, hu⟩
    obtain ⟨ds, hds⟩ := Source.failure_eq_none.mp (load_to_eq_ok.mp hu).1
    exact ⟨ds, hds.2⟩
  · rintro ⟨ds, hfile⟩
    have hds : source.Derives ds := ⟨⟨loc, hlex⟩, hfile⟩
    have hnone : ∀ loc path,
        .inclusion loc path ∉ (Script.ofText source.name source.text).statements :=
      fun loc path hm => hfile.not_no_include (mem_of_forall₂_states hds.states hm) hinclude
    obtain ⟨u, hu⟩ := exists_gathers hnone (.empty source.name)
    exact ⟨u, load_to_eq_ok.mpr ⟨Source.failure_eq_none.mpr ⟨ds, hds⟩, hu⟩⟩

/-- A chain of suffixes, parameters, names that share a type, and an expression of all layers. -/
def layeredSource : Source :=
  ⟨"a", "a", "struct S\x7bu8*[4]x,y;void(S*s,u16 n)*f;\x7dconst A=-1+2*(3<<~B)"⟩

theorem load_ok_iff_derives_layered :
    (TokenStream.ofText layeredSource.name layeredSource.text).ending = .eof ⟨"a", 1⟩ ∧
    NoInclude (TokenStream.ofText layeredSource.name layeredSource.text).tokens ∧
    (∃ u, ((ofSources MemorySources.empty.sources).load layeredSource).1 = .ok u) ∧
    ∃ ds, File (TokenStream.ofText layeredSource.name layeredSource.text).tokens ds := by
  have hrun : ((TokenStream.ofText layeredSource.name layeredSource.text).ending == .eof ⟨"a", 1⟩ &&
      (TokenStream.ofText layeredSource.name layeredSource.text).tokens.all
        (·.value != .keyword .incl) &&
      ((ofSources MemorySources.empty.sources).load layeredSource).1.toOption.isSome) = true := by
    decide +kernel
  rw [Bool.and_eq_true, Bool.and_eq_true, beq_iff_eq, List.all_eq_true] at hrun
  obtain ⟨⟨hlex, hwords⟩, hload⟩ := hrun
  have hno : NoInclude (TokenStream.ofText layeredSource.name layeredSource.text).tokens := by
    intro loc loc' path hin
    have hword := hwords _ (hin.subset List.mem_cons_self)
    simp at hword
  obtain ⟨u, hu⟩ := Option.isSome_iff_exists.mp hload
  have hok : ∃ u, ((ofSources MemorySources.empty.sources).load layeredSource).1 = .ok u :=
    ⟨u, except_to_option_eq_some.mp hu⟩
  exact ⟨hlex, hno, hok, (load_ok_iff_derives _ layeredSource hlex hno).mp hok⟩

end Loader

end DataLayout
