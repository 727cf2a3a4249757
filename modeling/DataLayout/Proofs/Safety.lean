import DataLayout.Proofs.Emission
import DataLayout.Proofs.Enrichment
import DataLayout.Proofs.Failures
import DataLayout.Proofs.Lines
import DataLayout.Proofs.Scalars

/-!
# No look-up fails

Reading takes what a token of the expected kind holds, resolution follows references and weights,
and output asks for numbers and names. All of it is there. Every unit that comes of loading and
resolving, and says that it is resolved, can be written in every format.
-/

set_option autoImplicit false

namespace DataLayout

namespace Symbol

variable {s : Symbol}

end Symbol

namespace Ending

variable {ending : Ending} {ts : List Token}

end Ending

namespace CompilationUnit

variable {u v : CompilationUnit} {extent : String → Extent}

theorem has_alias_of_mentions_in {t : Ty} (h : t.MentionsIn u.functions false) {id : Nat}
    (hid : t.function? = some id) : u.HasAlias id := by
  obtain ⟨f, hf, hown⟩ := h id hid
  exact ⟨_, by rw [Header.aliases_get_elem?, hf, Option.map_some, hown]; rfl⟩

theorem ResolvedAs.values_eq (h : u.ResolvedAs extent v) :
    Constant.values v.constants = .ok v.values := by
  rw [h.constants]
  exact h.values

theorem ResolvedAs.values_to_int (h : u.ResolvedAs extent v) :
    ∃ values, Constant.Satisfied v.constants values ∧
      v.values.map (fun x => (x.1, x.2.toInt)) =
        v.constants.zipIdx.map fun c => (c.2, values c.1.name) := by
  have hm := Constant.exists_values.mp ⟨_, h.values_eq⟩
  obtain ⟨values, hs⟩ := Constant.exists_satisfied hm.distinct hm.evaluates
  exact ⟨values, hs, Constant.values_to_int hs h.values_eq⟩

theorem ResolvedAs.complete (h : u.ResolvedAs extent v) (hn : v.Numbered) : v.Complete where
  extents s hs := ⟨_, (h.placed s hs).extent⟩
  offsets s hs f hf := Option.isSome_iff_exists.mp ((h.placed s hs).offset_is_some f hf)
  sizes s hs f hf := ⟨_, h.laid_out.size?_eq (h.laid_out.admits_field hs hf)⟩
  constants x hx := by
    obtain ⟨values, _, hall⟩ := h.values_to_int
    have hmem := List.mem_map_of_mem (f := fun x : Nat × Int64 => (x.1, x.2.toInt)) hx
    rw [hall] at hmem
    obtain ⟨c, hc, hcx⟩ := List.mem_map.mp hmem
    have hi : c.2 = x.1 := congrArg Prod.fst hcx
    exact ⟨c.1, hi ▸ List.mem_zipIdx_iff_getElem?.mp hc⟩
  numbered := hn
  field_aliases s hs hown f hf id hid :=
    has_alias_of_mentions_in (hown ▸ hn.fields s hs f hf) hid
  function_aliases g hg hown t ht id hid :=
    has_alias_of_mentions_in (hown ▸ hn.functions.mentions g hg t ht) hid

theorem resolve_failure_iff :
    u.resolve.failure = none ↔ u.WellFormed ∧ Constant.Meaningful u.constants := by
  rw [resolve, Progress.and_then_failure, Progress.and_then_failure, resolve_constants_failure,
    u.resolve_structs_keeps.constants, Constant.exists_values]
  constructor
  · rintro ⟨⟨hs, hm⟩, _⟩
    exact ⟨(resolve_structs_spec hs).1, hm⟩
  · rintro ⟨hw, hm⟩
    exact ⟨⟨hw.resolve_structs_failure, hm⟩, rfl⟩

theorem ResolvedAs.resolve_failure (h : u.ResolvedAs extent v) : v.resolve.failure = none := by
  have hb : v.Bindable := h.toArranges.bindable h.wellFormed.toBindable
  have hm : Constant.Meaningful v.constants := Constant.exists_values.mp ⟨_, h.values_eq⟩
  exact resolve_failure_iff.mpr ⟨h.wellFormed.of_same_structs h.same hb, hm⟩

end CompilationUnit

theorem Loader.Gathers.resolved {sources : Sources} {nested : Source → CompilationUnit → Prop}
    {file : String} {statements : List Statement} {u v : CompilationUnit}
    (h : Gathers sources nested file statements u v) : v.resolved = u.resolved := by
  induction h with
  | nil => rfl
  | struct _ ih => exact ih
  | constant _ ih => exact ih
  | inclusion _ _ _ ih => exact ih

/-- The units that come of loading files of a store and of resolving, any number of times and
whether it succeeds or not. -/
inductive Obtained (sources : Sources) : CompilationUnit → Prop
  | empty (filename : String) : Obtained sources (.empty filename)
  | loaded {loading : List String} {source : Source} {u : CompilationUnit}
      (h : ((⟨sources, loading⟩ : Loader).load source).1 = .ok u) : Obtained sources u
  | resolved {u : CompilationUnit} (h : Obtained sources u) : Obtained sources u.resolve.state

namespace Obtained

variable {sources : Sources} {u : CompilationUnit}

theorem numbered (h : Obtained sources u) : u.Numbered := by
  induction h with
  | empty filename => exact .empty filename
  | loaded h => exact Loader.load_to_numbered h
  | @resolved u _ ih => exact u.resolve_enriches.numbered ih

theorem resolved_as (h : Obtained sources u) (hr : u.resolved = true) :
    ∃ u₀ extent, CompilationUnit.ResolvedAs extent u₀ u := by
  induction h with
  | empty filename => cases hr
  | loaded h =>
    rw [(Loader.load_to_eq_ok.mp h).2.resolved] at hr
    cases hr
  | @resolved u _ ih =>
    rcases u.resolve_cases with ⟨hf, hk⟩ | ⟨values, hdone⟩
    · obtain ⟨u₀, extent, h⟩ := ih (hk.resolved ▸ hr)
      exact absurd h.resolve_failure hf
    · obtain ⟨extent, h⟩ := CompilationUnit.resolve_spec hdone
      exact ⟨u, extent, hdone ▸ h⟩

theorem complete (h : Obtained sources u) (hr : u.resolved = true) : u.Complete := by
  obtain ⟨u₀, extent, hres⟩ := h.resolved_as hr
  exact hres.complete h.numbered

end Obtained

/-- A file with an include between two structs that mention function types. -/
def splitSources : MemorySources :=
  ⟨[("a", "struct A\x7bvoid(B*b)*f;\x7dinclude\"b\"struct C\x7bu8()*h;\x7dconst K=N"),
    ("b", "const N=2 struct B\x7bu16()*g;\x7d")]⟩

def splitUnit : CompilationUnit :=
  ⟨"a", ["b"],
    [⟨⟨"a", 1⟩, "A", [⟨⟨"a", 1⟩, "f", .pointer (.function 0), none⟩], false, none⟩,
      ⟨⟨"b", 1⟩, "B", [⟨⟨"b", 1⟩, "g", .pointer (.function 1), none⟩], true, none⟩,
      ⟨⟨"a", 1⟩, "C", [⟨⟨"a", 1⟩, "h", .pointer (.function 2), none⟩], false, none⟩],
    [⟨⟨"b", 1⟩, "N", .literal ⟨"b", 1⟩ 2, true⟩, ⟨⟨"a", 1⟩, "K", .constant ⟨"a", 1⟩ "N", false⟩],
    [⟨⟨"a", 1⟩, .void, [⟨"b", .pointer (.struct ⟨⟨"a", 1⟩, "B", none⟩)⟩], false⟩,
      ⟨⟨"b", 1⟩, .primitive .u16, [], true⟩, ⟨⟨"a", 1⟩, .primitive .u8, [], false⟩], [], false⟩

theorem split_sources_load : splitSources.sources.loaded? "a" = some splitUnit := by
  decide +kernel

end DataLayout
