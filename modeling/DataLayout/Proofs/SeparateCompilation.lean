import DataLayout.Proofs.Compilation
import DataLayout.Proofs.Inclusion
import DataLayout.Source.Memory

/-!
# Separate compilation

A file that is compiled on its own gives its structs the layout, and its constants the values,
that they have in the unit of any file that includes it. Both are determined by the declarations
that the two units share.
-/

set_option autoImplicit false

namespace DataLayout
open Relation

namespace CompilationUnit

variable {u v w : CompilationUnit} {extent extent' : String → Extent}

theorem Arranges.declares (h : u.Arranges v) : v.Declares u where
  structs s hs := by
    obtain ⟨s', hs', hb⟩ := h.same.symm.exists_mem hs
    exact ⟨s', hs', Struct.outline_of_bare hb⟩
  constants c hc := ⟨c, h.constants ▸ hc, rfl, rfl⟩

theorem Arranges.declared (h : u.Arranges v) : u.Declares v where
  structs s hs := by
    obtain ⟨s', hs', hb⟩ := h.same.exists_mem hs
    exact ⟨s', hs', Struct.outline_of_bare hb⟩
  constants c hc := ⟨c, h.constants ▸ hc, rfl, rfl⟩

/-- Structs that two units declare have one extent: that of the larger unit is right for the
smaller unit too, where there is only one. -/
theorem LaidOut.extent_agrees (hv : v.LaidOut extent) (hu : u.LaidOut extent')
    (hd : u.Declares v) : ∀ s ∈ v.structs, extent s.name = extent' s.name := by
  have hp := hv.bound.defined
  refine assigns_unique (contains_well_founded hp hv.acyclic) hp Struct.extent_from_from_parts
    hv.layout fun s hs => ?_
  obtain ⟨s', hs', ho⟩ := hd.structs s hs
  have hn : s'.name = s.name := congrArg Prod.fst ho
  rw [← hn, hu.layout s' hs', Struct.extentFrom, Struct.frontier, Struct.field_extents_outline ho]
  rfl

theorem LaidOut.field_extents_agree (hv : v.LaidOut extent) (hu : u.LaidOut extent')
    (hd : u.Declares v) {s s' : Struct} (hs : s ∈ v.structs) (ho : s'.outline = s.outline) :
    s'.fieldExtents extent' = s.fieldExtents extent := by
  rw [Struct.field_extents_outline ho]
  refine Struct.field_extents_congr fun p hp => ?_
  obtain ⟨t, ht, rfl⟩ := List.mem_map.mp (hv.bound.defined s hs p hp)
  exact (hv.extent_agrees hu hd t ht).symm

theorem LaidOut.struct_agrees (hv : v.LaidOut extent) (hu : u.LaidOut extent')
    (hd : u.Declares v) {s : Struct} (hs : s ∈ v.structs) : ∃ s' ∈ u.structs,
      s'.name = s.name ∧ s'.extent = s.extent ∧ s'.fields.map (fun f => (f.name, f.offset)) =
        s.fields.map fun f => (f.name, f.offset) := by
  obtain ⟨s', hs', ho⟩ := hd.structs s hs
  have hn : s'.name = s.name := congrArg Prod.fst ho
  have he := hv.field_extents_agree hu hd hs ho
  refine ⟨s', hs', hn, ?_, ?_⟩
  · rw [(hu.placed s' hs').extent, (hv.placed s hs).extent, Struct.extentFrom, Struct.frontier, he]
    rfl
  · rw [← List.zip_map', ← List.zip_map', (hu.placed s' hs').offsets, (hv.placed s hs).offsets, he,
      Struct.map_name_outline ho]

theorem struct?_eq_some (hd : (u.structs.map Struct.name).Nodup) {s : Struct}
    (hs : s ∈ u.structs) : u.struct? s.name = some s := by
  have hsome : (u.struct? s.name).isSome := List.find?_isSome.mpr ⟨s, hs, beq_self_eq_true _⟩
  obtain ⟨t, ht⟩ := Option.isSome_iff_exists.mp hsome
  have hn : t.name = s.name := by simpa using List.find?_some ht
  rw [ht, Struct.eq_of_name hd (List.mem_of_find?_eq_some ht) hs hn]

theorem Declares.satisfied (h : u.Declares v) {values : String → Int}
    (hs : Constant.Satisfied u.constants values) : Constant.Satisfied v.constants values := by
  intro c hc
  obtain ⟨c', hc', hn, he⟩ := h.constants c hc
  rw [← he, ← hn]
  exact hs c' hc'

theorem ResolvedAs.constant_agrees {u₀ v₀ : CompilationUnit} (hu : u₀.ResolvedAs extent' u)
    (hv : v₀.ResolvedAs extent v) (hd : u.Declares v) {c : Constant} (hc : c ∈ v.constants) :
    ∃ x, v.constantValue? c.name = some x ∧ u.constantValue? c.name = some x := by
  have huv := hu.values
  have hvv := hv.values
  rw [← hu.constants] at huv
  rw [← hv.constants] at hvv
  have hm := Constant.exists_values.mp ⟨_, huv⟩
  obtain ⟨values, hs⟩ := Constant.exists_satisfied hm.distinct hm.evaluates
  obtain ⟨c', hc', hn, _⟩ := hd.constants c hc
  obtain ⟨x, hx, hxv⟩ := constant_value?_to_int (hd.satisfied hs) hvv hc
  obtain ⟨y, hy, hyv⟩ := constant_value?_to_int hs huv hc'
  rw [hn] at hy hyv
  exact ⟨x, hx, by rw [hy, Int64.toInt_inj.mp (hyv.trans hxv.symm)]⟩

end CompilationUnit

namespace MemorySources

theorem normalize_normalize (path : String) :
    Path.normalize (Path.normalize path) = Path.normalize path := by
  rw [Path.normalize, Path.normalize, String.map_map]
  congr 1
  funext c
  by_cases hc : c = '\\' <;> simp [hc]

theorem normalize_target (origin : Option String) (path : String) :
    Path.normalize (target origin path) = target origin path := by
  rw [target]
  split <;> exact normalize_normalize _

theorem fetch_name {m : MemorySources} {origin : Option String} {path : String} {s : Source}
    (h : m.fetch origin path = .ok s) : m.fetch none s.name = .ok s := by
  simp only [fetch] at h ⊢
  split at h
  · next text ht =>
    cases h
    have hn : target none (target origin path) = target origin path := normalize_target origin path
    simp only [hn, ht]
  · cases h

end MemorySources

/-- Compiling the file at `path` opens the file `b`, at some depth of includes. -/
def Opens (sources : Sources) (path : String) (b : Source) : Prop :=
  ∃ root, sources.fetch none path = .ok root ∧ ReflTransGen (Includes sources) root b

theorem Opens.fetch_name {m : MemorySources} {path : String} {b : Source}
    (h : Opens m.sources path b) : m.sources.fetch none b.name = .ok b := by
  obtain ⟨root, hroot, hb⟩ := h
  cases hb with
  | refl => exact MemorySources.fetch_name hroot
  | tail _ hb =>
    obtain ⟨_, _, _, hfetch⟩ := hb
    exact MemorySources.fetch_name hfetch

/-- A file that a compilation opens, compiled alone, gives its structs and constants the layout
and the values that they have in that compilation. -/
theorem compile_opened_agrees {m : MemorySources} {path : String} {b : Source}
    {u v : CompilationUnit} (hu : compile m.sources path = .ok u) (hb : Opens m.sources path b)
    (hv : compile m.sources b.name = .ok v) :
    (∀ s ∈ v.structs, ∃ s', u.struct? s.name = some s' ∧
      s.extent.isSome ∧ s'.extent = s.extent ∧ (∀ f ∈ s.fields, f.offset.isSome) ∧
      s'.fields.map (fun f => (f.name, f.offset)) = s.fields.map fun f => (f.name, f.offset)) ∧
    ∀ c ∈ v.constants, ∃ x, v.constantValue? c.name = some x ∧
      u.constantValue? c.name = some x := by
  obtain ⟨root, u₀, hroot, hload, hres⟩ := compile_eq_ok.mp hu
  obtain ⟨b', v₀, hb', hload', hres'⟩ := compile_eq_ok.mp hv
  -- the file is the same whether it is included or asked for by its name
  cases hb'.symm.trans hb.fetch_name
  obtain ⟨root', hroot', hincl⟩ := hb
  cases hroot'.symm.trans hroot
  obtain ⟨w, hw, hdecl⟩ := Loader.load_included hload hincl
  cases hw.symm.trans hload'
  obtain ⟨extent, hru⟩ := CompilationUnit.resolve_spec hres
  obtain ⟨extent', hrv⟩ := CompilationUnit.resolve_spec hres'
  have hd : u.Declares v := hru.declares.trans (hdecl.trans hrv.declared)
  refine ⟨fun s hs => ?_, fun c hc => hru.constant_agrees hrv hd hc⟩
  have hplaced := hrv.placed s hs
  obtain ⟨s', hs', hn, he, hf⟩ := hrv.laid_out.struct_agrees hru.laid_out hd hs
  refine ⟨s', hn ▸ CompilationUnit.struct?_eq_some hru.names_distinct hs', ?_, he, ?_, hf⟩
  · rw [hplaced.extent, Option.isSome_some]
  · exact hplaced.offset_is_some

def chainSources : MemorySources :=
  ⟨[("a", "include\"b\""), ("b", "include\"c\"struct B\x7bC c;\x7d"),
    ("c", "const N=1 struct C\x7bu16 x;\x7d")]⟩

theorem chain_sources_opens :
    Opens chainSources.sources "a" ⟨"c", "c", "const N=1 struct C\x7bu16 x;\x7d"⟩ := by
  have hab : .inclusion ⟨"a", 1⟩ "b" ∈ (Script.ofText "a" "include\"b\"").statements := by
    decide +kernel
  have hbc : .inclusion ⟨"b", 1⟩ "c" ∈
      (Script.ofText "b" "include\"c\"struct B\x7bC c;\x7d").statements := by decide +kernel
  have ha : chainSources.sources.fetch none "a" = .ok ⟨"a", "a", "include\"b\""⟩ := by
    decide +kernel
  have hb : chainSources.sources.fetch (some "a") "b" =
      .ok ⟨"b", "b", "include\"c\"struct B\x7bC c;\x7d"⟩ := by decide +kernel
  have hc : chainSources.sources.fetch (some "b") "c" =
      .ok ⟨"c", "c", "const N=1 struct C\x7bu16 x;\x7d"⟩ := by decide +kernel
  exact ⟨_, ha, .tail (.single ⟨_, _, hab, hb⟩) ⟨_, _, hbc, hc⟩⟩

def chainUnit : CompilationUnit :=
  { CompilationUnit.empty "a" with
    includes := ["b"]
    structs := [⟨⟨"c", 1⟩, "C", [⟨⟨"c", 1⟩, "x", .primitive .u16, none⟩], true, none⟩,
      ⟨⟨"b", 1⟩, "B", [⟨⟨"b", 1⟩, "c", .struct ⟨⟨"b", 1⟩, "C", none⟩, none⟩], true, none⟩]
    constants := [⟨⟨"c", 1⟩, "N", .literal ⟨"c", 1⟩ 1, true⟩] }

/-- The last file of the chain on its own. -/
def chainedUnit : CompilationUnit :=
  { CompilationUnit.empty "c" with
    structs := [⟨⟨"c", 1⟩, "C", [⟨⟨"c", 1⟩, "x", .primitive .u16, none⟩], false, none⟩]
    constants := [⟨⟨"c", 1⟩, "N", .literal ⟨"c", 1⟩ 1, false⟩] }

theorem compile_opened_agrees_chain :
    ∃ u v, compile chainSources.sources "a" = .ok u ∧ compile chainSources.sources "c" = .ok v ∧
      v.structs.length = 1 ∧ v.constants.length = 1 ∧
      (∀ s ∈ v.structs, ∃ s', u.struct? s.name = some s' ∧ s'.extent = s.extent) ∧
      ∀ c ∈ v.constants, u.constantValue? c.name = v.constantValue? c.name := by
  have hload : chainSources.sources.loaded? "a" = some chainUnit := by decide +kernel
  have hload' : chainSources.sources.loaded? "c" = some chainedUnit := by decide +kernel
  have hrun : (chainUnit.resolve.failure == none && chainedUnit.resolve.failure == none &&
      (chainedUnit.resolve.state.structs.length == 1 &&
        chainedUnit.resolve.state.constants.length == 1)) = true := by cbv
  simp only [Bool.and_eq_true, beq_iff_eq] at hrun
  obtain ⟨⟨hdone, hdone'⟩, hlen⟩ := hrun
  have hu := compile_of_load hload (Progress.eq_done hdone)
  have hv := compile_of_load hload' (Progress.eq_done hdone')
  obtain ⟨hs, hc⟩ := compile_opened_agrees hu chain_sources_opens hv
  refine ⟨_, _, hu, hv, hlen.1, hlen.2, fun s hm => ?_, fun c hm => ?_⟩
  · obtain ⟨s', hs', _, he, _⟩ := hs s hm
    exact ⟨s', hs', he⟩
  · obtain ⟨x, hx, hx'⟩ := hc c hm
    rw [hx, hx']

end DataLayout
