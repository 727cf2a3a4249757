import DataLayout.Compile
import DataLayout.Proofs.ConstantValues
import DataLayout.Proofs.WellFormed

/-!
# Compiled units

A file compiles when it can be fetched, loaded and resolved. What comes out is the loaded unit
with its structs laid out and its constants evaluated.
-/

set_option autoImplicit false

namespace DataLayout

namespace CompilationUnit

variable {u v : CompilationUnit} {extent : String → Extent}

structure ResolvedAs (extent : String → Extent) (u v : CompilationUnit) : Prop
    extends u.Resolves extent v where
  wellFormed : u.WellFormed
  values : Constant.values u.constants = .ok v.values

theorem resolve_spec (h : u.resolve = .done v) : ∃ extent, u.ResolvedAs extent v := by
  have hf : u.resolve.failure = none := by rw [h]; rfl
  obtain ⟨hsc, _⟩ := Progress.and_then_failure.mp hf
  obtain ⟨hs, hc⟩ := Progress.and_then_failure.mp hsc
  obtain ⟨hw, extent, hr⟩ := resolve_structs_spec hs
  obtain ⟨vs, hvs⟩ := resolve_constants_failure.mp hc
  have hv := congrArg Progress.state h
  rw [resolve, Progress.and_then_of_failure_eq_none hsc, Progress.and_then_of_failure_eq_none hs,
    resolve_constants_state hvs] at hv
  subst hv
  refine ⟨extent, ⟨⟨⟨hr.same, ⟨hr.bound.fields, hr.bound.functions⟩, hr.constants⟩, hr.layout,
    hr.fits, hr.placed⟩, hw, ?_⟩⟩
  rw [← hr.constants]
  exact hvs

structure LaidOut (extent : String → Extent) (u : CompilationUnit) : Prop
    extends Placeable extent u.structs where
  fits : ∀ s ∈ u.structs, s.ExtentFits extent
  placed : ∀ s ∈ u.structs, s.LaidOutBy extent

theorem ResolvedAs.names_distinct (h : u.ResolvedAs extent v) :
    (v.structs.map Struct.name).Nodup :=
  h.same.names.nodup_iff.mpr h.wellFormed.structs_distinct

theorem ResolvedAs.laid_out (h : u.ResolvedAs extent v) : v.LaidOut extent where
  toPlaceable := h.placeable h.wellFormed.toBindable h.wellFormed.acyclic h.layout
  fits := h.same.symm.forall_mem (Struct.extent_fits_bare extent) h.fits
  placed := h.placed

theorem LaidOut.part_known (h : u.LaidOut extent) {t : Ty}
    (ht : ∀ r, t.embedded = some r → r.BoundIn u.structs) : t.PartKnown u.extent? extent := by
  intro r hr
  obtain ⟨i, s, hi, hs, hn⟩ := ht r hr
  have hm := List.mem_of_getElem? hs
  rw [hi, Option.bind_some, extent?, hs, Option.bind_some, (h.placed s hm).extent, ← hn,
    h.layout s hm]

end CompilationUnit

theorem compile_eq_ok {sources : Sources} {path : String} {v : CompilationUnit} :
    compile sources path = .ok v ↔ ∃ source u, sources.fetch none path = .ok source ∧
      ((Loader.ofSources sources).load source).1 = .ok u ∧ u.resolve = .done v := by
  rw [compile]
  cases hs : sources.fetch none path with
  | error e => simp
  | ok source =>
    dsimp only
    cases hl : ((Loader.ofSources sources).load source).1 with
    | error f => simp [hl]
    | ok u =>
      dsimp only
      split
      · next resolved hr => simp [hl, hr, Progress.done]
      · next f hr => simp [hl, hr, Progress.done]

/-- The unit of a file before it is resolved. -/
def Sources.loaded? (sources : Sources) (path : String) : Option CompilationUnit :=
  (sources.fetch none path).toOption.bind fun source =>
    ((Loader.ofSources sources).load source).1.toOption

theorem loaded?_eq_some {sources : Sources} {path : String} {u : CompilationUnit} :
    sources.loaded? path = some u ↔ ∃ source, sources.fetch none path = .ok source ∧
      ((Loader.ofSources sources).load source).1 = .ok u := by
  simp only [Sources.loaded?, Option.bind_eq_some_iff, except_to_option_eq_some]

theorem compile_of_load {sources : Sources} {path : String} {u v : CompilationUnit}
    (hload : sources.loaded? path = some u) (hdone : u.resolve = .done v) :
    compile sources path = .ok v := by
  obtain ⟨source, hfetch, hload⟩ := loaded?_eq_some.mp hload
  exact compile_eq_ok.mpr ⟨source, u, hfetch, hload, hdone⟩

end DataLayout
