import DataLayout.Proofs.Loading

/-!
# Loading one file after another

A loader leaves every file it has entered, so it can be used again whatever came of loading: it
gives for each file what a new loader gives.
-/

set_option autoImplicit false

namespace DataLayout.Loader

/-- Loads the files one after another, each with the loader that the one before it left. -/
def loads (l : Loader) : List Source → List (Except ParseFailure CompilationUnit) × Loader
  | [] => ([], l)
  | source :: rest =>
    let outcome := l.load source
    let others := outcome.2.loads rest
    (outcome.1 :: others.1, others.2)

theorem load_to_stack (sources : Sources) (depth : Nat) (source : Source) (loading : List String) :
    (loadTo sources depth source loading).2 = loading := by
  rw [load_to_eq]
  exact enter_stack (below_keeps_stack sources depth) source loading

theorem load_loader (l : Loader) (source : Source) : (l.load source).2 = l := by
  rw [load, load_to_stack]

theorem loads_eq (l : Loader) (files : List Source) :
    l.loads files = (files.map fun source => (l.load source).1, l) := by
  induction files with
  | nil => rfl
  | cons source rest ih =>
    rw [loads, load_loader, ih]
    rfl

/-- Loading leaves the files being read as they were, whatever comes of it and however deep in
includes it has failed. So each of the files that one loader loads has the result it has with a
loader that has loaded none, and with a new loader if no file was being read. -/
theorem load_reusable (l : Loader) :
    (∀ depth source loading, (loadTo l.sources depth source loading).2 = loading) ∧
    (∀ source, (l.load source).2.loading = l.loading) ∧
    (∀ files, (l.loads files).1 = files.map fun source => (l.load source).1) ∧
    (l.loading = [] → ∀ files,
      (l.loads files).1 = files.map fun source => ((ofSources l.sources).load source).1) := by
  have hresults : ∀ files, (l.loads files).1 = files.map fun source => (l.load source).1 := by
    intro files
    rw [loads_eq]
  refine ⟨load_to_stack l.sources, fun source => by rw [load_loader], hresults, fun hnew => ?_⟩
  have hl : l = ofSources l.sources := by
    rw [ofSources, ← hnew]
  rwa [← hl]

end DataLayout.Loader
