import DataLayout.Proofs.Loading
import Mathlib.Data.List.Nodup
import Mathlib.Data.List.Perm.Subperm
import Mathlib.Logic.Function.Iterate

/-!
# Loading step by step

A load can be followed from statement to statement. Files that are being read stand around one
another: the innermost is read on, and the others wait for it. No bound is set on how many there
are. The steps come to an end, and to the same end as a load that goes no deeper than there are
files in the store.
-/

set_option autoImplicit false

namespace DataLayout

/-- A file being read: the statements that are left, and what those before them have gathered. -/
structure Frame where
  source : Source
  statements : List Statement
  unit : CompilationUnit

def Frame.start (source : Source) : Frame :=
  ⟨source, (Script.ofText source.name source.text).statements, .empty source.name⟩

/-- How a load stands: a file is being read, for which others wait, each with the path by which it
includes the next one inside; or the load is over. -/
inductive LoadState where
  | reading (frame : Frame) (waiting : List (String × Frame))
  | finished (result : Except ParseFailure CompilationUnit)

namespace LoadState

def identities (waiting : List (String × Frame)) : List String :=
  waiting.map (·.2.source.identity)

def stack : LoadState → List String
  | .reading frame waiting => frame.source.identity :: identities waiting
  | .finished _ => []

/-- What a file has come to goes to the file that waits for it. A failure ends the load. -/
def leave (result : Except ParseFailure CompilationUnit) (waiting : List (String × Frame)) :
    LoadState :=
  match result, waiting with
  | .ok nested, (path, frame) :: outer =>
    .reading { frame with unit := frame.unit.addIncluded path nested } outer
  | result, _ => .finished result

def step (sources : Sources) : LoadState → LoadState
  | .finished result => .finished result
  | .reading ⟨source, [], unit⟩ waiting =>
    match (Script.ofText source.name source.text).failure with
    | some f => leave (.error f) waiting
    | none => leave (.ok unit) waiting
  | .reading ⟨source, .struct s fns :: rest, unit⟩ waiting =>
    .reading ⟨source, rest, unit.addStruct s fns⟩ waiting
  | .reading ⟨source, .constant c :: rest, unit⟩ waiting =>
    .reading ⟨source, rest, unit.addConstant c⟩ waiting
  | .reading ⟨source, .inclusion loc path :: rest, unit⟩ waiting =>
    match sources.fetch (some source.name) path with
    | .error e => leave (.error ⟨loc, .includeNotFound path e.message⟩) waiting
    | .ok b =>
      if b.identity ∈ source.identity :: identities waiting then
        leave (.error ⟨loc, .includeCycle path⟩) waiting
      else .reading (.start b) ((path, ⟨source, rest, unit⟩) :: waiting)

@[simp] theorem leave_error (f : ParseFailure) (waiting : List (String × Frame)) :
    leave (.error f) waiting = .finished (.error f) := by
  cases waiting <;> rfl

@[simp] theorem leave_nil (result : Except ParseFailure CompilationUnit) :
    leave result [] = .finished result := by
  cases result <;> rfl

def Leads (sources : Sources) (p q : LoadState) : Prop := ∃ n, (step sources)^[n] p = q

namespace Leads

variable {sources : Sources} {p q r : LoadState}

theorem refl (p : LoadState) : Leads sources p p := ⟨0, rfl⟩

theorem head (h : Leads sources (step sources p) q) : Leads sources p q := by
  obtain ⟨n, rfl⟩ := h
  exact ⟨n + 1, rfl⟩

theorem trans (h : Leads sources p q) (h' : Leads sources q r) : Leads sources p r := by
  obtain ⟨n, rfl⟩ := h
  obtain ⟨n', rfl⟩ := h'
  exact ⟨n' + n, Function.iterate_add_apply _ _ _ _⟩

end Leads

variable {sources : Sources} {source : Source} {waiting : List (String × Frame)}

theorem leads_assemble {load : Source → List String → Loader.Outcome}
    (hk : Loader.KeepsStack (some load))
    (hload : ∀ b path frame, b.identity ∉ source.identity :: identities waiting →
      b.identity ∈ sources.identities → frame.source = source →
      Leads sources (.reading (.start b) ((path, frame) :: waiting))
        (leave (load b (source.identity :: identities waiting)).1 ((path, frame) :: waiting)))
    (statements : List Statement) (unit : CompilationUnit) :
    Leads sources (.reading ⟨source, statements, unit⟩ waiting)
      (leave (Loader.assemble sources (some load) source.name
        (Script.ofText source.name source.text).failure statements unit
        (source.identity :: identities waiting)).1 waiting) := by
  induction statements generalizing unit with
  | nil =>
    apply Leads.head
    rw [step]
    cases (Script.ofText source.name source.text).failure with
    | some f => exact .refl _
    | none => exact .refl _
  | cons statement rest ih =>
    apply Leads.head
    cases statement with
    | struct s fns => exact ih _
    | constant c => exact ih _
    | inclusion loc path =>
      rw [step, Loader.assemble]
      cases hb : sources.fetch (some source.name) path with
      | error e => exact .refl _
      | ok b =>
        dsimp only
        split_ifs with hm
        · exact .refl _
        · have hin := sources.mem_identities _ _ _ hb
          refine (hload b path ⟨source, rest, unit⟩ hm hin rfl).trans ?_
          have hkeep := hk load rfl b (source.identity :: identities waiting)
          generalize load b (source.identity :: identities waiting) = outcome at hkeep ⊢
          obtain ⟨result, loading⟩ := outcome
          cases hkeep
          cases result with
          | error f =>
            rw [leave_error, leave_error]
            exact .refl _
          | ok nested => exact ih _

/-- The steps through a file lead to what it is loaded as, as long as the depth makes up for the
files that are not being read. -/
theorem leads_load_to {depth : Nat}
    (hn : (source.identity :: identities waiting).Nodup)
    (hs : source.identity :: identities waiting ⊆ sources.identities)
    (hd : sources.identities.length ≤ depth + (identities waiting).length) :
    Leads sources (.reading (.start source) waiting)
      (leave (Loader.loadTo sources depth source (identities waiting)).1 waiting) := by
  induction depth generalizing source waiting with
  | zero =>
    -- more files would be read than there are
    have hle := (List.subperm_of_subset hn hs).length_le
    rw [List.length_cons] at hle
    omega
  | succ depth ih =>
    refine leads_assemble (Loader.below_keeps_stack sources (depth + 1)) ?_ _ _
    rintro b path frame hb hin rfl
    have hwait : identities ((path, frame) :: waiting) =
        frame.source.identity :: identities waiting := rfl
    rw [← hwait]
    apply ih
    · exact List.nodup_cons.mpr ⟨hb, hn⟩
    · exact List.cons_subset.mpr ⟨hin, hs⟩
    · rw [hwait, List.length_cons]
      omega

theorem leads_load (hroot : source.identity ∈ sources.identities) :
    Leads sources (.reading (.start source) [])
      (.finished ((Loader.ofSources sources).load source).1) := by
  rw [← leave_nil]
  refine leads_load_to (List.nodup_singleton _) ?_ (Nat.le_add_right _ _)
  exact List.cons_subset.mpr ⟨hroot, List.nil_subset _⟩

end LoadState

end DataLayout
