import DataLayout.Compile
import DataLayout.Proofs.LoadSteps
import DataLayout.Source.Recorded

/-!
# What a compilation asks for

A compilation asks its store for the root file and then, step by step, for the files that are
included. It depends on the store through these answers alone, and it uses identities only to tell
files apart: a store that gives the same answers, with identities that are told apart alike, gives
the same result.
-/

set_option autoImplicit false

namespace DataLayout

def Source.identifiedBy (identify : String → String) (s : Source) : Source :=
  { s with identity := identify s.identity }

def Frame.identifiedBy (identify : String → String) (f : Frame) : Frame :=
  { f with source := f.source.identifiedBy identify }

theorem Frame.identified_by_mk (identify : String → String) (source : Source)
    (statements : List Statement) (unit : CompilationUnit) :
    (Frame.mk source statements unit).identifiedBy identify =
      ⟨source.identifiedBy identify, statements, unit⟩ := rfl

namespace LoadState

def request? : LoadState → Option Request
  | .reading ⟨source, .inclusion _ path :: _, _⟩ _ => some (some source.name, path)
  | _ => none

def identifiedBy (identify : String → String) : LoadState → LoadState
  | .reading frame waiting =>
    .reading (frame.identifiedBy identify) (waiting.map fun w => (w.1, w.2.identifiedBy identify))
  | .finished result => .finished result

variable {identify : String → String}

theorem identities_identified_by (waiting : List (String × Frame)) :
    identities (waiting.map fun w => (w.1, w.2.identifiedBy identify)) =
      (identities waiting).map identify := by
  simp [identities, Frame.identifiedBy, Source.identifiedBy, Function.comp_def]

theorem leave_identified_by (result : Except ParseFailure CompilationUnit)
    (waiting : List (String × Frame)) :
    leave result (waiting.map fun w => (w.1, w.2.identifiedBy identify)) =
      (leave result waiting).identifiedBy identify := by
  cases result with
  | error f => simp [identifiedBy]
  | ok u => cases waiting <;> rfl

def Answers (identify : String → String) (sources sources' : Sources) (r : Request) : Prop :=
  sources'.fetch r.1 r.2 = (sources.fetch r.1 r.2).map (·.identifiedBy identify)

variable {sources sources' : Sources} {p : LoadState}

theorem step_identified_by (hi : Function.Injective identify)
    (h : ∀ r, p.request? = some r → Answers identify sources sources' r) :
    step sources' (p.identifiedBy identify) = (step sources p).identifiedBy identify := by
  cases p with
  | finished result => rfl
  | reading frame waiting =>
    obtain ⟨source, statements, unit⟩ := frame
    cases statements with
    | nil =>
      rw [identifiedBy, Frame.identified_by_mk, step, step,
        show (source.identifiedBy identify).name = source.name from rfl,
        show (source.identifiedBy identify).text = source.text from rfl]
      cases (Script.ofText source.name source.text).failure with
      | some f => exact leave_identified_by (.error f) waiting
      | none => exact leave_identified_by (.ok unit) waiting
    | cons statement rest =>
      cases statement with
      | struct s fns => rfl
      | constant c => rfl
      | inclusion loc path =>
        have hfetch : sources'.fetch (some source.name) path =
            (sources.fetch (some source.name) path).map (·.identifiedBy identify) :=
          h (some source.name, path) rfl
        rw [identifiedBy, Frame.identified_by_mk, step, step,
          show (source.identifiedBy identify).name = source.name from rfl, hfetch,
          identities_identified_by]
        cases sources.fetch (some source.name) path with
        | error e => exact leave_identified_by _ waiting
        | ok b =>
          -- a file is found among those being read before and after the change, or neither time
          have hmem : (b.identifiedBy identify).identity ∈
              (source.identifiedBy identify).identity :: (identities waiting).map identify ↔
              b.identity ∈ source.identity :: identities waiting := by
            rw [show (source.identifiedBy identify).identity :: (identities waiting).map identify =
              (source.identity :: identities waiting).map identify from rfl]
            exact List.mem_map_of_injective hi
          simp only [Except.map, hmem]
          split_ifs
          · exact leave_identified_by _ waiting
          · rfl

theorem iterate_identified_by (hi : Function.Injective identify)
    (h : ∀ n r, ((step sources)^[n] p).request? = some r → Answers identify sources sources' r)
    (n : Nat) :
    (step sources')^[n] (p.identifiedBy identify) =
      ((step sources)^[n] p).identifiedBy identify := by
  induction n with
  | zero => rfl
  | succ n ih =>
    rw [Function.iterate_succ_apply', Function.iterate_succ_apply', ih]
    exact step_identified_by hi (h n)

theorem iterate_finished (sources : Sources) (result : Except ParseFailure CompilationUnit)
    (n : Nat) : (step sources)^[n] (.finished result) = .finished result :=
  Function.iterate_fixed rfl n

def isFinished : LoadState → Bool
  | .finished _ => true
  | .reading _ _ => false

theorem lt_of_request? {n m : Nat} {r : Request} (hn : ((step sources)^[n] p).isFinished = true)
    (hr : ((step sources)^[m] p).request? = some r) : m < n := by
  by_contra hle
  obtain ⟨k, rfl⟩ := Nat.exists_eq_add_of_le (Nat.le_of_not_lt hle)
  rw [Nat.add_comm, Function.iterate_add_apply] at hr
  cases hp : (step sources)^[n] p with
  | finished result =>
    rw [hp, iterate_finished] at hr
    cases hr
  | reading frame waiting =>
    rw [hp] at hn
    cases hn

theorem Leads.result_unique {r r' : Except ParseFailure CompilationUnit}
    (h : Leads sources p (.finished r)) (h' : Leads sources p (.finished r')) : r = r' := by
  obtain ⟨n, hn⟩ := h
  obtain ⟨n', hn'⟩ := h'
  have hsum : (step sources)^[n' + n] p = (step sources)^[n + n'] p := by rw [Nat.add_comm]
  rw [Function.iterate_add_apply, Function.iterate_add_apply, hn, hn', iterate_finished,
    iterate_finished] at hsum
  exact LoadState.finished.inj hsum

end LoadState

/-- Compiling the file at `path` asks the store for the root file and for the files that the load
comes to. -/
inductive Requested (sources : Sources) (path : String) : Request → Prop
  | root : Requested sources path (none, path)
  | inclusion {root : Source} {n : Nat} {r : Request} (hroot : sources.fetch none path = .ok root)
      (hr : ((LoadState.step sources)^[n] (.reading (.start root) [])).request? = some r) :
      Requested sources path r

variable {sources sources' : Sources} {path : String}

theorem Requested.forall_of_finished {P : Request → Prop} {root : Source} {n : Nat}
    (hroot : sources.fetch none path = .ok root)
    (hn : ((LoadState.step sources)^[n] (.reading (.start root) [])).isFinished = true)
    (hfirst : P (none, path))
    (h : ∀ k < n, ∀ r,
      ((LoadState.step sources)^[k] (.reading (.start root) [])).request? = some r → P r) :
    ∀ r, Requested sources path r → P r := by
  intro r hr
  cases hr with
  | root => exact hfirst
  | @inclusion root' k _ hroot' hk =>
    cases hroot.symm.trans hroot'
    exact h k (LoadState.lt_of_request? hn hk) r hk

theorem Loader.load_identified_by {identify : String → String} (hi : Function.Injective identify)
    {root : Source} (hroot : sources.fetch none path = .ok root)
    (h : ∀ r, Requested sources path r → LoadState.Answers identify sources sources' r) :
    ((ofSources sources').load (root.identifiedBy identify)).1 =
      ((ofSources sources).load root).1 := by
  have hroot' : sources'.fetch none path = .ok (root.identifiedBy identify) := by
    have hanswer := h _ .root
    rwa [LoadState.Answers, hroot] at hanswer
  obtain ⟨n, hn⟩ := LoadState.leads_load (sources.mem_identities _ _ _ hroot)
  have hrun := LoadState.iterate_identified_by hi (fun n r hr => h r (.inclusion hroot hr)) n
  rw [hn] at hrun
  exact (LoadState.leads_load (sources'.mem_identities _ _ _ hroot')).result_unique ⟨n, hrun⟩

theorem compile_identified_by {identify : String → String} (hi : Function.Injective identify)
    (h : ∀ r, Requested sources path r → LoadState.Answers identify sources sources' r) :
    compile sources' path = compile sources path := by
  have hanswer := h _ .root
  rw [LoadState.Answers] at hanswer
  rw [compile, compile, hanswer]
  cases hroot : sources.fetch none path with
  | error e => rfl
  | ok root =>
    simp only [Except.map]
    rw [Loader.load_identified_by hi hroot h]

end DataLayout
