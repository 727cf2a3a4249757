import DataLayout.Proofs.Lines
import DataLayout.Proofs.LoadSteps
import DataLayout.Proofs.SeparateCompilation
import DataLayout.Proofs.SyntaxErrors

/-!
# Cycles of includes

The files being read include one another, from the root file inwards, and are all different. So
there are never more of them than the store has files, a file that is included again while it is
being read closes a cycle, and a load that succeeds has met no cycle.
-/

set_option autoImplicit false

namespace DataLayout
open Relation

section Locations

theorem TokenStream.of_lexer_file (l : Lexer) :
    ∀ t ∈ (ofLexer l).tokens, t.location.file = l.file := by
  fun_induction ofLexer l with
  | case1 | case2 => simp
  | case3 l t h _ _ ih =>
    have hfile : l.read.2.file = l.file := by
      simp only [Lexer.read]
      split <;> rfl
    have ht : t.location.file = l.file := by
      rw [l.read_location.1 t h, ← hfile]
      rfl
    rw [hfile] at ih
    exact List.forall_mem_cons.mpr ⟨ht, ih⟩

theorem Statement.quoted_of_read {ending : Ending} {first : Token} {ts rest : List Token}
    {loc : Location} {path : String}
    (h : (read ending first ts).Gives (.inclusion loc path) rest) : ⟨loc, .quoted path⟩ ∈ ts := by
  rw [read] at h
  split at h
  · obtain ⟨_, _, _, _, _, _, _, _, _, hs⟩ := read_struct_gives.mp h
    cases hs
  · obtain ⟨_, _, _, _, _, _, _, _, hs⟩ := read_constant_gives.mp h
    cases hs
  · obtain ⟨path, r₁, rfl, _, hs⟩ := read_inclusion_gives.mp h
    cases hs
    exact List.mem_cons_self
  · simp at h

theorem Script.quoted_of_inclusion {ending : Ending} {ts : List Token} {loc : Location}
    {path : String} (h : .inclusion loc path ∈ (ofTokens ending ts).statements) :
    ⟨loc, .quoted path⟩ ∈ ts := by
  fun_induction ofTokens ending ts with
  | case1 | case2 | case3 => cases h
  | case4 first ts s r₁ h₁ hs _ ih =>
    rcases List.mem_cons.mp h with rfl | h
    · exact List.mem_cons_of_mem _ (Statement.quoted_of_read ⟨h₁, hs⟩)
    · obtain ⟨pre, d, rfl, _⟩ := Statement.defines_of_read ⟨h₁, hs⟩
      exact List.mem_cons_of_mem _ (List.mem_append_right _ (ih h))

theorem Source.file_of_inclusion {source : Source} {loc : Location} {path : String}
    (h : .inclusion loc path ∈ (Script.ofText source.name source.text).statements) :
    loc.file = source.name :=
  TokenStream.of_lexer_file (.ofText source.name source.text) _ (Script.quoted_of_inclusion h)

end Locations

namespace LoadState

/-- The files being read, innermost first: each is included by the next and is different from all
around it, the last is the root file, and of each some statements are left. -/
inductive Nests (sources : Sources) (root : Source) : Frame → List (String × Frame) → Prop
  | root {frame : Frame} (hf : frame.source = root)
      (hleft : frame.statements <:+ (Frame.start frame.source).statements) :
      Nests sources root frame []
  | inside {frame outer : Frame} {path : String} {waiting : List (String × Frame)}
      (h : Nests sources root outer waiting) (hi : Includes sources outer.source frame.source)
      (hnew : frame.source.identity ∉ outer.source.identity :: identities waiting)
      (hleft : frame.statements <:+ (Frame.start frame.source).statements) :
      Nests sources root frame ((path, outer) :: waiting)

namespace Nests

variable {sources : Sources} {root : Source} {frame : Frame} {waiting : List (String × Frame)}

theorem left (h : Nests sources root frame waiting) :
    frame.statements <:+ (Frame.start frame.source).statements := by
  cases h with
  | root _ hleft => exact hleft
  | inside _ _ _ hleft => exact hleft

theorem advance (h : Nests sources root frame waiting) {statements : List Statement}
    (hs : statements <:+ frame.statements) (unit : CompilationUnit) :
    Nests sources root ⟨frame.source, statements, unit⟩ waiting := by
  cases h with
  | root hf hleft => exact .root hf (hs.trans hleft)
  | inside h hi hnew hleft => exact .inside h hi hnew (hs.trans hleft)

theorem nodup (h : Nests sources root frame waiting) :
    (frame.source.identity :: identities waiting).Nodup := by
  induction h with
  | root => exact List.nodup_singleton _
  | inside _ _ hnew _ ih => exact List.nodup_cons.mpr ⟨hnew, ih⟩

theorem mem_store (hroot : root.identity ∈ sources.identities)
    (h : Nests sources root frame waiting) :
    frame.source.identity :: identities waiting ⊆ sources.identities := by
  induction h with
  | root hf =>
    rw [hf]
    exact List.cons_subset.mpr ⟨hroot, List.nil_subset _⟩
  | inside _ hi _ _ ih =>
    obtain ⟨_, path, _, hfetch⟩ := hi
    exact List.cons_subset.mpr ⟨sources.mem_identities _ path _ hfetch, ih⟩

theorem reached (h : Nests sources root frame waiting) :
    ReflTransGen (Includes sources) root frame.source := by
  induction h with
  | root hf => rw [hf]
  | inside _ hi _ _ ih => exact ih.tail hi

theorem exists_source (h : Nests sources root frame waiting) {identity : String}
    (hm : identity ∈ frame.source.identity :: identities waiting) :
    ∃ e : Source, e.identity = identity ∧ ReflTransGen (Includes sources) root e ∧
      ReflTransGen (Includes sources) e frame.source := by
  induction h with
  | root hf hleft =>
    rw [List.mem_singleton.mp hm]
    exact ⟨_, rfl, (Nests.root hf hleft).reached, .refl⟩
  | inside h hi hnew hleft ih =>
    rcases List.mem_cons.mp hm with rfl | hm
    · exact ⟨_, rfl, h.reached.tail hi, .refl⟩
    · obtain ⟨e, he, hroot, hin⟩ := ih hm
      exact ⟨e, he, hroot, hin.tail hi⟩

end Nests

/-- The statement at `loc` in a file that the root file reaches names a file whose identity is that
of a file that reaches it. -/
def ClosesCycle (sources : Sources) (root : Source) (loc : Location) (path : String) : Prop :=
  ∃ f g e : Source, ReflTransGen (Includes sources) root f ∧
    .inclusion loc path ∈ (Script.ofText f.name f.text).statements ∧
    sources.fetch (some f.name) path = .ok g ∧ e.identity = g.identity ∧
    ReflTransGen (Includes sources) root e ∧ ReflTransGen (Includes sources) e f

/-- What holds wherever a load stands: the files being read are nested, and a cycle is not reported
unless it is one. -/
def Consistent (sources : Sources) (root : Source) : LoadState → Prop
  | .reading frame waiting => Nests sources root frame waiting
  | .finished result =>
    ∀ loc path, result = .error ⟨loc, .includeCycle path⟩ → ClosesCycle sources root loc path

variable {sources : Sources} {root : Source}

theorem consistent_leave_error {f : ParseFailure} (waiting : List (String × Frame))
    (hf : ∀ path, f.value = .includeCycle path → ClosesCycle sources root f.location path) :
    Consistent sources root (leave (.error f) waiting) := by
  rw [leave_error]
  rintro loc path ⟨⟩
  exact hf path rfl

theorem Nests.consistent_leave {frame : Frame} {waiting : List (String × Frame)}
    (h : Nests sources root frame waiting) (u : CompilationUnit) :
    Consistent sources root (leave (.ok u) waiting) := by
  cases h with
  | root =>
    rintro loc path ⟨⟩
  | inside h => exact h.advance List.suffix_rfl _

theorem Consistent.step {p : LoadState} (h : Consistent sources root p) :
    Consistent sources root (p.step sources) := by
  cases p with
  | finished result => exact h
  | reading frame waiting =>
    obtain ⟨source, statements, unit⟩ := frame
    have hnests : Nests sources root ⟨source, statements, unit⟩ waiting := h
    cases statements with
    | nil =>
      rw [LoadState.step]
      split
      · next f hf =>
        -- reading a file complains about its tokens only
        refine consistent_leave_error waiting fun path hpath => ?_
        have hsyntax := Script.failure_on_tokens hf
        rw [hpath] at hsyntax
        exact hsyntax.elim
      · exact hnests.consistent_leave unit
    | cons statement rest =>
      have hrest := hnests.advance (List.suffix_cons statement rest)
      cases statement with
      | struct s fns => exact hrest _
      | constant c => exact hrest _
      | inclusion loc path =>
        have hmem := hnests.left.subset List.mem_cons_self
        rw [LoadState.step]
        split
        · refine consistent_leave_error waiting fun path hpath => ?_
          cases hpath
        · next b hb =>
          split_ifs with hm
          · refine consistent_leave_error waiting fun path hpath => ?_
            cases hpath
            obtain ⟨e, he, hroot, hin⟩ := hnests.exists_source hm
            exact ⟨source, b, e, hnests.reached, hmem, hb, he, hroot, hin⟩
          · exact .inside (hrest unit) ⟨loc, path, hmem, hb⟩ hm List.suffix_rfl

theorem consistent_iterate (sources : Sources) (root : Source) (n : Nat) :
    Consistent sources root ((LoadState.step sources)^[n] (.reading (.start root) [])) := by
  induction n with
  | zero => exact .root rfl List.suffix_rfl
  | succ n ih =>
    rw [Function.iterate_succ_apply']
    exact ih.step

theorem Consistent.stack {p : LoadState} (h : Consistent sources root p)
    (hroot : root.identity ∈ sources.identities) :
    p.stack.Nodup ∧ p.stack ⊆ sources.identities := by
  cases p with
  | finished result => exact ⟨List.nodup_nil, List.nil_subset _⟩
  | reading frame waiting => exact ⟨Nests.nodup h, Nests.mem_store hroot h⟩

end LoadState

theorem MemorySources.eq_of_identity {m : MemorySources} {origin origin' : Option String}
    {path path' : String} {s t : Source} (hs : m.fetch origin path = .ok s)
    (ht : m.fetch origin' path' = .ok t) (h : s.identity = t.identity) : s = t := by
  simp only [fetch] at hs ht
  split at hs
  · next text htext =>
    split at ht
    · next text' htext' =>
      cases hs
      cases ht
      dsimp only at h
      rw [h, htext'] at htext
      cases htext
      rw [h]
    · cases ht
  · cases hs

namespace Loader

theorem not_cycle_of_load_to {sources : Sources} {depth : Nat} {a : Source}
    {loading : List String} {u : CompilationUnit}
    (hu : (loadTo sources depth a loading).1 = .ok u) : ¬ TransGen (Includes sources) a a := by
  induction depth using Nat.strongRecOn generalizing loading u with
  | _ depth ih =>
  intro hcycle
  obtain ⟨b, ⟨loc, path, hm, hb⟩, hba⟩ := TransGen.head'_iff.mp hcycle
  obtain ⟨w, ⟨_, load', hload, hw⟩, _⟩ := (load_to_eq_ok.mp hu).2.declares_nested hm hb
  cases depth with
  | zero => cases hload
  | succ depth =>
    cases hload
    obtain ⟨depth', hle, loading', v, hv, _⟩ := load_to_included hw hba
    exact ih depth' (Nat.lt_succ_of_le hle) hv hcycle

/-- Loading a file of a store in memory ends. On the way the files being read are different files
of the store. If it succeeds, no cycle of includes is reached from the file; if it reports a cycle
at an include statement, the file that this statement names includes, through any number of
includes, the file that the statement is in. -/
theorem load_ends_and_cycles_exact (m : MemorySources) {path : String} {root : Source}
    (hroot : m.sources.fetch none path = .ok root) :
    (∃ n, (LoadState.step m.sources)^[n] (.reading (.start root) []) =
      .finished ((ofSources m.sources).load root).1) ∧
    (∀ n, ((LoadState.step m.sources)^[n] (.reading (.start root) [])).stack.Nodup ∧
      ((LoadState.step m.sources)^[n] (.reading (.start root) [])).stack ⊆
        m.files.map Prod.fst) ∧
    (∀ u, ((ofSources m.sources).load root).1 = .ok u →
      ∀ a, ReflTransGen (Includes m.sources) root a → ¬ TransGen (Includes m.sources) a a) ∧
    ∀ loc path', ((ofSources m.sources).load root).1 = .error ⟨loc, .includeCycle path'⟩ →
      ∃ f g, ReflTransGen (Includes m.sources) root f ∧ loc.file = f.name ∧
        .inclusion loc path' ∈ (Script.ofText f.name f.text).statements ∧
        m.sources.fetch (some f.name) path' = .ok g ∧ ReflTransGen (Includes m.sources) g f := by
  have hmem := m.sources.mem_identities none path root hroot
  have hends := LoadState.leads_load hmem
  refine ⟨hends, fun n => ?_, fun u hu a ha => ?_, fun loc path' herror => ?_⟩
  · exact (LoadState.consistent_iterate m.sources root n).stack hmem
  · obtain ⟨depth, _, loading, w, hw, _⟩ := load_to_included hu ha
    exact not_cycle_of_load_to hw
  · obtain ⟨n, hn⟩ := hends
    have hfinal := LoadState.consistent_iterate m.sources root n
    rw [hn] at hfinal
    obtain ⟨f, g, e, hf, hstatement, hg, heg, he, hef⟩ := hfinal loc path' herror
    -- the file on the stack with the identity of the included one is that file
    have hopened := Opens.fetch_name (m := m) ⟨root, hroot, he⟩
    cases MemorySources.eq_of_identity hopened hg heg
    exact ⟨f, g, hf, Source.file_of_inclusion hstatement, hstatement, hg, hef⟩

def cycleSources : MemorySources :=
  ⟨[("a", "include\"b\"const N=1"), ("b", "include\"c\""), ("c", "const K=2 include\"b\"")]⟩

def cycleRoot : Source := ⟨"a", "a", "include\"b\"const N=1"⟩

theorem load_ends_and_cycles_exact_cycle :
    ∃ root, cycleSources.sources.fetch none "a" = .ok root ∧
    ((ofSources cycleSources.sources).load root).1 = .error ⟨⟨"c", 1⟩, .includeCycle "b"⟩ ∧
    ∃ f g, f.name = "c" ∧ cycleSources.sources.fetch (some "c") "b" = .ok g ∧
      ReflTransGen (Includes cycleSources.sources) g f := by
  have hfetch : cycleSources.sources.fetch none "a" = .ok cycleRoot := by decide +kernel
  have hload : ((ofSources cycleSources.sources).load cycleRoot).1 =
      .error ⟨⟨"c", 1⟩, .includeCycle "b"⟩ := by decide +kernel
  obtain ⟨_, _, _, hcycle⟩ := load_ends_and_cycles_exact cycleSources hfetch
  obtain ⟨f, g, _, hname, _, hg, hgf⟩ := hcycle _ _ hload
  have hfile : f.name = "c" := hname.symm
  rw [hfile] at hg
  exact ⟨cycleRoot, hfetch, hload, f, g, hfile, hg, hgf⟩

end Loader

end DataLayout
