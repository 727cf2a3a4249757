import DataLayout.Proofs.Acceptance
import DataLayout.Proofs.FollowingFiles
import DataLayout.Proofs.Fragments

/-!
# The first token that cannot come

A file that cannot be read fails at the first token that no accepted file has there: the tokens
before it start an accepted file, and with it they start none. A lexical error comes behind tokens
that start an accepted file. A file that includes no other fails in no other way.
-/

set_option autoImplicit false

namespace DataLayout
open Expectation Grammar

/-- The tokens of a source up to its end, which is the last of them, or up to a lexical error. -/
def Source.tokens (source : Source) : List Token :=
  (TokenStream.ofText source.name source.text).ending.tokens
    (TokenStream.ofText source.name source.text).tokens

def Source.symbols (source : Source) : List Symbol := source.tokens.map Located.value

def Sources.Completes (sources : Sources) (ss : List Symbol) : Prop :=
  ∃ source unit, ((Loader.ofSources sources).load source).1 = .ok unit ∧ ss <+: source.symbols

/-- The symbols start an accepted file. It is accepted with any store, unless they start an include
statement, whose file must be in the store. -/
structure Startable (ss : List Symbol) : Prop where
  somewhere : ∃ sources : Sources, sources.Completes ss
  everywhere : .keyword .incl ∉ ss → ∀ sources : Sources, sources.Completes ss

def Sources.blank : Sources where
  fetch _ _ := .ok ⟨"", "", ""⟩
  identities := [""]
  mem_identities _ _ s h := by
    cases h
    exact List.mem_singleton_self ""

namespace Ending

variable {ending : Ending} {ts : List Token}

theorem mem_tokens {t : Token} (h : t ∈ ts) : t ∈ ending.tokens ts := by
  cases ending with
  | eof loc => exact List.mem_append_left _ h
  | fault e => exact h

theorem mem_of_mem_before {before after : List Token} {t b : Token}
    (h : ending.tokens ts = before ++ t :: after) (hb : b ∈ before) : b ∈ ts := by
  have hbefore : before <+: ending.tokens ts := ⟨t :: after, h.symm⟩
  cases ending with
  | fault e => exact hbefore.subset hb
  | eof loc =>
    cases List.prefix_concat_iff.mp hbefore with
    | inr hprefix => exact hprefix.subset hb
    | inl hall =>
      have hlength := congrArg List.length h
      simp [tokens, hall] at hlength

end Ending

namespace Source

variable {source : Source}

theorem tokens_ne_eof (source : Source) :
    ∀ t ∈ (TokenStream.ofText source.name source.text).tokens, t.value ≠ .eof := by
  intro t ht heof
  have hw := TokenStream.of_text_writable source.name source.text t ht
  rw [heof] at hw
  exact hw

theorem run_symbols (h : (Script.ofText source.name source.text).failure = none) :
    run [] source.symbols = some [] := by
  obtain ⟨pre, left, hpre, hrun, hnext⟩ := (Script.of_tokens_passed source.tokens_ne_eof h).reached
  obtain ⟨loc, hend⟩ := Ending.look_eq_ok.mp (Script.file_of_of_tokens h).1
  rw [List.append_nil] at hpre
  rw [hend] at hnext
  rw [symbols, tokens, hend, hpre, Ending.tokens, List.map_append, run_append_of_run hrun]
  simp only [List.map_singleton, run, step_passes (hnext _ [] rfl)]
  rfl

theorem failure_of_run (source : Source) {loc : Location}
    (hend : (TokenStream.ofText source.name source.text).ending = .eof loc)
    (hrun : run [] source.symbols ≠ none) :
    (Script.ofText source.name source.text).failure = none := by
  cases hf : (Script.ofText source.name source.text).failure with
  | none => rfl
  | some f =>
    cases Script.of_tokens_stuck source.tokens_ne_eof hf with
    | lexical he =>
      rw [hend] at he
      cases he
    | @refused before after t ys hts _ _ hbefore hstep =>
      refine absurd ?_ hrun
      rw [symbols, tokens, hts, List.map_append, List.map_cons]
      exact run_eq_none_of_refused hbefore hstep _

theorem exists_of_run {ss : List Symbol} (hs : ∀ s ∈ ss, s.Writable)
    (hrun : run [] (ss ++ [.eof]) ≠ none) (name identity : String) :
    ∃ text, (Script.ofText name text).failure = none ∧
      (Source.mk name identity text).symbols = ss ++ [.eof] := by
  obtain ⟨cs, hcs⟩ := Lexeme.exists_rendered ss hs
  have hspells := hcs.spells_all hs fun _ => .nil
  rw [List.nil_append, ← String.toList_ofList (l := cs)] at hspells
  obtain ⟨⟨loc, hend⟩, htokens⟩ := (TokenStream.of_text_reads name (String.ofList cs) ss).mpr
    ((Lexer.of_text_yields name (String.ofList cs) ss).mpr hspells)
  have hsymbols : (Source.mk name identity (String.ofList cs)).symbols = ss ++ [.eof] := by
    rw [symbols, tokens, hend, Ending.tokens, List.map_append, htokens]
    rfl
  refine ⟨String.ofList cs, ?_, hsymbols⟩
  exact failure_of_run ⟨name, identity, String.ofList cs⟩ hend (hsymbols ▸ hrun)

theorem no_inclusion (h : (Script.ofText source.name source.text).failure = none)
    (hincl : .keyword .incl ∉ source.symbols) :
    ∀ loc path, .inclusion loc path ∉ (Script.ofText source.name source.text).statements := by
  intro loc path hm
  obtain ⟨ds, hds⟩ := failure_eq_none.mp h
  refine hds.2.not_no_include (mem_of_forall₂_states hds.states hm) fun loc₁ loc₂ path₁ hin => ?_
  have hword := hin.subset List.mem_cons_self
  exact hincl (List.mem_map_of_mem (Ending.mem_tokens hword))

end Source

namespace Loader

variable {source : Source}

theorem load_empty_file (sources : Sources) (loading : List String) :
    (loadTo sources 0 ⟨"", "", ""⟩ loading).1 = .ok (.empty "") := by
  have hscript : Script.ofText "" "" = ⟨[], none⟩ := by decide +kernel
  refine load_to_eq_ok.mpr ?_
  rw [hscript]
  exact ⟨rfl, .nil⟩

theorem exists_load_blank (source : Source) (hid : source.identity ≠ "")
    (h : (Script.ofText source.name source.text).failure = none) :
    ∃ u, ((ofSources .blank).load source).1 = .ok u := by
  obtain ⟨u, hu⟩ : ∃ u, Gathers .blank (Nested (below .blank 1) [source.identity]) source.name
      (Script.ofText source.name source.text).statements (.empty source.name) u := by
    refine exists_gathers_of_nested (fun loc path _ => ⟨⟨"", "", ""⟩, rfl, .empty "", ?_⟩) _
    refine ⟨fun hm => hid (List.mem_singleton.mp hm).symm, loadTo .blank 0, rfl, ?_⟩
    exact load_empty_file .blank [source.identity]
  exact ⟨u, load_to_eq_ok.mpr ⟨h, hu⟩⟩

theorem assemble_of_no_inclusion {sources : Sources}
    {load : Option (Source → List String → Outcome)} {file : String} {failure : Option ParseFailure}
    {statements : List Statement} (hno : ∀ loc path, .inclusion loc path ∉ statements)
    {u : CompilationUnit} {loading : List String} {f : ParseFailure}
    (h : (assemble sources load file failure statements u loading).1 = .error f) :
    failure = some f := by
  induction statements generalizing u with
  | nil =>
    cases failure with
    | none => cases h
    | some f' =>
      cases h
      rfl
  | cons statement rest ih =>
    have hrest : ∀ loc path, .inclusion loc path ∉ rest :=
      fun loc path hm => hno loc path (List.mem_cons_of_mem _ hm)
    cases statement with
    | struct s fns => exact ih hrest h
    | constant c => exact ih hrest h
    | inclusion loc path => exact absurd List.mem_cons_self (hno loc path)

theorem load_eq_error_iff (l : Loader) {f : ParseFailure}
    (hno : ∀ loc path, .inclusion loc path ∉ (Script.ofText source.name source.text).statements) :
    (l.load source).1 = .error f ↔ (Script.ofText source.name source.text).failure = some f := by
  have hforward : ∀ f', (l.load source).1 = .error f' →
      (Script.ofText source.name source.text).failure = some f' := by
    intro f' h
    rw [load, load_to_eq] at h
    exact assemble_of_no_inclusion hno h
  refine ⟨hforward f, fun h => ?_⟩
  cases hload : (l.load source).1 with
  | ok u =>
    have hnone := (load_to_eq_ok.mp hload).1
    rw [h] at hnone
    cases hnone
  | error f' =>
    have hf := hforward f' hload
    rw [h] at hf
    cases hf
    rfl

end Loader

theorem startable_of_run {ss : List Symbol} {xs : List Expectation} (hs : ∀ s ∈ ss, s.Writable)
    (h : run [] ss = some xs) : Startable ss := by
  have hclosing : ∀ s ∈ xs.flatMap closing, s.Writable ∧ s ≠ .keyword .incl := by
    intro s hm
    obtain ⟨x, _, hx⟩ := List.mem_flatMap.mp hm
    exact closing_writable x s hx
  have hwritable : ∀ s ∈ ss ++ xs.flatMap closing, s.Writable :=
    List.forall_mem_append.mpr ⟨hs, fun s hm => (hclosing s hm).1⟩
  have hrun : run [] ((ss ++ xs.flatMap closing) ++ [.eof]) = some [] := by
    rw [List.append_assoc, run_append_of_run h, run_completion]
  obtain ⟨text, hread, hsymbols⟩ := Source.exists_of_run hwritable (hrun ▸ Option.some_ne_none _)
    "a" "a"
  have hstarts : ss <+: (Source.mk "a" "a" text).symbols := by
    rw [hsymbols, List.append_assoc]
    exact List.prefix_append ss _
  constructor
  · obtain ⟨u, hu⟩ := Loader.exists_load_blank ⟨"a", "a", text⟩ (by decide : "a" ≠ "") hread
    exact ⟨.blank, _, u, hu, hstarts⟩
  · intro hincl sources
    have hno : .keyword .incl ∉ (Source.mk "a" "a" text).symbols := by
      rw [hsymbols]
      simp only [List.mem_append, List.mem_singleton]
      rintro ((hm | hm) | hm)
      · exact hincl hm
      · exact (hclosing _ hm).2 rfl
      · cases hm
    obtain ⟨u, hu⟩ := (Loader.ofSources sources).exists_load_of_no_inclusion hread
      (Source.no_inclusion hread hno)
    exact ⟨_, u, hu, hstarts⟩

theorem not_completes_of_run {ss : List Symbol} (h : run [] ss = none) (sources : Sources) :
    ¬ sources.Completes ss := by
  rintro ⟨source, u, hu, more, hmore⟩
  have hread := Source.run_symbols (Loader.load_to_eq_ok.mp hu).1
  rw [← hmore, run_append, h] at hread
  cases hread

namespace Loader

/-- An error that is not lexical is at the first token that no accepted file has behind those
before it. A lexical error comes behind tokens that start an accepted file. -/
theorem error_at_first_impossible_token (l : Loader) (source : Source)
    (hno : ∀ loc path, .inclusion loc path ∉ (Script.ofText source.name source.text).statements)
    (f : ParseFailure) (h : (l.load source).1 = .error f) :
    (f.value.NotLexical → ∃ before k after, source.tokens = before ++ k :: after ∧
      f.location = k.location ∧ Startable (before.map Located.value) ∧
      ∀ sources : Sources, ¬ sources.Completes ((before ++ [k]).map Located.value)) ∧
    ∀ e, f.value = .lexical e →
      (TokenStream.ofText source.name source.text).ending = .fault ⟨f.location, e⟩ ∧
      Startable source.symbols := by
  have hwritable := TokenStream.of_text_writable source.name source.text
  cases Script.of_tokens_stuck source.tokens_ne_eof ((l.load_eq_error_iff hno).mp h) with
  | @lexical e ys he hf hrun =>
    refine ⟨fun hlex => absurd (congrArg Located.value hf) (hlex e.value), fun e' he' => ?_⟩
    have hsymbols : source.symbols =
        (TokenStream.ofText source.name source.text).tokens.map Located.value := by
      rw [Source.symbols, Source.tokens, he]
      rfl
    rw [hf] at he' ⊢
    cases he'
    exact ⟨he, hsymbols ▸ startable_of_run (List.forall_mem_map.mpr hwritable) hrun⟩
  | @refused before after k ys hts hloc hf hrun hstep =>
    refine ⟨fun _ => ⟨before, k, after, hts, hloc, startable_of_run ?_ hrun, ?_⟩, ?_⟩
    · exact List.forall_mem_map.mpr fun t ht => hwritable t (Ending.mem_of_mem_before hts ht)
    · refine not_completes_of_run ?_
      rw [List.map_append]
      exact run_eq_none_of_refused hrun hstep []
    · exact fun e he => absurd he (hf e)

def pointerSource : Source := ⟨"a", "a", "struct S\n\x7bu8[2]\n*p;\x7d"⟩

theorem error_at_first_impossible_token_pointer :
    ((ofSources MemorySources.empty.sources).load pointerSource).1 =
      .error ⟨⟨"a", 3⟩, .pointerToArray⟩ ∧
    ∃ before k after, pointerSource.tokens = before ++ k :: after ∧ ⟨"a", 3⟩ = k.location ∧
      Startable (before.map Located.value) ∧
      ∀ sources : Sources, ¬ sources.Completes ((before ++ [k]).map Located.value) := by
  have hscript : Script.ofText pointerSource.name pointerSource.text =
      ⟨[], some ⟨⟨"a", 3⟩, .pointerToArray⟩⟩ := by decide +kernel
  have hno : ∀ loc path,
      .inclusion loc path ∉ (Script.ofText pointerSource.name pointerSource.text).statements := by
    rw [hscript]
    exact fun _ _ => List.not_mem_nil
  have hload : ((ofSources MemorySources.empty.sources).load pointerSource).1 =
      .error ⟨⟨"a", 3⟩, .pointerToArray⟩ := by
    refine (load_eq_error_iff _ hno).mpr ?_
    rw [hscript]
  refine ⟨hload, (error_at_first_impossible_token _ pointerSource hno _ hload).1 ?_⟩
  intro e h
  cases h

end Loader

end DataLayout
