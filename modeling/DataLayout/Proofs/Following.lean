import DataLayout.Proofs.Expectations
import DataLayout.Proofs.SyntaxErrors

/-!
# Readers do what is expected

Every reader goes along with the expectations it stands for. Where it succeeds its expectation has
been met, and what is left on the stack above the others can be left out for the token that
comes next. Where it fails the tokens before the failure could come, and the token at the failure
could not; or it is at a lexical error and all tokens of the file could come.
-/

set_option autoImplicit false

namespace DataLayout
open Expectation

def Ending.tokens (ending : Ending) (ts : List Token) : List Token :=
  match ending with
  | .eof loc => ts ++ [⟨loc, .eof⟩]
  | .fault _ => ts

@[simp] theorem Ending.tokens_cons (ending : Ending) (t : Token) (ts : List Token) :
    ending.tokens (t :: ts) = t :: ending.tokens ts := by
  cases ending <;> rfl

theorem Ending.tokens_append (ending : Ending) (ts ts' : List Token) :
    ending.tokens (ts ++ ts') = ts ++ ending.tokens ts' := by
  cases ending <;> simp [tokens]

def ParseError.NotLexical (e : ParseError) : Prop := ∀ e', e ≠ .lexical e'

/-- From `xs` expected in front of `ts` to `ys` expected in front of `rest`, but for expectations on
top that the next token passes. -/
structure Passed (ending : Ending) (xs : List Expectation) (ts : List Token)
    (ys : List Expectation) (rest : List Token) : Prop where
  reached : ∃ pre left, ts = pre ++ rest ∧ run xs (pre.map Located.value) = some (left ++ ys) ∧
    ∀ t more, ending.tokens rest = t :: more → ∀ x ∈ left, x.on t.value = .passes

/-- Where `xs` is expected in front of `ts` the failure is the only way to go on. -/
inductive Stuck (ending : Ending) (xs : List Expectation) (ts : List Token) (f : ParseFailure) :
    Prop
  | lexical {e : Located LexError} {ys : List Expectation} (he : ending = .fault e)
      (hf : f = e.map .lexical) (hrun : run xs (ts.map Located.value) = some ys) :
      Stuck ending xs ts f
  | refused {before after : List Token} {t : Token} {ys : List Expectation}
      (hts : ending.tokens ts = before ++ t :: after) (hloc : f.location = t.location)
      (hf : f.value.NotLexical) (hrun : run xs (before.map Located.value) = some ys)
      (hstep : step ys t.value = none) : Stuck ending xs ts f

/-- The reading comes from `xs` to `ys`, which may depend on what is read, or is stuck. -/
def Follows {n : Nat} {α : Type} (ending : Ending) (xs : List Expectation) (ts : List Token)
    (ys : α → List Expectation) : Reading n α → Prop
  | .ok p => Passed ending xs ts (ys p.value) p.rest
  | .error f => Stuck ending xs ts f

section Composition

variable {ending : Ending} {xs ys zs next : List Expectation} {x : Expectation}
  {ts mid rest : List Token} {t : Token} {f : ParseFailure}

theorem Follows.passed {n : Nat} {α : Type} {ys : α → List Expectation} {r : Reading n α} {v : α}
    {hlt : rest.length < n} (h : Follows ending xs ts ys r) (hr : r = .ok ⟨v, rest, hlt⟩) :
    Passed ending xs ts (ys v) rest := by
  subst hr
  exact h

theorem Follows.stuck {n : Nat} {α : Type} {ys : α → List Expectation} {r : Reading n α}
    (h : Follows ending xs ts ys r) (hr : r = .error f) : Stuck ending xs ts f := by
  subst hr
  exact h

theorem Passed.taken {loc : Location} {s : Symbol} (h : x.on s = .takes next) (ts : List Token) :
    Passed ending (x :: xs) (⟨loc, s⟩ :: ts) (next ++ xs) ts :=
  ⟨[⟨loc, s⟩], [], rfl, by rw [List.map_singleton, run, step_takes h]; rfl, by simp⟩

theorem Passed.left_out
    (h : ∀ t more, ending.tokens ts = t :: more → x.on t.value = .passes) :
    Passed ending (x :: xs) ts xs ts :=
  ⟨[], [x], rfl, rfl, fun t more ht => List.forall_mem_singleton.mpr (h t more ht)⟩

theorem Passed.left_out_for {loc : Location} {s : Symbol} (h : x.on s = .passes)
    (ts : List Token) : Passed ending (x :: xs) (⟨loc, s⟩ :: ts) xs (⟨loc, s⟩ :: ts) := by
  refine .left_out fun t' more ht => ?_
  rw [ending.tokens_cons] at ht
  cases ht
  exact h

theorem Passed.left_out_at_end (hl : ending.look = .ok ()) (h : x.on .eof = .passes) :
    Passed ending (x :: xs) [] xs [] := by
  refine .left_out fun t more ht => ?_
  obtain ⟨loc, rfl⟩ := Ending.look_eq_ok.mp hl
  cases ht
  exact h

/-- Behind tokens that could come, what is left on top makes no difference to a token that passes
it, nor to those that follow. -/
theorem run_behind {pre : List Token} {left : List Expectation}
    (hrun : run xs (pre.map Located.value) = some (left ++ ys))
    (hpass : ∀ x ∈ left, x.on t.value = .passes) (more : List Token) :
    run xs ((pre ++ t :: more).map Located.value) = run ys ((t :: more).map Located.value) := by
  rw [List.map_append, run_append_of_run hrun, List.map_cons, run, run, step_passes hpass]

theorem Passed.trans (h : Passed ending xs ts ys mid) (h' : Passed ending ys mid zs rest) :
    Passed ending xs ts zs rest := by
  obtain ⟨pre, left, rfl, hrun, hnext⟩ := h
  obtain ⟨pre', left', rfl, hrun', hnext'⟩ := h'
  cases pre' with
  | nil =>
    cases hrun'
    refine ⟨pre, left ++ left', by rw [List.nil_append], ?_, fun t more ht => ?_⟩
    · rw [hrun, List.append_assoc]
    · exact List.forall_mem_append.mpr ⟨hnext t more ht, hnext' t more ht⟩
  | cons t pre' =>
    refine ⟨pre ++ t :: pre', left', by rw [List.append_assoc], ?_, hnext'⟩
    rw [run_behind hrun (hnext t _ (ending.tokens_cons t _)), hrun']

theorem Passed.stuck (h : Passed ending xs ts ys mid) (h' : Stuck ending ys mid f) :
    Stuck ending xs ts f := by
  obtain ⟨pre, left, rfl, hrun, hnext⟩ := h
  cases h' with
  | lexical he hf hrun' =>
    cases mid with
    | nil =>
      rw [List.append_nil]
      exact .lexical he hf hrun
    | cons t mid =>
      exact .lexical he hf ((run_behind hrun (hnext t _ (ending.tokens_cons t _)) mid).trans hrun')
  | @refused before after k zs hts hloc hf hrun' hstep =>
    have hall : ending.tokens (pre ++ mid) = (pre ++ before) ++ k :: after := by
      rw [ending.tokens_append, hts, List.append_assoc]
    cases before with
    | nil =>
      cases hrun'
      rw [List.append_nil] at hall
      exact .refused hall hloc hf hrun ((step_passes (hnext k after hts) ys).trans hstep)
    | cons t before =>
      exact .refused hall hloc hf ((run_behind hrun (hnext t _ hts) before).trans hrun') hstep

theorem run_congr (h : step xs t.value = step ys t.value) (more : List Token) :
    run xs ((t :: more).map Located.value) = run ys ((t :: more).map Located.value) := by
  rw [List.map_cons, run, run, h]

theorem Stuck.congr (h : Stuck ending ys ts f)
    (hfirst : ∀ t more, ending.tokens ts = t :: more → step xs t.value = step ys t.value) :
    Stuck ending xs ts f := by
  cases h with
  | lexical he hf hrun =>
    cases ts with
    | nil => exact .lexical he hf rfl
    | cons t ts =>
      exact .lexical he hf ((run_congr (hfirst t _ (ending.tokens_cons t ts)) ts).trans hrun)
  | @refused before after k zs hts hloc hf hrun hstep =>
    cases before with
    | nil =>
      cases hrun
      exact .refused hts hloc hf rfl ((hfirst k after hts).trans hstep)
    | cons t before =>
      exact .refused hts hloc hf ((run_congr (hfirst t _ hts) before).trans hrun) hstep

theorem Passed.congr (h : Passed ending ys ts zs rest) (hlt : rest.length < ts.length)
    (hfirst : ∀ t more, ending.tokens ts = t :: more → step xs t.value = step ys t.value) :
    Passed ending xs ts zs rest := by
  obtain ⟨pre, left, rfl, hrun, hnext⟩ := h
  cases pre with
  | nil => exact absurd hlt (Nat.lt_irrefl _)
  | cons t pre =>
    exact ⟨t :: pre, left, rfl,
      (run_congr (hfirst t _ (ending.tokens_cons t _)) pre).trans hrun, hnext⟩

theorem Stuck.refused_first {loc : Location} {s : Symbol} (h : x.on s = .refuses)
    {e : ParseError} (he : e.NotLexical) : Stuck ending (x :: xs) (⟨loc, s⟩ :: ts) ⟨loc, e⟩ := by
  have hts : ending.tokens (⟨loc, s⟩ :: ts) = [] ++ ⟨loc, s⟩ :: ending.tokens ts :=
    ending.tokens_cons _ ts
  exact .refused hts rfl he rfl (step_refuses h xs)

theorem Stuck.refused_end (h : x.on .eof = .refuses) {complain : Symbol → ParseError}
    (hf : (complain .eof).NotLexical) : Stuck ending (x :: xs) [] (ending.failure complain) := by
  cases ending with
  | fault e => exact .lexical rfl rfl rfl
  | eof loc =>
    have hts : (Ending.eof loc).tokens [] = [] ++ ⟨loc, .eof⟩ :: [] := rfl
    exact .refused hts rfl hf rfl (step_refuses h xs)

theorem Stuck.of_look (h : ending.look = .error f) : Stuck ending xs [] f := by
  cases ending with
  | fault e =>
    cases h
    exact .lexical rfl rfl rfl
  | eof loc => cases h

end Composition

theorem Symbol.kind_mark {s : Symbol} {m : Mark} : s.kind = .mark m ↔ s = .mark m := by
  cases s <;> simp [kind]

namespace Ending

theorem head_ne {ending : Ending} {ts : List Token} {m : Mark}
    (h : ∀ loc rest, ts = ⟨loc, .mark m⟩ :: rest → False) {t : Token} {more : List Token}
    (ht : ending.tokens ts = t :: more) : t.value ≠ .mark m := by
  obtain ⟨loc, s⟩ := t
  rintro rfl
  cases ts with
  | nil => cases ending <;> cases ht
  | cons t ts =>
    rw [tokens_cons] at ht
    exact h loc ts (congrArg (· :: ts) (List.cons.inj ht).1)

variable {ending : Ending} (xs : List Expectation) (ts : List Token)

theorem take_follows {α : Type} {accept : Token → Option α} {complain : Symbol → ParseError}
    {x : Expectation} (next : α → List Expectation)
    (hyes : ∀ t v, accept t = some v → x.on t.value = .takes (next v))
    (hno : ∀ t, accept t = none → x.on t.value = .refuses) (hend : x.on .eof = .refuses)
    (hc : ∀ s, (complain s).NotLexical) :
    Follows ending (x :: xs) ts (fun v => next v ++ xs) (ending.take accept complain ts) := by
  cases ts with
  | nil => exact .refused_end hend (hc .eof)
  | cons t rest =>
    rw [take]
    cases h : accept t with
    | none => exact .refused_first (hno t h) (hc t.value)
    | some v => exact .taken (hyes t v h) rest

theorem expect_follows (wanted : Wanted) :
    Follows ending (.token wanted :: xs) ts (fun _ => xs) (ending.expect wanted.kind ts) := by
  refine take_follows xs ts (fun _ => []) (fun t v h => ?_) (fun t h => ?_) ?_ fun s e => by simp
  · split at h
    · next hk => exact if_pos hk
    · cases h
  · split at h
    · cases h
    · next hk => exact if_neg hk
  · cases wanted <;> rfl

theorem expect_value_follows {α : Type} (wanted : Wanted) {pick : Symbol → Option α}
    (hpick : ∀ s, (pick s).isSome ↔ s.kind = wanted.kind) :
    Follows ending (.token wanted :: xs) ts (fun _ => xs)
      (ending.expectValue wanted.kind pick ts) := by
  refine take_follows xs ts (fun _ => []) (fun t v h => ?_) (fun t h => ?_) ?_ fun s e => by simp
  · obtain ⟨x, hx, _⟩ := Option.map_eq_some_iff.mp h
    exact if_pos ((hpick t.value).mp (Option.isSome_of_eq_some hx))
  · refine if_neg fun hk => ?_
    have hsome := (hpick t.value).mpr hk
    rw [Option.map_eq_none_iff.mp h] at hsome
    cases hsome
  · cases wanted <;> rfl

theorem expect_name_follows :
    Follows ending (.token .name :: xs) ts (fun _ => xs) (ending.expectName ts) :=
  expect_value_follows xs ts .name fun s => by
    cases s <;> simp [Symbol.identifier?, Symbol.kind, Wanted.kind]

theorem expect_quoted_follows :
    Follows ending (.token .path :: xs) ts (fun _ => xs) (ending.expectQuoted ts) :=
  expect_value_follows xs ts .path fun s => by
    cases s <;> simp [Symbol.quoted?, Symbol.kind, Wanted.kind]

theorem skip_follows :
    Follows ending (.terminator :: xs) ts (fun _ => xs) (ending.skip (.mark .semicolon) ts) := by
  cases ts with
  | nil =>
    rw [skip]
    cases h : ending.look with
    | error f => exact .of_look h
    | ok u => exact Passed.left_out_at_end h rfl
  | cons t rest =>
    rw [skip]
    split_ifs with hk
    · obtain ⟨loc, rfl⟩ := Token.kind_mark.mp hk
      have htaken : on (.mark .semicolon) .terminator = .takes [] := rfl
      exact Passed.taken htaken rest
    · have hpass : on t.value .terminator = .passes :=
        if_neg fun hs => hk (by rw [Token.kind, hs]; rfl)
      exact Passed.left_out_for hpass rest

end Ending

namespace Expr

def AtomStart.next : AtomStart → List Expectation
  | .leaf _ => []
  | .group => [.atom, .operators 1, .token .rparen]
  | .unary _ _ => [.atom]

variable {ending : Ending}

theorem atom_start_follows (xs : List Expectation) (ts : List Token) :
    Follows ending (.atom :: xs) ts (fun v => v.next ++ xs)
      (ending.take AtomStart.ofToken? .expectedAtom ts) := by
  refine Ending.take_follows xs ts AtomStart.next ?_ ?_ rfl fun s e => by simp
  · rintro ⟨loc, s⟩ v h
    cases s with
    | integer | identifier =>
      cases h
      rfl
    | mark m => cases m <;> cases h <;> rfl
    | quoted | primitive | keyword | eof => cases h
  · rintro ⟨loc, s⟩ h
    cases s with
    | integer | identifier => cases h
    | mark m => cases m <;> cases h <;> rfl
    | quoted | primitive | keyword | eof => rfl

mutual

theorem read_atom_follows (xs : List Expectation) (ts : List Token) :
    Follows ending (.atom :: xs) ts (fun _ => xs) (readAtom ending ts) := by
  rw [readAtom]
  split
  · next f h => exact (atom_start_follows xs ts).stuck h
  · next e r₁ h₁ h => exact (atom_start_follows xs ts).passed h
  · next r₁ h₁ h =>
    have hstart := (atom_start_follows xs ts).passed h
    split
    · next f h => exact hstart.stuck ((read_binary_follows 1 (.token .rparen :: xs) r₁).stuck h)
    · next e r₂ h₂ h =>
      have hinner := hstart.trans ((read_binary_follows 1 (.token .rparen :: xs) r₁).passed h)
      split
      · next f h => exact hinner.stuck ((Ending.expect_follows xs r₂ .rparen).stuck h)
      · next t r₃ h₃ h => exact hinner.trans ((Ending.expect_follows xs r₂ .rparen).passed h)
  · next loc op r₁ h₁ h =>
    have hstart := (atom_start_follows xs ts).passed h
    split
    · next f h => exact hstart.stuck ((read_atom_follows xs r₁).stuck h)
    · next e r₂ h₂ h => exact hstart.trans ((read_atom_follows xs r₁).passed h)
termination_by 2 * ts.length

theorem read_binary_follows (level : Nat) (xs : List Expectation) (ts : List Token) :
    Follows ending (.atom :: .operators level :: xs) ts (fun _ => xs)
      (readBinary ending level ts) := by
  rw [readBinary]
  split
  · next f h => exact (read_atom_follows (.operators level :: xs) ts).stuck h
  · next left r₁ h₁ h =>
    have hatom := (read_atom_follows (.operators level :: xs) ts).passed h
    split
    · next f h => exact hatom.stuck ((read_operators_follows level left xs r₁).stuck h)
    · next e r₂ h₂ h => exact hatom.trans ((read_operators_follows level left xs r₁).passed h)
termination_by 2 * ts.length + 1

theorem read_operators_follows (level : Nat) (left : Expr) (xs : List Expectation)
    (ts : List Token) :
    Follows ending (.operators level :: xs) ts (fun _ => xs)
      (readOperators ending level left ts) := by
  cases ts with
  | nil =>
    rw [readOperators]
    split
    · next f h => exact .of_look h
    · next h => exact Passed.left_out_at_end h rfl
  | cons t rest =>
    rw [readOperators]
    split
    · next hop => exact Passed.left_out_for (by rw [on, onOperators, hop]) rest
    · next op hop =>
      have hreact : on t.value (.operators level) = if level ≤ op.precedence then
          .takes [.atom, .operators (op.precedence + 1), .operators level] else .passes := by
        rw [on, onOperators, hop]
      split_ifs with hlevel
      · have htaken := hreact.trans (if_pos hlevel)
        have hop : Passed ending (.operators level :: xs) (t :: rest) _ rest :=
          Passed.taken htaken rest
        have hright := read_binary_follows (op.precedence + 1) (.operators level :: xs) rest
        split
        · next f h => exact hop.stuck (hright.stuck h)
        · next right r₁ h₁ h =>
          have hpair := hop.trans (hright.passed h)
          split
          · next f h => exact hpair.stuck ((read_operators_follows level _ xs r₁).stuck h)
          · next e r₂ h₂ h => exact hpair.trans ((read_operators_follows level _ xs r₁).passed h)
      · exact Passed.left_out_for (hreact.trans (if_neg hlevel)) rest
termination_by 2 * ts.length

end

end Expr

end DataLayout
