import DataLayout.Proofs.WrittenFiles

/-!
# Errors of reading

Reading looks at the tokens of one file only. So it never complains about an include: that it
cannot be found or that it closes a cycle is not seen before the file is looked for.
-/

set_option autoImplicit false

namespace DataLayout

def ParseError.OfTokens : ParseError → Prop
  | .includeNotFound _ _ | .includeCycle _ => False
  | .lexical _ | .expected _ _ | .unexpectedAtFileScope _ | .expectedType _ | .expectedAtom _
  | .negativeArrayBound _ | .pointerToArray => True

def Reading.OnTokens {n : Nat} {α : Type} (r : Reading n α) : Prop :=
  ∀ f, r = .error f → f.value.OfTokens

theorem Reading.OnTokens.ok {n : Nat} {α : Type} (p : Phrase n α) : Reading.OnTokens (.ok p) := by
  intro f h
  cases h

theorem Reading.OnTokens.error {n : Nat} {α : Type} {f : ParseFailure} (h : f.value.OfTokens) :
    Reading.OnTokens (.error f : Reading n α) := by
  rintro f ⟨⟩
  exact h

namespace Ending

variable (ending : Ending) {α : Type} (ts : List Token)

theorem look_on_tokens {f : ParseFailure} (h : ending.look = .error f) : f.value.OfTokens := by
  cases ending <;> cases h
  trivial

theorem take_on_tokens (accept : Token → Option α) (complain : Symbol → ParseError)
    (hc : ∀ s, (complain s).OfTokens) : (ending.take accept complain ts).OnTokens := by
  cases ts with
  | nil =>
    cases ending with
    | fault e => exact .error trivial
    | eof loc => exact .error (hc _)
  | cons t ts =>
    rw [take]
    split
    · exact .ok _
    · exact .error (hc _)

theorem expect_on_tokens (k : Kind) : (ending.expect k ts).OnTokens :=
  ending.take_on_tokens ts _ _ fun _ => trivial

theorem expect_value_on_tokens (k : Kind) (pick : Symbol → Option α) :
    (ending.expectValue k pick ts).OnTokens :=
  ending.take_on_tokens ts _ _ fun _ => trivial

theorem skip_on_tokens (k : Kind) : (ending.skip k ts).OnTokens := by
  cases ts with
  | nil =>
    rw [skip]
    split
    · next f hl => exact .error (ending.look_on_tokens hl)
    · exact .ok _
  | cons t ts =>
    rw [skip]
    split_ifs
    · exact .ok _
    · exact .ok _

end Ending

namespace Expr

mutual

theorem read_atom_on_tokens (ending : Ending) (ts : List Token) :
    (readAtom ending ts).OnTokens := by
  rw [readAtom]
  split
  · next f h => exact .error (ending.take_on_tokens ts _ .expectedAtom (fun _ => trivial) f h)
  · exact .ok _
  · next r₁ h₁ _ =>
    split
    · next f h => exact .error (read_binary_on_tokens ending 1 r₁ f h)
    · next r₂ h₂ _ =>
      split
      · next f h => exact .error (ending.expect_on_tokens r₂ _ f h)
      · exact .ok _
  · next r₁ h₁ _ =>
    split
    · next f h => exact .error (read_atom_on_tokens ending r₁ f h)
    · exact .ok _
termination_by 2 * ts.length

theorem read_binary_on_tokens (ending : Ending) (level : Nat) (ts : List Token) :
    (readBinary ending level ts).OnTokens := by
  rw [readBinary]
  split
  · next f h => exact .error (read_atom_on_tokens ending ts f h)
  · next left r₁ h₁ _ =>
    split
    · next f h => exact .error (read_operators_on_tokens ending level left r₁ f h)
    · exact .ok _
termination_by 2 * ts.length + 1

theorem read_operators_on_tokens (ending : Ending) (level : Nat) (left : Expr) (ts : List Token) :
    (readOperators ending level left ts).OnTokens := by
  cases ts with
  | nil =>
    rw [readOperators]
    split
    · next f h => exact .error (ending.look_on_tokens h)
    · exact .ok _
  | cons t rest =>
    rw [readOperators]
    split
    · exact .ok _
    · next op _ =>
      split_ifs
      · split
        · next f h => exact .error (read_binary_on_tokens ending _ rest f h)
        · next right r₁ h₁ _ =>
          split
          · next f h => exact .error (read_operators_on_tokens ending level _ r₁ f h)
          · exact .ok _
      · exact .ok _
termination_by 2 * ts.length

end

end Expr

namespace Ty

theorem read_bound_on_tokens (ending : Ending) (ts : List Token) :
    (readBound ending ts).OnTokens := by
  rw [readBound]
  split
  · next f h => exact .error (ending.expect_value_on_tokens ts _ _ f h)
  · next n r₁ h₁ _ =>
    split_ifs
    · exact .error trivial
    · split
      · next f h => exact .error (ending.expect_on_tokens r₁ _ f h)
      · exact .ok _

mutual

theorem read_on_tokens (ending : Ending) (fns : List FunctionType) (ts : List Token) :
    (read ending fns ts).OnTokens := by
  rw [read]
  split
  · next f h => exact .error (ending.take_on_tokens ts _ .expectedType (fun _ => trivial) f h)
  · next base r₁ h₁ _ =>
    split
    · next f h => exact .error (read_suffixes_on_tokens ending fns base r₁ f h)
    · exact .ok _
termination_by 3 * ts.length + 1

theorem read_suffixes_on_tokens (ending : Ending) (fns : List FunctionType) (ty : Ty)
    (ts : List Token) : (readSuffixes ending fns ty ts).OnTokens := by
  generalize hts : ts = tokens
  rw [readSuffixes.eq_def]
  split
  · split
    · next f h => exact .error (ending.look_on_tokens h)
    · exact .ok _
  · next rest =>
    split
    · next f h => exact .error (read_bound_on_tokens ending rest f h)
    · next n r₁ h₁ _ =>
      have hlt : r₁.length < ts.length := by rw [hts]; exact Nat.lt_succ_of_lt h₁
      split
      · next f h => exact .error (read_suffixes_on_tokens ending fns _ r₁ f h)
      · exact .ok _
  · next rest =>
    have hlt : rest.length < ts.length := by rw [hts]; exact Nat.lt_succ_self _
    split_ifs
    · exact .error trivial
    · split
      · next f h => exact .error (read_suffixes_on_tokens ending fns _ rest f h)
      · exact .ok _
  · next rest =>
    have hlt : rest.length < ts.length := by rw [hts]; exact Nat.lt_succ_self _
    split
    · next f h => exact .error (read_params_on_tokens ending fns rest f h)
    · next params fns' r₁ h₁ _ =>
      split
      · next f h => exact .error (read_suffixes_on_tokens ending _ _ r₁ f h)
      · exact .ok _
  · exact .ok _
termination_by 3 * ts.length

theorem read_params_on_tokens (ending : Ending) (fns : List FunctionType) (ts : List Token) :
    (readParams ending fns ts).OnTokens := by
  rw [readParams.eq_def]
  split
  · exact .ok _
  · split
    · next f h => exact .error (read_on_tokens ending fns ts f h)
    · next ty fns₁ r₁ h₁ _ =>
      split
      · next f h => exact .error (ending.expect_value_on_tokens r₁ _ _ f h)
      · next name r₂ h₂ _ =>
        split
        · next f h => exact .error (read_more_params_on_tokens ending fns₁ r₂ f h)
        · exact .ok _
termination_by 3 * ts.length + 2

theorem read_more_params_on_tokens (ending : Ending) (fns : List FunctionType) (ts : List Token) :
    (readMoreParams ending fns ts).OnTokens := by
  rw [readMoreParams.eq_def]
  split
  · exact .ok _
  · split
    · next f h => exact .error (ending.expect_on_tokens ts _ f h)
    · next r₁ h₁ _ =>
      split
      · next f h => exact .error (read_on_tokens ending fns r₁ f h)
      · next ty fns₁ r₂ h₂ _ =>
        split
        · next f h => exact .error (ending.expect_value_on_tokens r₂ _ _ f h)
        · next name r₃ h₃ _ =>
          split
          · next f h => exact .error (read_more_params_on_tokens ending fns₁ r₃ f h)
          · exact .ok _
termination_by 3 * ts.length

end

end Ty

namespace Statement

variable (ending : Ending) (ts : List Token)

theorem read_more_names_on_tokens : (readMoreNames ending ts).OnTokens := by
  fun_induction readMoreNames ending ts with
  | case1 _ _ f h => exact .error (ending.expect_value_on_tokens _ _ _ f h)
  | case2 _ _ _ _ _ _ _ f h ih => exact .error (ih f h)
  | case3 | case5 => exact .ok _
  | case4 ts _ f h => exact .error (ending.expect_on_tokens ts _ f h)

theorem read_names_on_tokens : (readNames ending ts).OnTokens := by
  rw [readNames]
  split
  · next f h => exact .error (ending.expect_value_on_tokens ts _ _ f h)
  · next name r₁ h₁ _ =>
    split
    · next f h => exact .error (read_more_names_on_tokens ending r₁ f h)
    · exact .ok _

theorem read_fields_on_tokens (fns : List FunctionType) : (readFields ending fns ts).OnTokens := by
  fun_induction readFields ending fns ts with
  | case1 | case5 => exact .ok _
  | case2 fns ts _ f h => exact .error (Ty.read_on_tokens ending fns ts f h)
  | case3 _ _ _ _ _ r₁ _ _ f h => exact .error (read_names_on_tokens ending r₁ f h)
  | case4 _ _ _ _ _ _ _ _ _ _ _ _ f h ih => exact .error (ih f h)

theorem read_struct_on_tokens : (readStruct ending ts).OnTokens := by
  rw [readStruct]
  split
  · next f h => exact .error (ending.expect_value_on_tokens ts _ _ f h)
  · next name r₁ h₁ _ =>
    split
    · next f h => exact .error (ending.expect_on_tokens r₁ _ f h)
    · next r₂ h₂ _ =>
      split
      · next f h => exact .error (read_fields_on_tokens ending r₂ [] f h)
      · next r₃ h₃ _ =>
        split
        · next f h => exact .error (ending.skip_on_tokens r₃ _ f h)
        · exact .ok _

theorem read_constant_on_tokens : (readConstant ending ts).OnTokens := by
  rw [readConstant]
  split
  · next f h => exact .error (ending.expect_value_on_tokens ts _ _ f h)
  · next name r₁ h₁ _ =>
    split
    · next f h => exact .error (ending.expect_on_tokens r₁ _ f h)
    · next r₂ h₂ _ =>
      split
      · next f h => exact .error (Expr.read_binary_on_tokens ending 1 r₂ f h)
      · next r₃ h₃ _ =>
        split
        · next f h => exact .error (ending.skip_on_tokens r₃ _ f h)
        · exact .ok _

theorem read_inclusion_on_tokens : (readInclusion ending ts).OnTokens := by
  rw [readInclusion]
  split
  · next f h => exact .error (ending.expect_value_on_tokens ts _ _ f h)
  · next r₁ h₁ _ =>
    split
    · next f h => exact .error (ending.skip_on_tokens r₁ _ f h)
    · exact .ok _

theorem read_on_tokens (first : Token) : (read ending first ts).OnTokens := by
  rw [read]
  split
  · exact read_struct_on_tokens ending ts
  · exact read_constant_on_tokens ending ts
  · exact read_inclusion_on_tokens ending ts
  · exact .error trivial

end Statement

theorem Script.failure_on_tokens {ending : Ending} {ts : List Token} {f : ParseFailure}
    (h : (ofTokens ending ts).failure = some f) : f.value.OfTokens := by
  fun_induction ofTokens ending ts with
  | case1 _ hl =>
    cases h
    exact ending.look_on_tokens hl
  | case2 => cases h
  | case3 first rest _ hs =>
    cases h
    exact Statement.read_on_tokens ending rest first _ hs
  | case4 _ _ _ _ _ _ _ ih => exact ih h

end DataLayout
