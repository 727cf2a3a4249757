import DataLayout.Proofs.Following

/-!
# Readers of files do what is expected

Types, definitions and statements are read along with the expectations they stand for, and so is a
whole file: it can be read to its end exactly if its tokens and its end can come one after another.
-/

set_option autoImplicit false

namespace DataLayout
open Expectation

namespace Ty

variable {ending : Ending}

theorem base_follows (xs : List Expectation) (ts : List Token) :
    Follows ending (.type :: xs) ts (fun ty => .suffixes ty.isArray :: xs)
      (ending.take ofToken? .expectedType ts) := by
  refine Ending.take_follows xs ts (fun ty : Ty => [.suffixes ty.isArray]) ?_ ?_ rfl ?_
  · rintro ⟨loc, s⟩ v h
    rw [ofToken?] at h
    split at h
    · next hs =>
      cases hs
      cases h
      rfl
    · next hs =>
      cases hs
      cases h
      rfl
    · next hs =>
      cases hs
      cases h
      rfl
    · cases h
  · rintro ⟨loc, s⟩ h
    cases s with
    | primitive | identifier => cases h
    | keyword k => cases k <;> cases h <;> rfl
    | integer | quoted | mark | eof => rfl
  · exact fun s e => by simp

theorem read_bound_follows (xs : List Expectation) (ts : List Token) :
    Follows ending (.bound :: .token .rbracket :: xs) ts (fun _ => xs) (readBound ending ts) := by
  rw [readBound]
  split
  · next f h =>
    cases ts with
    | nil =>
      cases h
      exact .refused_end rfl fun e => by simp
    | cons t rest =>
      obtain ⟨loc, s⟩ := t
      cases s with
      | integer n => cases h
      | identifier | quoted | primitive | keyword | mark | eof =>
        cases h
        exact .refused_first rfl fun e => by simp
  · next n r₁ h₁ h =>
    obtain rfl := Ending.expect_integer_gives.mp ⟨h₁, h⟩
    by_cases hn : n.value < 0
    · rw [if_pos hn]
      have hrefused : on (.integer n.value) .bound = .refuses := by
        simp [on, Symbol.integer?, Int64.not_le.mpr hn]
      exact .refused_first hrefused fun e => by simp
    · rw [if_neg hn]
      have htaken : on (.integer n.value) .bound = .takes [] := by
        simp [on, Symbol.integer?, Int64.not_lt.mp hn]
      have hbound : Passed ending (.bound :: .token .rbracket :: xs)
          (⟨n.location, .integer n.value⟩ :: r₁) (.token .rbracket :: xs) r₁ :=
        .taken htaken r₁
      split
      · next f h => exact hbound.stuck ((Ending.expect_follows xs r₁ .rbracket).stuck h)
      · next t r₂ h₂ h => exact hbound.trans ((Ending.expect_follows xs r₁ .rbracket).passed h)

theorem step_on_type {x : Expectation} {s : Symbol} {next : List Expectation}
    (h : x.on s = onType s next) (xs : List Expectation) :
    step (x :: xs) s = step (.type :: (next ++ xs)) s := by
  rw [step, step, h, on, onType, onType]
  by_cases hs : s.isBase = true
  · rw [if_pos hs, if_pos hs]
    rfl
  · rw [if_neg hs, if_neg hs]

theorem step_more_params {s : Symbol} (h : s ≠ .mark .rparen) (xs : List Expectation) :
    step (.moreParams :: xs) s =
      step (.token .comma :: .type :: .token .name :: .moreParams :: xs) s := by
  by_cases hs : s = .mark .comma
  · subst hs
    rfl
  · have hk : s.kind ≠ .mark .comma := fun hk => hs (Symbol.kind_mark.mp hk)
    rw [step_refuses, step_refuses]
    · exact if_neg hk
    · rw [on, if_neg h, if_neg hs]

mutual

theorem read_follows (fns : List FunctionType) (xs : List Expectation) (ts : List Token) :
    Follows ending (.type :: xs) ts (fun _ => xs) (read ending fns ts) := by
  rw [read]
  split
  · next f h => exact (base_follows xs ts).stuck h
  · next base r₁ h₁ h =>
    have hbase := (base_follows xs ts).passed h
    split
    · next f h => exact hbase.stuck ((read_suffixes_follows fns base xs r₁).stuck h)
    · next ty r₂ h₂ h => exact hbase.trans ((read_suffixes_follows fns base xs r₁).passed h)
termination_by 3 * ts.length + 1

theorem read_suffixes_follows (fns : List FunctionType) (ty : Ty) (xs : List Expectation)
    (ts : List Token) :
    Follows ending (.suffixes ty.isArray :: xs) ts (fun _ => xs)
      (readSuffixes ending fns ty ts) := by
  generalize hts : ts = tokens
  rw [readSuffixes.eq_def]
  split
  · split
    · next f h => exact .of_look h
    · next h => exact Passed.left_out_at_end h rfl
  · next loc rest =>
    have hopen : on (.mark .lbracket) (.suffixes ty.isArray) =
        .takes [.bound, .token .rbracket, .suffixes true] := rfl
    have hbracket : Passed ending (.suffixes ty.isArray :: xs) (⟨loc, .mark .lbracket⟩ :: rest)
        (.bound :: .token .rbracket :: .suffixes true :: xs) rest :=
      .taken hopen rest
    split
    · next f h => exact hbracket.stuck ((read_bound_follows (.suffixes true :: xs) rest).stuck h)
    · next n r₁ h₁ h =>
      have hbound := hbracket.trans ((read_bound_follows (.suffixes true :: xs) rest).passed h)
      have hlt : r₁.length < ts.length := by rw [hts]; exact Nat.lt_succ_of_lt h₁
      split
      · next f h => exact hbound.stuck ((read_suffixes_follows fns (.array ty n) xs r₁).stuck h)
      · next t r₂ h₂ h =>
        exact hbound.trans ((read_suffixes_follows fns (.array ty n) xs r₁).passed h)
  · next loc rest =>
    have hlt : rest.length < ts.length := by rw [hts]; exact Nat.lt_succ_self _
    split_ifs with harray
    · have hrefused : on (.mark .star) (.suffixes ty.isArray) = .refuses := by rw [harray]; rfl
      exact .refused_first hrefused fun e => by simp
    · have htaken : on (.mark .star) (.suffixes ty.isArray) = .takes [.suffixes false] := by
        rw [Bool.eq_false_iff.mpr harray]
        rfl
      have hstar : Passed ending (.suffixes ty.isArray :: xs) (⟨loc, .mark .star⟩ :: rest)
          (.suffixes false :: xs) rest := .taken htaken rest
      split
      · next f h => exact hstar.stuck ((read_suffixes_follows fns (.pointer ty) xs rest).stuck h)
      · next t r₁ h₁ h =>
        exact hstar.trans ((read_suffixes_follows fns (.pointer ty) xs rest).passed h)
  · next loc rest =>
    have hlt : rest.length < ts.length := by rw [hts]; exact Nat.lt_succ_self _
    have hopen : on (.mark .lparen) (.suffixes ty.isArray) =
        .takes [.params, .suffixes false] := rfl
    have hparen : Passed ending (.suffixes ty.isArray :: xs) (⟨loc, .mark .lparen⟩ :: rest)
        (.params :: .suffixes false :: xs) rest := .taken hopen rest
    split
    · next f h =>
      exact hparen.stuck ((read_params_follows fns (.suffixes false :: xs) rest).stuck h)
    · next params fns' r₁ h₁ h =>
      have hparams := hparen.trans ((read_params_follows fns (.suffixes false :: xs) rest).passed h)
      split
      · next f h => exact hparams.stuck ((read_suffixes_follows _ (.function _) xs r₁).stuck h)
      · next t r₂ h₂ h =>
        exact hparams.trans ((read_suffixes_follows _ (.function _) xs r₁).passed h)
  · next t rest hbracket hstar hparen =>
    obtain ⟨loc, s⟩ := t
    have hpass : on s (.suffixes ty.isArray) = .passes := by
      have hb : s ≠ .mark .lbracket := by rintro rfl; exact hbracket loc rfl
      have hs : s ≠ .mark .star := by rintro rfl; exact hstar loc rfl
      have hp : s ≠ .mark .lparen := by rintro rfl; exact hparen loc rfl
      simp [on, onSuffixes, hb, hs, hp]
    exact Passed.left_out_for hpass rest
termination_by 3 * ts.length

theorem read_params_follows (fns : List FunctionType) (xs : List Expectation) (ts : List Token) :
    Follows ending (.params :: xs) ts (fun _ => xs) (readParams ending fns ts) := by
  rw [readParams.eq_def]
  split
  · next loc rest =>
    have hclose : on (.mark .rparen) .params = .takes [] := rfl
    exact Passed.taken hclose rest
  · next hclose =>
    -- any other first token is left to the type
    have hfirst : ∀ t more, ending.tokens ts = t :: more → step (.params :: xs) t.value =
        step (.type :: .token .name :: .moreParams :: xs) t.value := by
      intro t more ht
      have hreact : on t.value .params = onType t.value [.token .name, .moreParams] :=
        if_neg (Ending.head_ne hclose ht)
      exact step_on_type hreact xs
    have hread := read_follows fns (.token .name :: .moreParams :: xs) ts
    split
    · next f h => exact (hread.stuck h).congr hfirst
    · next ty fns₁ r₁ h₁ h =>
      have hty := (hread.passed h).congr h₁ hfirst
      split
      · next f h => exact hty.stuck ((Ending.expect_name_follows (.moreParams :: xs) r₁).stuck h)
      · next name r₂ h₂ h =>
        have hname := hty.trans ((Ending.expect_name_follows (.moreParams :: xs) r₁).passed h)
        split
        · next f h => exact hname.stuck ((read_more_params_follows fns₁ xs r₂).stuck h)
        · next params fns₂ r₃ h₃ h =>
          exact hname.trans ((read_more_params_follows fns₁ xs r₂).passed h)
termination_by 3 * ts.length + 2

theorem read_more_params_follows (fns : List FunctionType) (xs : List Expectation)
    (ts : List Token) :
    Follows ending (.moreParams :: xs) ts (fun _ => xs) (readMoreParams ending fns ts) := by
  rw [readMoreParams.eq_def]
  split
  · next loc rest =>
    have hclose : on (.mark .rparen) .moreParams = .takes [] := rfl
    exact Passed.taken hclose rest
  · next hclose =>
    let param : List Expectation := .type :: .token .name :: .moreParams :: xs
    have hfirst : ∀ t more, ending.tokens ts = t :: more →
        step (.moreParams :: xs) t.value = step (.token .comma :: param) t.value :=
      fun t more ht => step_more_params (Ending.head_ne hclose ht) xs
    split
    · next f h => exact ((Ending.expect_follows param ts .comma).stuck h).congr hfirst
    · next t r₁ h₁ h =>
      have hcomma := ((Ending.expect_follows param ts .comma).passed h).congr h₁ hfirst
      have hread := read_follows fns (.token .name :: .moreParams :: xs) r₁
      split
      · next f h => exact hcomma.stuck (hread.stuck h)
      · next ty fns₁ r₂ h₂ h =>
        have hty := hcomma.trans (hread.passed h)
        split
        · next f h => exact hty.stuck ((Ending.expect_name_follows (.moreParams :: xs) r₂).stuck h)
        · next name r₃ h₃ h =>
          have hname := hty.trans ((Ending.expect_name_follows (.moreParams :: xs) r₂).passed h)
          split
          · next f h => exact hname.stuck ((read_more_params_follows fns₁ xs r₃).stuck h)
          · next params fns₂ r₄ h₄ h =>
            exact hname.trans ((read_more_params_follows fns₁ xs r₃).passed h)
termination_by 3 * ts.length

end

end Ty

namespace Statement

variable {ending : Ending}

theorem step_more_names {s : Symbol} (h : s ≠ .mark .comma) (xs : List Expectation) :
    step (.moreNames :: xs) s = step (.token .semicolon :: xs) s := by
  by_cases hs : s = .mark .semicolon
  · subst hs
    rfl
  · have hk : s.kind ≠ .mark .semicolon := fun hk => hs (Symbol.kind_mark.mp hk)
    rw [step_refuses, step_refuses]
    · exact if_neg hk
    · rw [on, if_neg h, if_neg hs]

theorem read_more_names_follows (xs : List Expectation) (ts : List Token) :
    Follows ending (.moreNames :: xs) ts (fun _ => xs) (readMoreNames ending ts) := by
  have hcomma : ∀ loc rest, Passed ending (.moreNames :: xs) (⟨loc, .mark .comma⟩ :: rest)
      (.token .name :: .moreNames :: xs) rest := by
    intro loc rest
    have htaken : on (.mark .comma) .moreNames = .takes [.token .name, .moreNames] := rfl
    exact .taken htaken rest
  have hlast : ∀ ts, (∀ loc rest, ts = ⟨loc, .mark .comma⟩ :: rest → False) → ∀ t more,
      ending.tokens ts = t :: more →
        step (.moreNames :: xs) t.value = step (.token .semicolon :: xs) t.value :=
    fun ts hts t more ht => step_more_names (Ending.head_ne hts ht) xs
  fun_induction readMoreNames ending ts with
  | case1 loc rest f h =>
    exact (hcomma loc rest).stuck ((Ending.expect_name_follows (.moreNames :: xs) rest).stuck h)
  | case2 loc rest name r₁ h₁ h _ f hf ih =>
    have hname := (hcomma loc rest).trans
      ((Ending.expect_name_follows (.moreNames :: xs) rest).passed h)
    exact hname.stuck (ih.stuck hf)
  | case3 loc rest name r₁ h₁ h _ names r₂ h₂ hf ih =>
    have hname := (hcomma loc rest).trans
      ((Ending.expect_name_follows (.moreNames :: xs) rest).passed h)
    exact hname.trans (ih.passed hf)
  | case4 ts hts f h =>
    exact ((Ending.expect_follows xs ts .semicolon).stuck h).congr (hlast ts hts)
  | case5 ts hts t r₁ h₁ h =>
    exact ((Ending.expect_follows xs ts .semicolon).passed h).congr h₁ (hlast ts hts)

theorem read_names_follows (xs : List Expectation) (ts : List Token) :
    Follows ending (.token .name :: .moreNames :: xs) ts (fun _ => xs) (readNames ending ts) := by
  rw [readNames]
  split
  · next f h => exact (Ending.expect_name_follows (.moreNames :: xs) ts).stuck h
  · next name r₁ h₁ h =>
    have hname := (Ending.expect_name_follows (.moreNames :: xs) ts).passed h
    split
    · next f h => exact hname.stuck ((read_more_names_follows xs r₁).stuck h)
    · next names r₂ h₂ h => exact hname.trans ((read_more_names_follows xs r₁).passed h)

theorem read_fields_follows (fns : List FunctionType) (xs : List Expectation) (ts : List Token) :
    Follows ending (.fields :: xs) ts (fun _ => xs) (readFields ending fns ts) := by
  let group : List Expectation := .token .name :: .moreNames :: .fields :: xs
  have hfirst : ∀ ts, (∀ loc rest, ts = ⟨loc, .mark .rbrace⟩ :: rest → False) → ∀ t more,
      ending.tokens ts = t :: more →
        step (.fields :: xs) t.value = step (.type :: group) t.value := by
    intro ts hts t more ht
    have hreact : on t.value .fields = onType t.value [.token .name, .moreNames, .fields] :=
      if_neg (Ending.head_ne hts ht)
    exact Ty.step_on_type hreact xs
  fun_induction readFields ending fns ts with
  | case1 fns loc rest =>
    have hclose : on (.mark .rbrace) .fields = .takes [] := rfl
    exact Passed.taken hclose rest
  | case2 fns ts hts f h => exact ((Ty.read_follows fns group ts).stuck h).congr (hfirst ts hts)
  | case3 fns ts hts ty fns₁ r₁ h₁ h f hf =>
    have hty := ((Ty.read_follows fns group ts).passed h).congr h₁ (hfirst ts hts)
    exact hty.stuck ((read_names_follows (.fields :: xs) r₁).stuck hf)
  | case4 fns ts hts ty fns₁ r₁ h₁ h names r₂ h₂ hn f hf ih =>
    have hty := ((Ty.read_follows fns group ts).passed h).congr h₁ (hfirst ts hts)
    exact (hty.trans ((read_names_follows (.fields :: xs) r₁).passed hn)).stuck (ih.stuck hf)
  | case5 fns ts hts ty fns₁ r₁ h₁ h names r₂ h₂ hn fields fns₂ r₃ h₃ hf ih =>
    have hty := ((Ty.read_follows fns group ts).passed h).congr h₁ (hfirst ts hts)
    exact (hty.trans ((read_names_follows (.fields :: xs) r₁).passed hn)).trans (ih.passed hf)

theorem read_struct_follows (ts : List Token) :
    Follows ending [.token .name, .token .lbrace, .fields, .terminator] ts (fun _ => [])
      (readStruct ending ts) := by
  rw [readStruct]
  split
  · next f h => exact (Ending.expect_name_follows _ ts).stuck h
  · next name r₁ h₁ h =>
    have hname := (Ending.expect_name_follows [.token .lbrace, .fields, .terminator] ts).passed h
    split
    · next f h => exact hname.stuck ((Ending.expect_follows _ r₁ .lbrace).stuck h)
    · next t r₂ h₂ h =>
      have hbrace := hname.trans
        ((Ending.expect_follows [.fields, .terminator] r₁ .lbrace).passed h)
      split
      · next f h => exact hbrace.stuck ((read_fields_follows [] [.terminator] r₂).stuck h)
      · next fields fns r₃ h₃ h =>
        have hfields := hbrace.trans ((read_fields_follows [] [.terminator] r₂).passed h)
        split
        · next f h => exact hfields.stuck ((Ending.skip_follows [] r₃).stuck h)
        · next r₄ h₄ h => exact hfields.trans ((Ending.skip_follows [] r₃).passed h)

theorem read_constant_follows (ts : List Token) :
    Follows ending [.token .name, .token .equals, .atom, .operators 1, .terminator] ts
      (fun _ => []) (readConstant ending ts) := by
  rw [readConstant]
  split
  · next f h => exact (Ending.expect_name_follows _ ts).stuck h
  · next name r₁ h₁ h =>
    have hname := (Ending.expect_name_follows
      [.token .equals, .atom, .operators 1, .terminator] ts).passed h
    split
    · next f h => exact hname.stuck ((Ending.expect_follows _ r₁ .equals).stuck h)
    · next t r₂ h₂ h =>
      have hequals := hname.trans
        ((Ending.expect_follows [.atom, .operators 1, .terminator] r₁ .equals).passed h)
      split
      · next f h => exact hequals.stuck ((Expr.read_binary_follows 1 [.terminator] r₂).stuck h)
      · next e r₃ h₃ h =>
        have hexpr := hequals.trans ((Expr.read_binary_follows 1 [.terminator] r₂).passed h)
        split
        · next f h => exact hexpr.stuck ((Ending.skip_follows [] r₃).stuck h)
        · next r₄ h₄ h => exact hexpr.trans ((Ending.skip_follows [] r₃).passed h)

theorem read_inclusion_follows (ts : List Token) :
    Follows ending [.token .path, .terminator] ts (fun _ => []) (readInclusion ending ts) := by
  rw [readInclusion]
  split
  · next f h => exact (Ending.expect_quoted_follows [.terminator] ts).stuck h
  · next path r₁ h₁ h =>
    have hpath := (Ending.expect_quoted_follows [.terminator] ts).passed h
    split
    · next f h => exact hpath.stuck ((Ending.skip_follows [] r₁).stuck h)
    · next r₂ h₂ h => exact hpath.trans ((Ending.skip_follows [] r₁).passed h)

theorem read_follows {first : Token} (hfirst : first.value ≠ .eof) (ts : List Token) :
    (∃ e, e.NotLexical ∧ read ending first ts = .error ⟨first.location, e⟩ ∧
      start first.value = none) ∨
    ∃ xs, start first.value = some xs ∧
      Follows ending xs ts (fun _ => []) (read ending first ts) := by
  obtain ⟨loc, s⟩ := first
  rw [read]
  split
  · next hs =>
    cases hs
    exact .inr ⟨_, rfl, read_struct_follows ts⟩
  · next hs =>
    cases hs
    exact .inr ⟨_, rfl, read_constant_follows ts⟩
  · next hs =>
    cases hs
    exact .inr ⟨_, rfl, read_inclusion_follows ts⟩
  · next hstruct hconst hincl =>
    refine .inl ⟨_, fun e => by simp, rfl, ?_⟩
    cases s with
    | eof => exact absurd rfl hfirst
    | keyword k =>
      cases k with
      | struct => exact absurd rfl hstruct
      | const => exact absurd rfl hconst
      | incl => exact absurd rfl hincl
      | void => rfl
    | integer | identifier | quoted | primitive | mark => rfl

end Statement

namespace Script

variable {ending : Ending} {ts : List Token}

theorem passed_first {first : Token} {xs : List Expectation} (h : start first.value = some xs)
    (ts : List Token) : Passed ending [] (first :: ts) xs ts :=
  ⟨[first], [], rfl, by rw [List.map_singleton, run, step, h]; rfl, by simp⟩

theorem passed_statement {first : Token} {rest r₁ : List Token} {s : Statement}
    {h₁ : r₁.length < rest.length} (hts : ∀ t ∈ first :: rest, t.value ≠ .eof)
    (hs : Statement.read ending first rest = .ok ⟨s, r₁, h₁⟩) :
    Passed ending [] (first :: rest) [] r₁ ∧ ∀ t ∈ r₁, t.value ≠ .eof := by
  rcases Statement.read_follows (hts first List.mem_cons_self) rest with
    ⟨e, _, herror, _⟩ | ⟨xs, hstart, hread⟩
  · rw [hs] at herror
    cases herror
  · have hpassed := (passed_first hstart rest).trans (hread.passed hs)
    obtain ⟨pre, _, hpre, _⟩ := hpassed.reached
    refine ⟨hpassed, fun t ht => hts t ?_⟩
    rw [hpre]
    exact List.mem_append_right pre ht

theorem of_tokens_passed (hts : ∀ t ∈ ts, t.value ≠ .eof)
    (h : (ofTokens ending ts).failure = none) : Passed ending [] ts [] [] := by
  fun_induction ofTokens ending ts with
  | case1 | case3 => cases h
  | case2 => exact ⟨[], [], rfl, rfl, by simp⟩
  | case4 first rest s r₁ h₁ hs _ ih =>
    obtain ⟨hpassed, hrest⟩ := passed_statement hts hs
    exact hpassed.trans (ih hrest h)

theorem of_tokens_stuck (hts : ∀ t ∈ ts, t.value ≠ .eof) {f : ParseFailure}
    (h : (ofTokens ending ts).failure = some f) : Stuck ending [] ts f := by
  fun_induction ofTokens ending ts with
  | case1 f' hl =>
    cases h
    exact .of_look hl
  | case2 => cases h
  | case3 first rest f' hs =>
    cases h
    rcases Statement.read_follows (hts first List.mem_cons_self) rest with
      ⟨e, he, herror, hnone⟩ | ⟨xs, hstart, hread⟩
    · rw [hs] at herror
      cases herror
      have hall : ending.tokens (first :: rest) = [] ++ first :: ending.tokens rest :=
        ending.tokens_cons first rest
      exact .refused hall rfl he rfl hnone
    · exact (passed_first hstart rest).stuck (hread.stuck hs)
  | case4 first rest s r₁ h₁ hs _ ih =>
    obtain ⟨hpassed, hrest⟩ := passed_statement hts hs
    exact hpassed.stuck (ih hrest h)

end Script

end DataLayout
