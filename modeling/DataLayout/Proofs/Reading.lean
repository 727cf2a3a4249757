import DataLayout.Declaration.Reader

/-!
# What is read

Reading a type succeeds along its grammar: a base, then suffixes, each of which makes a type of
the one before it. A parameter list between parentheses makes a function type, which is put behind
those that were met before.
-/

set_option autoImplicit false

namespace DataLayout

theorem Token.eq_of_kind_mark {t : Token} {m : Mark} (h : t.kind = .mark m) :
    t = ⟨t.location, .mark m⟩ := by
  obtain ⟨loc, s⟩ := t
  cases s with
  | mark m' =>
    cases h
    rfl
  | integer | identifier | quoted | primitive | keyword | eof => cases h

namespace Ending

variable {α : Type} {ending : Ending} {ts : List Token}

theorem take_eq_ok {accept : Token → Option α} {complain : Symbol → ParseError}
    {p : Phrase ts.length α} (h : ending.take accept complain ts = .ok p) :
    ∃ t, ts = t :: p.rest ∧ accept t = some p.value := by
  cases ts with
  | nil => cases h
  | cons t rest =>
    rw [take] at h
    split at h
    · next v hv =>
      cases h
      exact ⟨t, rfl, hv⟩
    · cases h

theorem expect_eq_ok {k : Kind} {p : Phrase ts.length Token} (h : ending.expect k ts = .ok p) :
    ts = p.value :: p.rest ∧ p.value.kind = k := by
  obtain ⟨t, ht, hv⟩ := take_eq_ok h
  split at hv
  · next hk =>
    cases hv
    exact ⟨ht, hk⟩
  · cases hv

theorem expect_name_eq_ok {p : Phrase ts.length (Located String)}
    (h : ending.expectName ts = .ok p) :
    ts = ⟨p.value.location, .identifier p.value.value⟩ :: p.rest := by
  obtain ⟨⟨loc, s⟩, ht, hv⟩ := take_eq_ok h
  obtain ⟨x, hx, hp⟩ := Option.map_eq_some_iff.mp hv
  cases s with
  | identifier name =>
    cases hx
    rw [← hp]
    exact ht
  | integer | quoted | primitive | keyword | mark | eof => cases hx

end Ending

namespace Ty

mutual

/-- A type is read off the front of some tokens. The function types met before, and with those of
the type itself, stand at its sides. -/
inductive Reads (ending : Ending) :
    List FunctionType → List Token → Ty → List FunctionType → List Token → Prop
  | base {fns fns' : List FunctionType} {t : Token} {base ty : Ty} {ts rest : List Token}
      (hb : ofToken? t = some base) (hs : ReadsSuffixes ending fns base ts ty fns' rest) :
      Reads ending fns (t :: ts) ty fns' rest

inductive ReadsSuffixes (ending : Ending) :
    List FunctionType → Ty → List Token → Ty → List FunctionType → List Token → Prop
  | stop {fns : List FunctionType} {ty : Ty} {ts : List Token} :
      ReadsSuffixes ending fns ty ts ty fns ts
  | array {fns fns' : List FunctionType} {loc : Location} {element ty : Ty}
      {ts rest : List Token} {p : Phrase ts.length Nat} (hn : readBound ending ts = .ok p)
      (hs : ReadsSuffixes ending fns (.array element p.value) p.rest ty fns' rest) :
      ReadsSuffixes ending fns element (⟨loc, .mark .lbracket⟩ :: ts) ty fns' rest
  | pointer {fns fns' : List FunctionType} {loc : Location} {target ty : Ty}
      {ts rest : List Token} (ha : target.isArray = false)
      (hs : ReadsSuffixes ending fns (.pointer target) ts ty fns' rest) :
      ReadsSuffixes ending fns target (⟨loc, .mark .star⟩ :: ts) ty fns' rest
  | function {fns fns₁ fns₂ : List FunctionType} {loc : Location} {returns ty : Ty}
      {params : List Parameter} {ts ts₁ rest : List Token}
      (hp : ReadsParams ending fns ts params fns₁ ts₁)
      (hs : ReadsSuffixes ending (fns₁ ++ [⟨loc, returns, params, false⟩]) (.function fns₁.length)
        ts₁ ty fns₂ rest) :
      ReadsSuffixes ending fns returns (⟨loc, .mark .lparen⟩ :: ts) ty fns₂ rest

inductive ReadsParams (ending : Ending) :
    List FunctionType → List Token → List Parameter → List FunctionType → List Token → Prop
  | none {fns : List FunctionType} {loc : Location} {ts : List Token} :
      ReadsParams ending fns (⟨loc, .mark .rparen⟩ :: ts) [] fns ts
  | first {fns fns₁ fns₂ : List FunctionType} {loc : Location} {ty : Ty} {name : String}
      {params : List Parameter} {ts ts₁ rest : List Token}
      (ht : Reads ending fns ts ty fns₁ (⟨loc, .identifier name⟩ :: ts₁))
      (hm : ReadsMore ending fns₁ ts₁ params fns₂ rest) :
      ReadsParams ending fns ts (⟨name, ty⟩ :: params) fns₂ rest

inductive ReadsMore (ending : Ending) :
    List FunctionType → List Token → List Parameter → List FunctionType → List Token → Prop
  | none {fns : List FunctionType} {loc : Location} {ts : List Token} :
      ReadsMore ending fns (⟨loc, .mark .rparen⟩ :: ts) [] fns ts
  | next {fns fns₁ fns₂ : List FunctionType} {loc loc' : Location} {ty : Ty} {name : String}
      {params : List Parameter} {ts ts₁ rest : List Token}
      (ht : Reads ending fns ts ty fns₁ (⟨loc, .identifier name⟩ :: ts₁))
      (hm : ReadsMore ending fns₁ ts₁ params fns₂ rest) :
      ReadsMore ending fns (⟨loc', .mark .comma⟩ :: ts) (⟨name, ty⟩ :: params) fns₂ rest

end

variable {ending : Ending}

theorem reads_of_read (ending : Ending) :
    (∀ fns ts p, read ending fns ts = .ok p → Reads ending fns ts p.value.1 p.value.2 p.rest) ∧
    (∀ fns ty ts p, readSuffixes ending fns ty ts = .ok p →
      ReadsSuffixes ending fns ty ts p.value.1 p.value.2 p.rest) ∧
    (∀ fns ts p, readParams ending fns ts = .ok p →
      ReadsParams ending fns ts p.value.1 p.value.2 p.rest) ∧
    (∀ fns ts p, readMoreParams ending fns ts = .ok p →
      ReadsMore ending fns ts p.value.1 p.value.2 p.rest) := by
  apply read.mutual_induct ending
  -- a base type and its suffixes
  case case3 =>
    intro fns ts base r₁ h₁ hb value r₂ h₂ hs ih p hp
    rw [read, hb] at hp
    simp only [hs] at hp
    cases hp
    obtain ⟨t, hts, ht⟩ := Ending.take_eq_ok hb
    dsimp only at hts ⊢
    rw [hts]
    exact .base ht (ih _ hs)
  -- no suffix at the end of the file
  case case5 =>
    intro fns ty _ hl p hp
    rw [readSuffixes, hl] at hp
    cases hp
    exact .stop
  -- an array bound, a star, a parameter list
  case case8 =>
    intro fns ty loc ts n r₁ h₁ hn value r₂ h₂ hs ih p hp
    rw [readSuffixes, hn] at hp
    simp only [hs] at hp
    cases hp
    exact .array hn (ih _ hs)
  case case11 =>
    intro fns ty loc ts ha value r₂ h₂ hs ih p hp
    rw [readSuffixes, if_neg ha, hs] at hp
    cases hp
    exact .pointer (Bool.eq_false_iff.mpr ha) (ih _ hs)
  case case14 =>
    intro fns ty loc ts params fns₁ r₁ h₁ hps value r₂ h₂ hs ihp ih p hp
    rw [readSuffixes, hps] at hp
    simp only [hs] at hp
    cases hp
    exact .function (ihp _ hps) (ih _ hs)
  -- a token that begins no suffix
  case case15 =>
    intro fns ty t ts h₁ h₂ h₃ p hp
    rw [readSuffixes] at hp
    cases hp
    · exact .stop
    · exact h₁
    · exact h₂
    · exact h₃
  -- parameters
  case case16 =>
    intro fns loc ts p hp
    rw [readParams] at hp
    cases hp
    exact .none
  case case20 =>
    intro fns ts hne ty fns₁ r₁ h₁ ht name r₂ h₂ hn params fns₂ r₃ h₃ hm iht ihm p hp
    rw [readParams] at hp
    simp only [ht, hn, hm] at hp
    · cases hp
      have hread := iht _ ht
      dsimp only at hread
      rw [Ending.expect_name_eq_ok hn] at hread
      exact .first hread (ihm _ hm)
    · exact hne
  -- further parameters
  case case21 =>
    intro fns loc ts p hp
    rw [readMoreParams] at hp
    cases hp
    exact .none
  case case26 =>
    intro fns ts hne comma r₁ h₁ hc ty fns₁ r₂ h₂ ht name r₃ h₃ hn params fns₂ r₄ h₄ hm iht ihm p hp
    rw [readMoreParams] at hp
    simp only [hc, ht, hn, hm] at hp
    · cases hp
      have hread := iht _ ht
      dsimp only at hread
      rw [Ending.expect_name_eq_ok hn] at hread
      obtain ⟨hts, hk⟩ := Ending.expect_eq_ok hc
      dsimp only at hts hk ⊢
      rw [hts, Token.eq_of_kind_mark hk]
      exact .next hread (ihm _ hm)
    · exact hne
  -- in all other cases reading has failed
  case case1 | case2 =>
    intros
    rename_i hp
    simp [read, *] at hp
  case case4 | case6 | case7 | case9 | case10 | case12 | case13 =>
    intros
    rename_i hp
    simp [readSuffixes, *] at hp
  case case17 | case18 | case19 =>
    intros
    rename_i hp
    simp [readParams, *] at hp
  case case22 | case23 | case24 | case25 =>
    intros
    rename_i hp
    simp [readMoreParams, *] at hp

end Ty

end DataLayout
