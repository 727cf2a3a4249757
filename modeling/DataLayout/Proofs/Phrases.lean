import DataLayout.Proofs.Reading
import Mathlib.Data.List.Basic

/-!
# Phrases that are given

A reading gives a value and the tokens behind the phrase. For each of the steps that readers are
made of there is one statement of what it gives and when.
-/

set_option autoImplicit false

namespace DataLayout

def Reading.Gives {n : Nat} {α : Type} (r : Reading n α) (value : α) (rest : List Token) : Prop :=
  ∃ h, r = .ok ⟨value, rest, h⟩

namespace Reading

variable {n : Nat} {α : Type} {value value' : α} {rest rest' : List Token}

@[simp] theorem gives_error {f : ParseFailure} :
    Gives (n := n) (.error f) value rest ↔ False := by
  constructor
  · rintro ⟨_, h⟩
    cases h
  · exact False.elim

@[simp] theorem gives_ok {h : rest'.length < n} :
    Gives (.ok ⟨value', rest', h⟩) value rest ↔ value = value' ∧ rest = rest' := by
  constructor
  · rintro ⟨_, ⟨⟩⟩
    exact ⟨rfl, rfl⟩
  · rintro ⟨rfl, rfl⟩
    exact ⟨h, rfl⟩

theorem gives_iff {r : Reading n α} :
    r.Gives value rest ↔ r.toOption.map (fun p => (p.value, p.rest)) = some (value, rest) := by
  cases r with
  | error f => simp [Except.toOption]
  | ok p =>
    obtain ⟨value', rest', h⟩ := p
    simp [Except.toOption, eq_comm]

end Reading

theorem Token.kind_mark {t : Token} {m : Mark} : t.kind = .mark m ↔ ∃ loc, t = ⟨loc, .mark m⟩ := by
  constructor
  · intro h
    exact ⟨t.location, eq_of_kind_mark h⟩
  · rintro ⟨loc, rfl⟩
    rfl

namespace Ending

variable {α : Type} {ending : Ending} {ts rest : List Token}

theorem take_gives {accept : Token → Option α} {complain : Symbol → ParseError} {value : α} :
    (ending.take accept complain ts).Gives value rest ↔
      ∃ t, ts = t :: rest ∧ accept t = some value := by
  constructor
  · rintro ⟨_, h⟩
    exact take_eq_ok h
  · rintro ⟨t, rfl, ht⟩
    rw [take, ht]
    exact ⟨_, rfl⟩

theorem expect_gives {k : Kind} {t : Token} :
    (ending.expect k ts).Gives t rest ↔ ts = t :: rest ∧ t.kind = k := by
  rw [expect, take_gives]
  constructor
  · rintro ⟨t', rfl, ht⟩
    split at ht
    · cases ht
      exact ⟨rfl, ‹_›⟩
    · cases ht
  · rintro ⟨rfl, hk⟩
    exact ⟨t, rfl, if_pos hk⟩

theorem expect_mark_gives {m : Mark} {t : Token} :
    (ending.expect (.mark m) ts).Gives t rest ↔ ∃ loc, t = ⟨loc, .mark m⟩ ∧ ts = t :: rest := by
  rw [expect_gives, Token.kind_mark]
  constructor
  · rintro ⟨hts, loc, ht⟩
    exact ⟨loc, ht, hts⟩
  · rintro ⟨loc, ht, hts⟩
    exact ⟨hts, loc, ht⟩

@[simp] theorem expect_mark_cons {m : Mark} {loc : Location} :
    ending.expect (.mark m) (⟨loc, .mark m⟩ :: rest) =
      .ok ⟨⟨loc, .mark m⟩, rest, Nat.lt_succ_self _⟩ := by
  simp [expect, take, Token.kind_mark, Phrase.one]

@[simp] theorem expect_name_cons {x : String} {loc : Location} :
    ending.expectName (⟨loc, .identifier x⟩ :: rest) = .ok ⟨⟨loc, x⟩, rest, Nat.lt_succ_self _⟩ :=
  rfl

@[simp] theorem expect_integer_cons {i : Int64} {loc : Location} :
    ending.expectInteger (⟨loc, .integer i⟩ :: rest) = .ok ⟨⟨loc, i⟩, rest, Nat.lt_succ_self _⟩ :=
  rfl

@[simp] theorem expect_quoted_cons {x : String} {loc : Location} :
    ending.expectQuoted (⟨loc, .quoted x⟩ :: rest) = .ok ⟨⟨loc, x⟩, rest, Nat.lt_succ_self _⟩ :=
  rfl

theorem expect_value_gives {k : Kind} {pick : Symbol → Option α} {symbol : α → Symbol}
    (hpick : ∀ s x, pick s = some x ↔ s = symbol x) {x : Located α} :
    (ending.expectValue k pick ts).Gives x rest ↔ ts = ⟨x.location, symbol x.value⟩ :: rest := by
  rw [expectValue, take_gives]
  constructor
  · rintro ⟨⟨loc, s⟩, rfl, ht⟩
    obtain ⟨v, hv, rfl⟩ := Option.map_eq_some_iff.mp ht
    rw [(hpick s v).mp hv]
  · rintro rfl
    exact ⟨_, rfl, by rw [(hpick _ x.value).mpr rfl]; rfl⟩

theorem expect_name_gives {x : Located String} :
    (ending.expectName ts).Gives x rest ↔ ts = ⟨x.location, .identifier x.value⟩ :: rest :=
  expect_value_gives fun s x => by cases s <;> simp [Symbol.identifier?]

theorem expect_quoted_gives {x : Located String} :
    (ending.expectQuoted ts).Gives x rest ↔ ts = ⟨x.location, .quoted x.value⟩ :: rest :=
  expect_value_gives fun s x => by cases s <;> simp [Symbol.quoted?]

theorem expect_integer_gives {x : Located Int64} :
    (ending.expectInteger ts).Gives x rest ↔ ts = ⟨x.location, .integer x.value⟩ :: rest :=
  expect_value_gives fun s x => by cases s <;> simp [Symbol.integer?]

def Lacks (ending : Ending) (k : Kind) (ts : List Token) : Prop :=
  (ts = [] → ending.look = .ok ()) ∧ ∀ t rest, ts = t :: rest → t.kind ≠ k

theorem skip_gives {k : Kind} : (ending.skip k ts).Gives () rest ↔
    (∃ t, ts = t :: rest ∧ t.kind = k) ∨ (ts = rest ∧ ending.Lacks k ts) := by
  cases ts with
  | nil =>
    rw [skip]
    cases hl : ending.look with
    | error f => simp [Lacks, hl]
    | ok x => simp [Lacks, hl, Phrase.none, eq_comm]
  | cons t ts =>
    rw [skip]
    split_ifs with hk
    · simp [Lacks, hk, eq_comm]
    · simp [Lacks, hk, Phrase.none, @eq_comm _ rest]

end Ending

end DataLayout
