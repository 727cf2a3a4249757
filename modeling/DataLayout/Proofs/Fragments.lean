import DataLayout.Proofs.Rendering

/-!
# Texts in fragments

A text that is put together from fragments is read fragment by fragment. A fragment spells its
symbols whatever stands behind it, as long as no symbol goes on there.
-/

set_option autoImplicit false

namespace DataLayout

namespace Lexeme

open Text

variable {s : Symbol} {ss ss' : List Symbol} {sp cs mid rest : List Char}

def Parted (rest : List Char) : Prop := ∀ s, EndsBefore s rest

theorem parted_nil : Parted [] := fun _ => starts_outside_nil _

theorem is_blank_space : isBlank ' ' = true := by decide

theorem parted_space : Parted (' ' :: cs) :=
  fun s => starts_outside_cons.mpr (continued_by_blank is_blank_space s)

theorem parted_mark (m : Mark) (hm : m ≠ .slash) : Parted (m.text.toList ++ rest) := by
  have hfirst : ∃ c cs, m.text.toList = c :: cs ∧ isWordPart c = false ∧ c.isDigit = false ∧
      c ≠ '/' := by
    cases m <;> first | exact absurd rfl hm | exact ⟨_, _, rfl, by decide, by decide, by decide⟩
  obtain ⟨c, cs, hm, hword, hdigit, hslash⟩ := hfirst
  intro s
  rw [hm]
  refine starts_outside_cons.mpr ?_
  have hslash : (c == '/') = false := beq_eq_false_iff_ne.mpr hslash
  unfold continuedBy
  split <;> first | assumption | rfl

/-- The characters spell the symbols in order, and behind the last one stands `rest`. -/
def SpellsTo : List Symbol → List Char → List Char → Prop
  | [], rest, cs => cs = rest
  | s :: ss, rest, cs => ∃ mid, SpellsNext s mid cs ∧ SpellsTo ss rest mid

namespace SpellsTo

theorem cons (hs : Spells s sp) (he : EndsBefore s mid) (h : SpellsTo ss rest mid) :
    SpellsTo (s :: ss) rest (sp ++ mid) :=
  ⟨mid, .intro .nil hs he, h⟩

theorem one (hs : Spells s sp) (he : EndsBefore s rest) : SpellsTo [s] rest (sp ++ rest) :=
  cons hs he rfl

theorem append (h : SpellsTo ss mid cs) (h' : SpellsTo ss' rest mid) :
    SpellsTo (ss ++ ss') rest cs := by
  induction ss generalizing cs with
  | nil =>
    cases h
    exact h'
  | cons s ss ih =>
    obtain ⟨next, hs, h⟩ := h
    exact ⟨next, hs, ih h⟩

theorem space (h : SpellsTo ss rest cs) (hss : ss ≠ []) : SpellsTo ss rest (' ' :: cs) := by
  cases ss with
  | nil => exact absurd rfl hss
  | cons s ss =>
    obtain ⟨mid, ⟨hw, hs, he⟩, h⟩ := h
    exact ⟨mid, .intro (.blank is_blank_space hw) hs he, h⟩

theorem all (h : SpellsTo ss [] cs) : SpellsAll ss cs := by
  induction ss generalizing cs with
  | nil =>
    cases h
    exact .nil
  | cons s ss ih =>
    obtain ⟨mid, hs, h⟩ := h
    exact ⟨mid, hs, ih h⟩

end SpellsTo

theorem Spells.writable (h : Spells s sp) : s.Writable := by
  cases h with
  | identifier hname hk hp => exact ⟨hname, hk, hp⟩
  | natural | negative | keyword | primitive | quoted | mark => trivial

theorem SpellsNext.writable (h : SpellsNext s rest cs) : s.Writable := by
  obtain ⟨_, hs, _⟩ := h
  exact hs.writable

end Lexeme

namespace TokenStream

open Lexeme

theorem of_lexer_writable (l : Lexer) : ∀ t ∈ (ofLexer l).tokens, t.value.Writable := by
  fun_induction ofLexer l with
  | case1 | case2 => exact fun t ht => absurd ht List.not_mem_nil
  | case3 l t ht heof _ ih =>
    have hvalue : l.read.1.map Located.value = .ok t.value := by
      rw [ht]
      rfl
    have hscan := Lexer.read_value.mp hvalue
    have hspells := (scan_skip_trivia_symbol heof l.line).mp (Prod.ext hscan rfl)
    exact List.forall_mem_cons.mpr ⟨hspells.writable, ih⟩

theorem of_text_writable (file text : String) :
    ∀ t ∈ (ofText file text).tokens, t.value.Writable :=
  of_lexer_writable _

theorem reads_of_spells_to {ss : List Symbol} {text : String} (h : SpellsTo ss [] text.toList)
    (file : String) : (ofText file text).Reads ss :=
  (of_text_reads file text ss).mpr ((Lexer.of_text_yields file text ss).mpr h.all)

end TokenStream

end DataLayout
