import Mathlib.Logic.Relation
import Mathlib.Order.WellFoundedSet

/-!
# Dependencies between names

Structs contain structs and constants mention constants. Both are finite systems of
definitions: a name depends on the names in its definition. When no name depends on itself,
dependence is well founded, and definitions that give a name a value in terms of the names it
depends on can be satisfied. A walk that follows dependences down comes to an end before it has
entered more definitions than there are.
-/

set_option autoImplicit false

namespace DataLayout.Dependency
open Relation

variable {α β : Type} {r : α → α → Prop}

def Acyclic (r : α → α → Prop) : Prop := ∀ a, ¬ TransGen r a a

theorem not_trans_gen_self {a : α} (h : Acc r a) : ¬ TransGen r a a := by
  have ht := h.transGen
  induction ht with
  | intro a _ ih => exact fun haa => ih a haa (h.inv_of_transGen haa) haa

theorem well_founded_of_acyclic (names : List α) (hn : ∀ a b, r a b → a ∈ names)
    (h : Acyclic r) : WellFounded r := by
  have : IsStrictOrder α (TransGen r) :=
    { irrefl := h, trans := fun _ _ _ => TransGen.trans }
  have hf := Set.wellFoundedOn_iff.mp
    ((List.finite_toSet names).wellFoundedOn (r := TransGen r))
  have hd : ∀ a, a ∈ names → Acc r a := by
    intro a
    induction a using hf.induction with
    | _ a ih =>
      intro ha
      refine ⟨a, fun b hb => ?_⟩
      have hbn := hn b a hb
      exact ih b ⟨.single hb, hbn, ha⟩ hbn
  exact ⟨fun a => ⟨a, fun b hb => hd b (hn b a hb)⟩⟩

/-- The value that a system of definitions gives to a name, `values` being those of other names,
comes only from the names it depends on. -/
def Local (r : α → α → Prop) (define : (α → β) → α → β) : Prop :=
  ∀ values values' a, (∀ b, r b a → values b = values' b) → define values a = define values' a

theorem exists_solution [Inhabited β] {define : (α → β) → α → β} (hw : WellFounded r)
    (hl : Local r define) : ∃ values : α → β, ∀ a, values a = define values a := by
  classical
  -- a definition looks at no other names, so these may have any value while it is worked out
  refine ⟨hw.fix fun a earlier =>
    define (fun b => if h : r b a then earlier b h else default) a, ?_⟩
  intro a
  rw [hw.fix_eq]
  apply hl
  intro b hb
  rw [dif_pos hb]

/-- A walk has entered the definitions at the positions `entered`, innermost first, is about to
look at the names `targets` and may go down `depth` levels more. The definitions are distinct
and depend on the names that are looked at; together with the levels left they are enough for
all definitions there are. -/
structure Underway (r : α → α → Prop) (named : List α) (depth : Nat) (entered : List Nat)
    (targets : List α) : Prop where
  distinct : entered.Nodup
  room : named.length ≤ entered.length + depth
  depends : ∀ i ∈ entered, ∃ y, named[i]? = some y ∧ ∀ x ∈ targets, TransGen r x y

namespace Underway

variable {named targets targets' : List α} {depth i : Nat} {entered : List Nat} {x : α}

theorem nothing_entered (r : α → α → Prop) (named targets : List α) :
    Underway r named named.length [] targets where
  distinct := List.nodup_nil
  room := by simp
  depends := by simp

theorem subset (h : Underway r named depth entered targets) (hs : targets' ⊆ targets) :
    Underway r named depth entered targets' where
  distinct := h.distinct
  room := h.room
  depends i hi := by
    obtain ⟨y, hy, hx⟩ := h.depends i hi
    exact ⟨y, hy, fun x hx' => hx x (hs hx')⟩

theorem not_mem (h : Underway r named depth entered targets) (ha : Acyclic r)
    (hi : named[i]? = some x) (hx : x ∈ targets) : i ∉ entered := by
  intro hm
  obtain ⟨y, hy, hd⟩ := h.depends i hm
  rw [hi] at hy
  cases hy
  exact ha x (hd x hx)

theorem depth_pos (h : Underway r named depth entered targets) (hi : named[i]? = some x)
    (hm : i ∉ entered) : 0 < depth := by
  have hlt : ∀ j ∈ i :: entered, j ∈ List.range named.length := by
    intro j hj
    rw [List.mem_range]
    rcases List.mem_cons.mp hj with rfl | hj
    · exact (List.getElem?_eq_some_iff.mp hi).1
    · obtain ⟨y, hy, _⟩ := h.depends j hj
      exact (List.getElem?_eq_some_iff.mp hy).1
  have hle := ((List.nodup_cons.mpr ⟨hm, h.distinct⟩).subperm hlt).length_le
  have hroom := h.room
  simp only [List.length_cons, List.length_range] at hle
  omega

theorem enter (h : Underway r named (depth + 1) entered targets) (hi : named[i]? = some x)
    (hx : x ∈ targets) (hm : i ∉ entered) (ht : ∀ z ∈ targets', r z x) :
    Underway r named depth (i :: entered) targets' where
  distinct := List.nodup_cons.mpr ⟨hm, h.distinct⟩
  room := by
    have hroom := h.room
    simp only [List.length_cons]
    omega
  depends j hj := by
    rcases List.mem_cons.mp hj with rfl | hj
    · exact ⟨x, hi, fun z hz => .single (ht z hz)⟩
    · obtain ⟨y, hy, hd⟩ := h.depends j hj
      exact ⟨y, hy, fun z hz => .head (ht z hz) (hd x hx)⟩

end Underway

end DataLayout.Dependency
