import DataLayout.Proofs.Binding
import DataLayout.Proofs.Layout

/-!
# Placing a struct whose parts are placed

Once the structs that a struct contains have their extents, placing it gives its reference
layout, and fails exactly when a number of that layout does not fit in a word.
-/

set_option autoImplicit false

namespace DataLayout

variable {position : Nat → Option Extent} {extent : String → Extent}

/-- The struct that a type contains has its extent at the position it is bound to. -/
def Ty.PartKnown (position : Nat → Option Extent) (extent : String → Extent) (t : Ty) : Prop :=
  ∀ r, t.embedded = some r → r.target.bind position = some (extent r.name)

namespace Ty

theorem size?_eq_some {t : Ty} (hk : t.PartKnown position extent) (hs : t.Storable) (n : Nat) :
    t.size? position = some n ↔ t.LayersFit extent ∧ (t.extentIn extent).size = n := by
  induction t generalizing n with
  | struct r => simp [size?, hk r rfl, LayersFit, extentIn]
  | array t k ih =>
    simp only [size?, LayersFit, extentIn, Option.bind_eq_some_iff, ih hk hs, fits?_eq_some]
    constructor
    · rintro ⟨_, ⟨hl, rfl⟩, hlt, hn⟩
      exact ⟨⟨hl, hlt⟩, hn⟩
    · rintro ⟨⟨hl, hlt⟩, hn⟩
      exact ⟨_, ⟨hl, rfl⟩, hlt, hn⟩
  | primitive | pointer => simp [size?, LayersFit, extentIn]
  | void | function => exact hs.elim

theorem alignment?_eq_some {t : Ty} (hk : t.PartKnown position extent) (hs : t.Storable) :
    t.alignment? position = some (t.extentIn extent).alignment := by
  induction t with
  | struct r => simp [alignment?, hk r rfl, extentIn]
  | array t k ih => exact ih hk hs
  | primitive | pointer => rfl
  | void | function => exact hs.elim

end Ty

namespace Field

structure Ready (position : Nat → Option Extent) (extent : String → Extent) (f : Field) :
    Prop where
  known : f.ty.PartKnown position extent
  storable : f.ty.Storable
  regular : (f.ty.extentIn extent).Regular

theorem place_eq_some {f : Field} (h : f.Ready position extent) (front : Frontier)
    (result : Field × Frontier) : f.place position front = some result ↔
      (f.ty.LayersFit extent ∧ roundUp front.offset (f.ty.extentIn extent).alignment < wordLimit ∧
        (front.past (f.ty.extentIn extent)).offset < wordLimit) ∧
      (f.setOffset (roundUp front.offset (f.ty.extentIn extent).alignment),
        front.past (f.ty.extentIn extent)) = result := by
  obtain ⟨hk, hs, hr⟩ := h
  rw [place, Ty.alignment?_eq_some hk hs]
  have hsize := Ty.size?_eq_some hk hs
  have halign := align_up_eq_some hr.dvd_word_limit front.offset
  cases hz : f.ty.size? position with
  | none =>
    simp [not_of_eq_none hsize hz]
  | some size =>
    obtain ⟨hl, rfl⟩ := (hsize size).mp hz
    dsimp only
    cases ho : alignUp front.offset (f.ty.extentIn extent).alignment with
    | none =>
      simp [not_of_eq_none halign ho]
    | some offset =>
      obtain ⟨hlt, rfl⟩ := (halign offset).mp ho
      dsimp only
      cases hf : fits? (roundUp front.offset (f.ty.extentIn extent).alignment +
          (f.ty.extentIn extent).size) with
      | none =>
        have hn := fits?_eq_none.mp hf
        simp [Frontier.past, Nat.not_lt.mpr hn]
      | some next =>
        obtain ⟨hend, rfl⟩ := fits?_eq_some.mp hf
        simp [Frontier.past, setOffset, hl, hlt, hend]

theorem place_all_eq_some {fs : List Field} (h : ∀ f ∈ fs, f.Ready position extent)
    (front : Frontier) (result : List Field × Frontier) :
    placeAll position fs front = some result ↔
      ((∀ f ∈ fs, f.ty.LayersFit extent) ∧ front.Fits (fs.map (·.ty.extentIn extent))) ∧
      (List.zipWith setOffset fs (front.offsets (fs.map (·.ty.extentIn extent))),
        (fs.map (·.ty.extentIn extent)).foldl Frontier.past front) = result := by
  induction fs generalizing front result with
  | nil => simp [placeAll, Frontier.Fits]
  | cons f fs ih =>
    obtain ⟨hf, hfs⟩ := List.forall_mem_cons.mp h
    rw [placeAll, List.forall_mem_cons, List.map_cons, List.foldl_cons, Frontier.Fits,
      Frontier.offsets, List.zipWith_cons_cons]
    cases hp : f.place position front with
    | none =>
      have hn := not_of_eq_none (place_eq_some hf front) hp
      simp only [reduceCtorEq, false_iff]
      rintro ⟨⟨⟨h₁, _⟩, h₂, h₃, _⟩, _⟩
      exact hn ⟨h₁, h₂, h₃⟩
    | some placed =>
      obtain ⟨⟨h₁, h₂, h₃⟩, rfl⟩ := (place_eq_some hf front placed).mp hp
      dsimp only
      cases hq : placeAll position fs (front.past (f.ty.extentIn extent)) with
      | none =>
        have hn := not_of_eq_none (ih hfs _) hq
        simp only [reduceCtorEq, false_iff]
        rintro ⟨⟨⟨_, h₄⟩, _, _, h₅⟩, _⟩
        exact hn ⟨h₄, h₅⟩
      | some rest =>
        obtain ⟨⟨h₄, h₅⟩, rfl⟩ := (ih hfs _ rest).mp hq
        rw [Option.some.injEq]
        exact ⟨fun hr => ⟨⟨⟨h₁, h₄⟩, h₂, h₃, h₅⟩, hr⟩, fun hr => hr.2⟩

end Field

theorem Struct.place_eq_some {s : Struct} (h : ∀ f ∈ s.fields, f.Ready position extent)
    (s' : Struct) :
    s.place position = some s' ↔ s.ExtentFits extent ∧ s.laidOut extent = s' := by
  have hall : ∀ result, Field.placeAll position s.fields ⟨0, 1⟩ = some result ↔
      ((∀ f ∈ s.fields, f.ty.LayersFit extent) ∧ Frontier.Fits ⟨0, 1⟩ (s.fieldExtents extent)) ∧
        ((s.laidOut extent).fields, s.frontier extent) = result :=
    Field.place_all_eq_some h ⟨0, 1⟩
  have hfront : (s.frontier extent).alignment ∣ wordLimit :=
    (s.extent_from_regular fun f hf => (h f hf).regular).dvd_word_limit
  have hpad := align_up_eq_some hfront (s.frontier extent).offset
  rw [place]
  cases hp : Field.placeAll position s.fields ⟨0, 1⟩ with
  | none =>
    have hn := not_of_eq_none hall hp
    simp only [reduceCtorEq, false_iff]
    rintro ⟨hfits, _⟩
    exact hn ⟨hfits.layers, hfits.fields⟩
  | some placed =>
    obtain ⟨⟨hl, hf⟩, rfl⟩ := (hall placed).mp hp
    dsimp only
    cases hs : alignUp (s.frontier extent).offset (s.frontier extent).alignment with
    | none =>
      have hn := not_of_eq_none hpad hs
      simp only [reduceCtorEq, false_iff]
      rintro ⟨hfits, _⟩
      exact hn hfits.size
    | some size =>
      obtain ⟨hlt, rfl⟩ := (hpad size).mp hs
      have hfits : s.ExtentFits extent := ⟨hl, hf, hlt⟩
      simp only [hfits, true_and, Option.some.injEq]
      rfl

end DataLayout
