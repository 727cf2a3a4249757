import DataLayout.Proofs.Fragments
import DataLayout.Proofs.PlainTypes

/-!
# The symbols of a type

The text of a plain type spells the symbols that the type was written in. Wherever these symbols
stand again, they are a type with the same plain type.
-/

set_option autoImplicit false

namespace DataLayout
open Grammar Lexeme

namespace PlainType

def moreText : List (String × PlainType) → List Char
  | [] => []
  | (name, p) :: params => ',' :: ' ' :: (p.text.toList ++ ' ' :: (name.toList ++ moreText params))

theorem to_list_param_texts (name : String) (p : PlainType) (params : List (String × PlainType)) :
    (", ".intercalate (paramTexts ((name, p) :: params))).toList =
      p.text.toList ++ ' ' :: (name.toList ++ moreText params) := by
  induction params generalizing name p with
  | nil => simp [paramTexts, moreText]
  | cons param params ih =>
    obtain ⟨name', p'⟩ := param
    rw [paramTexts, paramTexts, String.intercalate_cons_cons, ← paramTexts, String.toList_append,
      ih, moreText]
    simp

end PlainType

theorem spells_bound {n : Int64} (h : 0 ≤ n) :
    Spells (.integer n) (toString n.toInt.toNat).toList :=
  .natural (numeral_repr n.toInt.toNat) (Int.toNat_of_nonneg (Int64.le_iff_toInt_le.mp h)).symm

theorem spells_to_param {ts ss : List Symbol} {text mid rest : List Char} {name : String}
    (ht : ∀ {rest}, Parted rest → SpellsTo ts rest (text ++ rest))
    (hname : (Symbol.identifier name).Writable) (hm : SpellsTo ss rest mid) (hmid : Parted mid) :
    SpellsTo (ts ++ .identifier name :: ss) rest (text ++ ' ' :: (name.toList ++ mid)) := by
  obtain ⟨hword, hk, hp⟩ := hname
  have hrest := SpellsTo.cons (.identifier hword hk hp) (hmid _) hm
  exact (ht parted_space).append (hrest.space (List.cons_ne_nil _ _))

mutual

theorem Grammar.OfType.spells_to {ts : List Token} {w : WrittenType} (h : OfType ts w)
    (hts : ∀ t ∈ ts, t.value.Writable) {rest : List Char} (hr : Parted rest) :
    SpellsTo (ts.map Located.value) rest (w.plain.text.toList ++ rest) :=
  match h with
  | .primitive => by
    rw [WrittenType.plain, PlainType.text]
    exact .one (.primitive _) (hr _)
  | .void => by
    rw [WrittenType.plain, PlainType.text]
    exact .one (.keyword .void) (hr _)
  | .struct => by
    obtain ⟨hname, hk, hp⟩ := hts _ List.mem_cons_self
    rw [WrittenType.plain, PlainType.text]
    exact .one (.identifier hname hk hp) (hr _)
  | @OfType.array ts w _ _ _ n h hn => by
    rw [List.forall_mem_append] at hts
    have hclose : SpellsTo [.mark .rbracket] rest (']' :: rest) := .one (.mark .rbracket) (hr _)
    have hbound := SpellsTo.cons (spells_bound hn) (parted_mark .rbracket (by decide) _) hclose
    have hopen := SpellsTo.cons (.mark .lbracket) (fun _ _ => rfl) hbound
    have htype := (h.spells_to hts.1 (parted_mark .lbracket (by decide))).append hopen
    simp only [WrittenType.plain, PlainType.text, String.toList_append, List.append_assoc,
      List.map_append]
    exact htype
  | .pointer h _ => by
    rw [List.forall_mem_append] at hts
    have hstar : SpellsTo [.mark .star] rest ('*' :: rest) := .one (.mark .star) (hr _)
    have htype := (h.spells_to hts.1 (parted_mark .star (by decide))).append hstar
    simp only [WrittenType.plain, PlainType.text, String.toList_append, List.append_assoc,
      List.map_append]
    exact htype
  | .function h hp => by
    rw [List.forall_mem_append, List.forall_mem_cons, List.forall_mem_append] at hts
    have hclose : SpellsTo [.mark .rparen] rest (')' :: rest) := .one (.mark .rparen) (hr _)
    have hparams := (hp.spells_to hts.2.2.1 (parted_mark .rparen (by decide))).append hclose
    have hopen := SpellsTo.cons (.mark .lparen) (fun _ _ => rfl) hparams
    have htype := (h.spells_to hts.1 (parted_mark .lparen (by decide))).append hopen
    simp only [WrittenType.plain, PlainType.text, String.toList_append, List.append_assoc,
      List.map_append, List.map_cons]
    exact htype

theorem Grammar.Params.spells_to {ts : List Token} {params : List (String × WrittenType)}
    (h : Params ts params) (hts : ∀ t ∈ ts, t.value.Writable) {rest : List Char}
    (hr : Parted rest) :
    SpellsTo (ts.map Located.value) rest
      ((", ".intercalate (PlainType.paramTexts (WrittenType.plainParams params))).toList ++ rest) :=
  match h with
  | .none => by
    rw [WrittenType.plainParams, PlainType.paramTexts]
    rfl
  | .some ht hm => by
    rw [List.forall_mem_append, List.forall_mem_cons] at hts
    obtain ⟨hmore, hparted⟩ := hm.spells_to hts.2.2 hr
    rw [WrittenType.plainParams, PlainType.to_list_param_texts, List.map_append, List.append_assoc,
      List.cons_append, List.append_assoc]
    exact spells_to_param (ht.spells_to hts.1) hts.2.1 hmore hparted

theorem Grammar.MoreParams.spells_to {ts : List Token} {params : List (String × WrittenType)}
    (h : MoreParams ts params) (hts : ∀ t ∈ ts, t.value.Writable) {rest : List Char}
    (hr : Parted rest) :
    SpellsTo (ts.map Located.value) rest
      (PlainType.moreText (WrittenType.plainParams params) ++ rest) ∧
    Parted (PlainType.moreText (WrittenType.plainParams params) ++ rest) :=
  match h with
  | .nil => by
    rw [WrittenType.plainParams, PlainType.moreText]
    exact ⟨rfl, hr⟩
  | .cons ht hm => by
    rw [List.forall_mem_cons, List.forall_mem_append, List.forall_mem_cons] at hts
    obtain ⟨hmore, hparted⟩ := hm.spells_to hts.2.2.2 hr
    have hparam := spells_to_param (ht.spells_to hts.2.1) hts.2.2.1 hmore hparted
    have hcomma := SpellsTo.cons (.mark .comma) (fun _ _ => rfl) (hparam.space (by simp))
    rw [WrittenType.plainParams, PlainType.moreText, List.map_cons, List.map_append]
    simp only [List.cons_append, List.append_assoc]
    exact ⟨hcomma, parted_mark .comma (by decide)⟩

end

/-! ## The same symbols at other places -/

theorem WrittenType.is_array_of_plain {w w' : WrittenType} (h : w'.plain = w.plain) :
    w'.isArray = w.isArray := by
  cases w <;> cases w' <;> first | rfl | (simp only [plain] at h; cases h)

mutual

theorem Grammar.OfType.respelled {ts ts' : List Token} {w : WrittenType} (h : OfType ts w)
    (hts : ts'.map Located.value = ts.map Located.value) :
    ∃ w', OfType ts' w' ∧ w'.plain = w.plain :=
  match h with
  | .primitive => by
    obtain ⟨⟨loc, _⟩, rfl, rfl⟩ := List.map_eq_singleton_iff.mp hts
    exact ⟨_, .primitive, rfl⟩
  | .void => by
    obtain ⟨⟨loc, _⟩, rfl, rfl⟩ := List.map_eq_singleton_iff.mp hts
    exact ⟨_, .void, rfl⟩
  | .struct => by
    obtain ⟨⟨loc, _⟩, rfl, rfl⟩ := List.map_eq_singleton_iff.mp hts
    exact ⟨_, .struct, by rw [WrittenType.plain, WrittenType.plain]⟩
  | .array h hn => by
    rw [List.map_append] at hts
    obtain ⟨ts₁, ts₂, rfl, h₁, h₂⟩ := List.map_eq_append_iff.mp hts
    obtain ⟨⟨loc₁, _⟩, ts₃, rfl, rfl, h₃⟩ := List.map_eq_cons_iff.mp h₂
    obtain ⟨⟨loc₂, _⟩, ts₄, rfl, rfl, h₄⟩ := List.map_eq_cons_iff.mp h₃
    obtain ⟨⟨loc₃, _⟩, rfl, rfl⟩ := List.map_eq_singleton_iff.mp h₄
    obtain ⟨w', hw', hplain⟩ := h.respelled h₁
    exact ⟨_, .array hw' hn, by rw [WrittenType.plain, WrittenType.plain, hplain]⟩
  | .pointer h ha => by
    rw [List.map_append] at hts
    obtain ⟨ts₁, ts₂, rfl, h₁, h₂⟩ := List.map_eq_append_iff.mp hts
    obtain ⟨⟨loc, _⟩, rfl, rfl⟩ := List.map_eq_singleton_iff.mp h₂
    obtain ⟨w', hw', hplain⟩ := h.respelled h₁
    refine ⟨_, .pointer hw' ?_, by rw [WrittenType.plain, WrittenType.plain, hplain]⟩
    rw [WrittenType.is_array_of_plain hplain, ha]
  | .function h hp => by
    rw [List.map_append, List.map_cons, List.map_append] at hts
    obtain ⟨ts₁, ts₂, rfl, h₁, h₂⟩ := List.map_eq_append_iff.mp hts
    obtain ⟨⟨loc, _⟩, ts₃, rfl, rfl, h₃⟩ := List.map_eq_cons_iff.mp h₂
    obtain ⟨ts₄, ts₅, rfl, h₄, h₅⟩ := List.map_eq_append_iff.mp h₃
    obtain ⟨⟨loc', _⟩, rfl, rfl⟩ := List.map_eq_singleton_iff.mp h₅
    obtain ⟨w', hw', hplain⟩ := h.respelled h₁
    obtain ⟨params', hp', hparams⟩ := hp.respelled h₄
    exact ⟨_, .function hw' hp', by rw [WrittenType.plain, WrittenType.plain, hplain, hparams]⟩

theorem Grammar.Params.respelled {ts ts' : List Token} {params : List (String × WrittenType)}
    (h : Params ts params) (hts : ts'.map Located.value = ts.map Located.value) :
    ∃ params', Params ts' params' ∧
      WrittenType.plainParams params' = WrittenType.plainParams params :=
  match h with
  | .none => by
    rw [List.map_eq_nil_iff.mp hts]
    exact ⟨[], .none, rfl⟩
  | .some ht hm => by
    rw [List.map_append, List.map_cons] at hts
    obtain ⟨ts₁, ts₂, rfl, h₁, h₂⟩ := List.map_eq_append_iff.mp hts
    obtain ⟨⟨loc, _⟩, ts₃, rfl, rfl, h₃⟩ := List.map_eq_cons_iff.mp h₂
    obtain ⟨w', hw', hplain⟩ := ht.respelled h₁
    obtain ⟨params', hm', hparams⟩ := hm.respelled h₃
    refine ⟨_, .some hw' hm', ?_⟩
    rw [WrittenType.plainParams, WrittenType.plainParams, hplain, hparams]

theorem Grammar.MoreParams.respelled {ts ts' : List Token} {params : List (String × WrittenType)}
    (h : MoreParams ts params) (hts : ts'.map Located.value = ts.map Located.value) :
    ∃ params', MoreParams ts' params' ∧
      WrittenType.plainParams params' = WrittenType.plainParams params :=
  match h with
  | .nil => by
    rw [List.map_eq_nil_iff.mp hts]
    exact ⟨[], .nil, rfl⟩
  | .cons ht hm => by
    rw [List.map_cons, List.map_append, List.map_cons] at hts
    obtain ⟨⟨loc, _⟩, ts₀, rfl, rfl, h₀⟩ := List.map_eq_cons_iff.mp hts
    obtain ⟨ts₁, ts₂, rfl, h₁, h₂⟩ := List.map_eq_append_iff.mp h₀
    obtain ⟨⟨loc', _⟩, ts₃, rfl, rfl, h₃⟩ := List.map_eq_cons_iff.mp h₂
    obtain ⟨w', hw', hplain⟩ := ht.respelled h₁
    obtain ⟨params', hm', hparams⟩ := hm.respelled h₃
    refine ⟨_, .cons hw' hm', ?_⟩
    rw [WrittenType.plainParams, WrittenType.plainParams, hplain, hparams]

end

end DataLayout
