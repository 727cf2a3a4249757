import DataLayout.Proofs.ExactLayout
import DataLayout.Proofs.FullSinks
import DataLayout.Proofs.JsonGrammar
import DataLayout.Proofs.References
import DataLayout.Proofs.ReportedNumbers

/-!
# Reports are read back

The text of a report is JSON, and what it denotes gives back the report: the same names, types and
numbers in the same order. Characters that cannot stand in a string are escaped, the rest stand for
themselves, so names may be any texts. Numbers are read in the ranges that reports have them in.
-/

set_option autoImplicit false

namespace DataLayout

namespace Text.Json

theorem hex_number?_control : ∀ n < 0x20,
    hexNumber? ['0', '0', hexDigit 'a' (n / 16), hexDigit 'a' (n % 16)] = some n := by decide

theorem quoted_escape (c : Char) {cs s : List Char} (h : Quoted cs s) :
    Quoted (escape c ++ cs) (c :: s) := by
  rw [escape]
  split_ifs with hquote hbackslash _ _ _ _ _ hcontrol
  any_goals
    subst c
    exact .escape (.short (by decide)) h
  · have hcode := Escape.code (hex_number?_control c.toNat hcontrol) (.inl (by omega))
    rw [Char.ofNat_toNat] at hcode
    exact .escape hcode h
  · exact .plain hcontrol hquote hbackslash h

theorem quoted_flat_map (s : List Char) : Quoted (s.flatMap escape) s := by
  induction s with
  | nil => exact .nil
  | cons c s ih => exact quoted_escape c ih

theorem to_list_quote (s : String) :
    (quote s).toList = '"' :: (s.toList.flatMap escape ++ ['"']) := by
  simp [quote]

theorem digit_char_ne_zero : ∀ n < 10, 0 < n → Nat.digitChar n ≠ '0' := by decide

theorem head?_to_digits_ne_zero {n : Nat} (hn : 0 < n) :
    (Nat.toDigits 10 n).head? ≠ some '0' := by
  induction n using Nat.strongRecOn with
  | ind n ih =>
    by_cases hlt : n < 10
    · rw [Nat.toDigits_of_lt_base hlt, List.head?_cons, ne_eq, Option.some_inj]
      exact digit_char_ne_zero n hlt hn
    · rw [Nat.toDigits_of_base_le (by decide) (by omega),
        List.head?_append_of_ne_nil _ Nat.toDigits_ne_nil]
      exact ih (n / 10) (by omega) (by omega)

theorem natural_repr (n : Nat) : Natural n n.repr.toList where
  toNumeral := Lexeme.numeral_repr n
  unpadded h := by
    rw [Nat.toList_repr] at h ⊢
    rcases Nat.eq_zero_or_pos n with rfl | hn
    · exact Nat.toDigits_zero 10
    · exact absurd h (head?_to_digits_ne_zero hn)

theorem denotes_number (n : Int) : Denotes (toString n).toList (.number n) := by
  rw [Int.toString_eq_repr]
  cases n with
  | ofNat n => exact .natural (natural_repr n)
  | negSucc n =>
    rw [Lexeme.to_list_repr_neg_succ]
    exact .negative (natural_repr (n + 1))

theorem spaces_newline (level : Nat) : Spaces (newline level).toList := by
  intro c hc
  simp only [newline, String.toList_append, String.toList_ofList, List.mem_append,
    List.mem_replicate] at hc
  rcases hc with hc | ⟨-, rfl⟩
  · rw [List.mem_singleton.mp hc]
    rfl
  · rfl

theorem spaces_nil : Spaces [] := by simp [Spaces]

theorem member_pretty (key : String) {cs : List Char} {j : Json} (h : Denotes cs j) :
    Member ((quote key).toList ++ (':' :: ' ' :: cs)) (key, j) := by
  have hspace : Spaces [' '] := by
    rw [Spaces, List.forall_mem_singleton]
    rfl
  have hmember := Member.mk (quoted_flat_map key.toList) spaces_nil hspace h
  rw [String.ofList_toList] at hmember
  simpa [to_list_quote] using hmember

mutual

theorem denotes_pretty (level : Nat) : (j : Json) → Denotes (j.pretty level).toList j
  | .text s => by
    have h := Denotes.text (quoted_flat_map s.toList)
    rw [String.ofList_toList] at h
    rwa [pretty, to_list_quote]
  | .number n => by
    rw [pretty]
    exact denotes_number n
  | .array [] => by
    rw [pretty]
    exact .emptyArray spaces_nil
  | .array (item :: items) => by
    have hmore := more_items_pretty (level + 1) items (spaces_newline level)
    have h := Denotes.array (spaces_newline (level + 1)) (denotes_pretty (level + 1) item) hmore
    simpa [pretty] using h
  | .object [] => by
    rw [pretty]
    exact .emptyObject spaces_nil
  | .object ((key, value) :: members) => by
    have hmore := more_members_pretty (level + 1) members (spaces_newline level)
    have hmember := member_pretty key (denotes_pretty (level + 1) value)
    have h := Denotes.object (spaces_newline (level + 1)) hmember hmore
    simpa [pretty] using h

theorem more_items_pretty (level : Nat) {w : List Char} : (items : List Json) → (hw : Spaces w) →
    MoreItems ((prettyItems level items).toList ++ (w ++ [']'])) items
  | [], hw => by
    rw [prettyItems]
    exact .nil hw
  | item :: items, hw => by
    have h := MoreItems.cons spaces_nil (spaces_newline level) (denotes_pretty level item)
      (more_items_pretty level items hw)
    simpa [prettyItems] using h

theorem more_members_pretty (level : Nat) {w : List Char} :
    (members : List (String × Json)) → (hw : Spaces w) →
      MoreMembers ((prettyMembers level members).toList ++ (w ++ ['\x7d'])) members
  | [], hw => by
    rw [prettyMembers]
    exact .nil hw
  | (key, value) :: members, hw => by
    have h := MoreMembers.cons spaces_nil (spaces_newline level)
      (member_pretty key (denotes_pretty level value)) (more_members_pretty level members hw)
    simpa [prettyMembers] using h

end

def member? (key : String) : Json → Option Json
  | .object members =>
    match members.filter (·.1 == key) with
    | [(_, value)] => some value
    | _ => none
  | _ => none

def text? : Json → Option String
  | .text s => some s
  | _ => none

def items? : Json → Option (List Json)
  | .array items => some items
  | _ => none

def unsigned? : Json → Option Nat
  | .number n => if 0 ≤ n then fits? n.toNat else none
  | _ => none

def signed? : Json → Option Int64
  | .number n =>
    if Int64.minValue.toInt ≤ n ∧ n ≤ Int64.maxValue.toInt then some (Int64.ofInt n) else none
  | _ => none

theorem unsigned?_number {n : Nat} (h : n < wordLimit) : unsigned? (.number n) = some n := by
  rw [unsigned?, if_pos (Int.natCast_nonneg n), Int.toNat_natCast]
  exact fits?_eq_some.mpr ⟨h, rfl⟩

theorem signed?_number (v : Int64) : signed? (.number v.toInt) = some v := by
  have hrange : Int64.minValue.toInt ≤ v.toInt ∧ v.toInt ≤ Int64.maxValue.toInt :=
    ⟨v.minValue_le_toInt, v.toInt_le⟩
  rw [signed?, if_pos hrange, Int64.ofInt_toInt]

end Text.Json

open Text

namespace FieldReport

structure Fits (f : FieldReport) : Prop where
  offset : f.offset < wordLimit
  size : f.size < wordLimit

def ofJson? (j : Json) : Option FieldReport := do
  let name ← (j.member? "name").bind Json.text?
  let offset ← (j.member? "offset").bind Json.unsigned?
  let size ← (j.member? "size").bind Json.unsigned?
  let type ← (j.member? "type").bind Json.text?
  return ⟨name, offset, size, type⟩

theorem of_json?_field_json {f : FieldReport} (h : f.Fits) :
    ofJson? (Report.fieldJson f) = some f := by
  have hoffset : ((Report.fieldJson f).member? "offset").bind Json.unsigned? = some f.offset :=
    Json.unsigned?_number h.offset
  have hsize : ((Report.fieldJson f).member? "size").bind Json.unsigned? = some f.size :=
    Json.unsigned?_number h.size
  rw [ofJson?, hoffset, hsize]
  rfl

end FieldReport

theorem map_m_map_eq_some {α β : Type} {f : β → Option α} {g : α → β} {as : List α}
    (h : ∀ a ∈ as, f (g a) = some a) : (as.map g).mapM f = some as := by
  induction as with
  | nil => rfl
  | cons a as ih =>
    obtain ⟨ha, has⟩ := List.forall_mem_cons.mp h
    rw [List.map_cons, List.mapM_cons, ha, ih has]
    rfl

namespace StructReport

structure Fits (s : StructReport) : Prop where
  size : s.size < wordLimit
  alignment : s.alignment < wordLimit
  fields : ∀ f ∈ s.fields, f.Fits

def ofJson? (j : Json) : Option StructReport := do
  let name ← (j.member? "name").bind Json.text?
  let size ← (j.member? "size").bind Json.unsigned?
  let alignment ← (j.member? "alignment").bind Json.unsigned?
  let items ← (j.member? "fields").bind Json.items?
  let fields ← items.mapM FieldReport.ofJson?
  return ⟨name, size, alignment, fields⟩

theorem of_json?_struct_json {s : StructReport} (h : s.Fits) :
    ofJson? (Report.structJson s) = some s := by
  have hsize : ((Report.structJson s).member? "size").bind Json.unsigned? = some s.size :=
    Json.unsigned?_number h.size
  have halign : ((Report.structJson s).member? "alignment").bind Json.unsigned? =
      some s.alignment := Json.unsigned?_number h.alignment
  have hitems : ((Report.structJson s).member? "fields").bind Json.items? =
      some (s.fields.map Report.fieldJson) := rfl
  have hfields := map_m_map_eq_some fun f hf => FieldReport.of_json?_field_json (h.fields f hf)
  rw [ofJson?, hsize, halign, hitems]
  dsimp only [Option.bind_eq_bind, Option.bind_some]
  rw [hfields]
  rfl

end StructReport

namespace Report

def Fits (r : Report) : Prop := ∀ s ∈ r.structs, s.Fits

def constantOfJson? (j : Json) : Option (String × Int64) := do
  let name ← (j.member? "name").bind Json.text?
  let value ← (j.member? "value").bind Json.signed?
  return (name, value)

theorem constant_of_json?_constant_json (c : String × Int64) :
    constantOfJson? (constantJson c) = some c := by
  have hvalue : ((constantJson c).member? "value").bind Json.signed? = some c.2 :=
    Json.signed?_number c.2
  rw [constantOfJson?, hvalue]
  rfl

def ofJson? (j : Json) : Option Report := do
  let file ← (j.member? "file").bind Json.text?
  let constantItems ← (j.member? "constants").bind Json.items?
  let constants ← constantItems.mapM constantOfJson?
  let structItems ← (j.member? "structs").bind Json.items?
  let structs ← structItems.mapM StructReport.ofJson?
  return ⟨file, constants, structs⟩

theorem of_json?_json {r : Report} (h : r.Fits) : ofJson? r.json = some r := by
  have hconstants := map_m_map_eq_some fun c (_ : c ∈ r.constants) =>
    constant_of_json?_constant_json c
  have hstructs := map_m_map_eq_some fun s hs => StructReport.of_json?_struct_json (h s hs)
  have hconstantItems : (r.json.member? "constants").bind Json.items? =
      some (r.constants.map constantJson) := rfl
  have hstructItems : (r.json.member? "structs").bind Json.items? =
      some (r.structs.map structJson) := rfl
  rw [ofJson?, hconstantItems, hstructItems]
  dsimp only [Option.bind_eq_bind, Option.bind_some]
  rw [hconstants, hstructs]
  rfl

def ofText? (text : String) : Option Report := (Json.ofText? text).bind ofJson?

def text (r : Report) : String := String.join (r.pieces.map Piece.text)

theorem document_text (r : Report) : Json.Document r.text.toList r.json := by
  have h := Json.Document.mk Json.spaces_nil (Json.denotes_pretty 0 r.json) (Json.spaces_newline 0)
  simpa [text, pieces, Json.newline] using h

end Report

section Ranges

variable {u : CompilationUnit} {extent : String → Extent} {s : Struct}

theorem Frontier.Fits.slots {front : Frontier} {es : List Extent} (h : front.Fits es) :
    ∀ slot ∈ front.slots es, slot.offset < wordLimit ∧ slot.extent.size < wordLimit := by
  induction es generalizing front with
  | nil => simp [Frontier.slots]
  | cons e es ih =>
    obtain ⟨hoffset, hend, hrest⟩ := h
    rw [slots_cons]
    refine List.forall_mem_cons.mpr ⟨⟨hoffset, ?_⟩, ih hrest⟩
    exact Nat.lt_of_le_of_lt (Nat.le_add_left _ _) hend

theorem CompilationUnit.LaidOut.field_fits (h : u.LaidOut extent) (hs : s ∈ u.structs) :
    ∀ f ∈ s.fields, ∃ slot, u.InSlot f slot ∧ slot.offset < wordLimit ∧
      slot.extent.size < wordLimit := by
  have hall := (List.forall₂_and_left _ _).mpr
    ⟨(h.fits s hs).fields.slots, (h.fields_in_slots hs).flip⟩
  exact forall_mem_of_forall₂ hall.flip fun f slot hslot => ⟨slot, hslot.2, hslot.1⟩

theorem Report.of_field_size {spelled : List (Option String)} {f : Field} {r : FieldReport}
    (h : ofField u spelled f = .ok r) : f.ty.size? u.extent? = some r.size := by
  rw [ofField] at h
  obtain ⟨offset, _, hrest⟩ := except_bind_eq_ok.mp h
  split at hrest
  · next size _ hsize _ =>
    cases hrest
    exact hsize
  · cases hrest

theorem Report.of_field_fits {spelled : List (Option String)} {f : Field} {r : FieldReport}
    {slot : Slot} (h : ofField u spelled f = .ok r) (hslot : u.InSlot f slot)
    (hoffset : slot.offset < wordLimit) (hsize : slot.extent.size < wordLimit) : r.Fits where
  offset := by
    have ho := (of_field_eq_ok h).2
    rw [Field.placedOffset, hslot.offset] at ho
    exact Except.ok.inj ho ▸ hoffset
  size := by
    have hs := hslot.size.symm.trans (of_field_size h)
    exact Option.some_inj.mp hs ▸ hsize

theorem Report.of_struct_fits {spelled : List (Option String)} {r : StructReport}
    (hu : u.LaidOut extent) (hs : s ∈ u.structs) (h : ofStruct u spelled s = .ok r) : r.Fits := by
  obtain ⟨_, hextent, hfields⟩ := of_struct_eq_ok h
  rw [Struct.placedExtent, (hu.placed s hs).extent] at hextent
  have he : s.extentFrom extent = ⟨r.size, r.alignment⟩ := Except.ok.inj hextent
  constructor
  case size =>
    have hsize := (hu.fits s hs).size
    rwa [he] at hsize
  case alignment =>
    have halign := (Struct.extent_from_regular (hu.field_regular hs)).alignment
    rw [he] at halign
    have hlimit : 2 < wordLimit := by decide
    dsimp only at halign
    omega
  case fields =>
    have hall := (List.forall₂_and_left _ _).mpr ⟨hu.field_fits hs, map_m_eq_ok.mp hfields⟩
    refine forall_mem_of_forall₂ hall.flip fun r' f hf => ?_
    obtain ⟨⟨slot, hslot, hoffset, hsize⟩, hr'⟩ := hf
    exact of_field_fits hr' hslot hoffset hsize

theorem Report.of_unit_fits {r : Report} (hu : u.LaidOut extent) (h : ofUnit u = .ok r) :
    r.Fits := by
  obtain ⟨_, _, hstructs⟩ := of_unit_eq_ok h
  have hlocal : ∀ s ∈ u.localStructs, s ∈ u.structs := fun s hs => (List.mem_filter.mp hs).1
  have hall := (List.forall₂_and_left _ _).mpr ⟨hlocal, map_m_eq_ok.mp hstructs⟩
  exact forall_mem_of_forall₂ hall.flip fun r' s hs => of_struct_fits hu hs.1 hs.2

end Ranges

/-- The text is JSON, it denotes the value of the report and no other, and the report is read from
it. -/
structure Report.ReadFrom (r : Report) (text : String) : Prop where
  denotes : ∀ j, Json.Document text.toList j ↔ j = r.json
  reads : Report.ofText? text = some r

theorem Report.Fits.read_from {r : Report} (h : r.Fits) : r.ReadFrom r.text where
  denotes j := by
    constructor
    · intro hj
      exact hj.unique r.document_text
    · rintro rfl
      exact r.document_text
  reads := by
    rw [ofText?, r.document_text.read]
    exact of_json?_json h

/-- A report is read back from its text, whatever texts are in it. So is the report of a resolved
unit from the text that is written for the unit. -/
theorem report_read_back :
    (∀ r : Report, r.Fits → r.ReadFrom r.text) ∧
    ∀ sources u, Obtained sources u → u.resolved = true →
      ∃ r text, Report.ofUnit u = .ok r ∧ Format.layout.text u = .ok text ∧ r.ReadFrom text := by
  refine ⟨fun r hr => hr.read_from, fun sources u hu hr => ?_⟩
  obtain ⟨u₀, extent, hresolved⟩ := hu.resolved_as hr
  obtain ⟨r, hreport⟩ := (hu.complete hr).exists_report hr
  have htext : Format.layout.text u = .ok r.text := by
    rw [Format.text, Format.pieces, hreport]
    rfl
  exact ⟨r, r.text, hreport, htext, (Report.of_unit_fits hresolved.laid_out hreport).read_from⟩

/-- A report with every kind of character in its names and with the greatest numbers. -/
def awkwardReport : Report :=
  ⟨"\"\\/\x01\n\x0c\x08é😀", [("K", Int64.minValue), ("", Int64.maxValue)],
    [⟨"E", 0, 1, []⟩, ⟨"S", 18446744073709551615, 2, [⟨"x", 0, 18446744073709551615, "u8[]"⟩]⟩]⟩

theorem report_read_back_awkward : awkwardReport.Fits ∧
    awkwardReport.ReadFrom awkwardReport.text ∧
    Obtained MemorySources.empty.sources constantUnit ∧ constantUnit.resolved = true ∧
    ∃ r text, Report.ofUnit constantUnit = .ok r ∧
      Format.layout.text constantUnit = .ok text ∧ r.ReadFrom text := by
  have hfits : awkwardReport.Fits := by
    intro s hs
    simp only [awkwardReport, List.mem_cons, List.not_mem_nil, or_false] at hs
    rcases hs with rfl | rfl
    · exact ⟨by decide, by decide, by simp⟩
    · refine ⟨by decide, by decide, ?_⟩
      rw [List.forall_mem_singleton]
      exact ⟨by decide, by decide⟩
  exact ⟨hfits, report_read_back.1 awkwardReport hfits, obtained_constant_unit, rfl,
    report_read_back.2 _ constantUnit obtained_constant_unit rfl⟩

end DataLayout
