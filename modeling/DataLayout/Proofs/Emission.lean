import DataLayout.Output
import DataLayout.Proofs.Numbering

/-!
# Complete units can be written

Output asks a unit for numbers and names that resolution has put there. A unit is complete when
none of them is missing, and then every format has a text and a sink without a limit takes it.
-/

set_option autoImplicit false

namespace DataLayout

theorem exists_map_m {m : Type → Type} [Monad m] [LawfulMonad m] {α β : Type} {f : α → m β}
    {as : List α} (h : ∀ a ∈ as, ∃ b, f a = pure b) : ∃ bs, as.mapM f = pure bs := by
  induction as with
  | nil => exact ⟨[], List.mapM_nil⟩
  | cons a as ih =>
    obtain ⟨⟨b, hb⟩, has⟩ := List.forall_mem_cons.mp h
    obtain ⟨bs, hbs⟩ := ih has
    exact ⟨b :: bs, by rw [List.mapM_cons, hb, hbs, pure_bind, pure_bind]⟩

/-- The number of function types before a position that are not included. -/
def ownRank (fns : List FunctionType) (id : Nat) : Nat :=
  (fns.take id).countP fun f => !f.included

namespace Header

theorem aliases_get_elem? (stem : String) (fns : List FunctionType) (next id : Nat) :
    (aliases stem fns next)[id]? = (fns[id]?).map fun f =>
      if f.included then none else some (stem ++ toString (next + ownRank fns id)) := by
  induction fns generalizing next id with
  | nil => rfl
  | cons f fns ih =>
    cases id with
    | zero => by_cases hf : f.included <;> simp [aliases, hf, ownRank]
    | succ id =>
      by_cases hf : f.included
      · simp [aliases, hf, ih, ownRank]
      · simp [aliases, hf, ih, ownRank, Nat.add_assoc, Nat.add_comm 1]

variable {names : List (Option String)}

theorem exists_before {t : Ty}
    (h : ∀ id, t.function? = some id → ∃ name, names[id]? = some (some name)) :
    ∃ text, before names t = .ok text := by
  induction t with
  | primitive | void | struct => exact ⟨_, rfl⟩
  | function id =>
    obtain ⟨name, hn⟩ := h id rfl
    exact ⟨name, by rw [before, hn]⟩
  | pointer t ih =>
    obtain ⟨text, ht⟩ := ih h
    exact ⟨text ++ "*", by rw [before, ht]; rfl⟩
  | array t n ih => exact ih h

theorem exists_declare {t : Ty}
    (h : ∀ id, t.function? = some id → ∃ name, names[id]? = some (some name)) (name : String) :
    ∃ text, declare names t name = .ok text := by
  obtain ⟨base, hb⟩ := exists_before h
  exact ⟨_, by rw [declare, hb]; rfl⟩

theorem exists_typedef_line {f : FunctionType}
    (h : ∀ t ∈ f.types, ∀ id, t.function? = some id → ∃ name, names[id]? = some (some name))
    (name : String) : ∃ line, typedefLine names f name = .ok line := by
  obtain ⟨hr, hp⟩ := List.forall_mem_cons.mp h
  obtain ⟨base, hb⟩ := exists_before hr
  obtain ⟨params, hparams⟩ : ∃ ls, (f.params.mapM fun p => declare names p.ty p.name) = .ok ls := by
    apply exists_map_m
    intro p hmem
    exact exists_declare (hp p.ty (List.mem_map_of_mem hmem)) p.name
  exact ⟨_, by rw [typedefLine, hb, hparams]; rfl⟩

theorem exists_typedef_lines {fns : List (FunctionType × Option String)}
    (h : ∀ f name, (f, some name) ∈ fns → ∃ line, typedefLine names f name = .ok line) :
    ∃ lines, typedefLines names fns = .ok lines := by
  induction fns with
  | nil => exact ⟨[], rfl⟩
  | cons entry fns ih =>
    obtain ⟨lines, hlines⟩ := ih fun f name hmem => h f name (List.mem_cons_of_mem _ hmem)
    obtain ⟨f, name?⟩ := entry
    cases name? with
    | none => exact ⟨lines, hlines⟩
    | some name =>
      obtain ⟨line, hline⟩ := h f name List.mem_cons_self
      exact ⟨line :: lines, by rw [typedefLines, hline, hlines]; rfl⟩

theorem included_of_named {stem : String} {fns : List FunctionType} {f : FunctionType}
    {name : String} (h : (f, some name) ∈ fns.zip (aliases stem fns 0)) :
    f ∈ fns ∧ f.included = false := by
  obtain ⟨k, hk⟩ := List.mem_iff_getElem?.mp h
  obtain ⟨hf, hn⟩ := List.getElem?_zip_eq_some.mp hk
  rw [aliases_get_elem?, hf, Option.map_some, Option.some.injEq] at hn
  refine ⟨List.mem_of_getElem? hf, ?_⟩
  by_cases hi : f.included
  · simp [hi] at hn
  · simpa using hi

end Header

namespace Ty

theorem exists_spell {function : Nat → Option String} {t : Ty}
    (h : ∀ id, t.function? = some id → ∃ s, function id = some s) :
    ∃ s, t.spell function = some s := by
  induction t with
  | primitive | void | struct => exact ⟨_, rfl⟩
  | function id => exact h id rfl
  | pointer t ih =>
    obtain ⟨s, hs⟩ := ih h
    exact ⟨_, by rw [spell, hs, Option.map_some]⟩
  | array t n ih =>
    obtain ⟨s, hs⟩ := ih h
    exact ⟨_, by rw [spell, hs, Option.map_some]⟩

end Ty

namespace FunctionType

theorem exists_spell {function : Nat → Option String} {f : FunctionType}
    (h : ∀ t ∈ f.types, ∃ s, t.spell function = some s) : ∃ s, f.spell function = some s := by
  obtain ⟨hr, hp⟩ := List.forall_mem_cons.mp h
  obtain ⟨base, hbase⟩ := hr
  obtain ⟨params, hparams⟩ : ∃ params, (f.params.mapM fun p =>
      (p.ty.spell function).map fun s => s ++ " " ++ p.name) = some params := by
    apply exists_map_m
    intro p hmem
    obtain ⟨s, hs⟩ := hp p.ty (List.mem_map_of_mem hmem)
    exact ⟨s ++ " " ++ p.name, by rw [hs]; rfl⟩
  exact ⟨_, by rw [spell, hbase, hparams]; rfl⟩

theorem spell_all_append (fns fns' : List FunctionType) (spelled : List (Option String)) :
    spellAll (fns ++ fns') spelled = spellAll fns' (spellAll fns spelled) := by
  induction fns generalizing spelled with
  | nil => rfl
  | cons f fns ih => exact ih _

theorem length_spell_all (fns : List FunctionType) (spelled : List (Option String)) :
    (spellAll fns spelled).length = spelled.length + fns.length := by
  induction fns generalizing spelled with
  | nil => rfl
  | cons f fns ih =>
    rw [spellAll, ih, List.length_append, List.length_singleton, List.length_cons]
    omega

def spelling (fns : List FunctionType) (id : Nat) : Option String := ((spellAll fns [])[id]?).join

theorem spelling_snoc_of_lt {fns : List FunctionType} {f : FunctionType} {id : Nat}
    (h : id < fns.length) : spelling (fns ++ [f]) id = spelling fns id := by
  have hl : id < (spellAll fns []).length := by rw [length_spell_all]; simpa using h
  rw [spelling, spell_all_append, spellAll, spellAll, List.getElem?_append_left hl, spelling]

theorem spelling_snoc_last (fns : List FunctionType) (f : FunctionType) :
    spelling (fns ++ [f]) fns.length = f.spell (spelling fns) := by
  have hl : (spellAll fns []).length = fns.length := by rw [length_spell_all]; simp
  rw [spelling, spell_all_append, spellAll, spellAll, ← hl, List.getElem?_concat_length]
  rfl

end FunctionType

theorem WellNumbered.exists_spelling {fns : List FunctionType} (h : WellNumbered fns) {id : Nat}
    (hid : id < fns.length) : ∃ s, FunctionType.spelling fns id = some s := by
  induction h generalizing id with
  | nil => exact absurd hid (Nat.not_lt_zero id)
  | @snoc fns f _ hf ih =>
    rw [List.length_append, List.length_singleton] at hid
    by_cases hlt : id < fns.length
    · rw [FunctionType.spelling_snoc_of_lt hlt]
      exact ih hlt
    · obtain rfl : id = fns.length := by omega
      rw [FunctionType.spelling_snoc_last]
      apply FunctionType.exists_spell
      intro t ht
      exact Ty.exists_spell fun id hid => ih ((hf t ht).lt_length hid)

namespace CompilationUnit

abbrev aliases (u : CompilationUnit) : List (Option String) :=
  Header.aliases (Header.aliasStem u.filename) u.functions 0

/-- The function type at a position has a name in the header of the unit. -/
def HasAlias (u : CompilationUnit) (id : Nat) : Prop := ∃ name, u.aliases[id]? = some (some name)

structure Complete (u : CompilationUnit) : Prop where
  extents : ∀ s ∈ u.structs, ∃ e, s.extent = some e
  offsets : ∀ s ∈ u.structs, ∀ f ∈ s.fields, ∃ n, f.offset = some n
  sizes : ∀ s ∈ u.structs, ∀ f ∈ s.fields, ∃ n, f.ty.size? u.extent? = some n
  constants : ∀ v ∈ u.values, ∃ c, u.constants[v.1]? = some c
  /-- Every function type that is mentioned is there, and spelling it out comes to an end. -/
  numbered : u.Numbered
  field_aliases : ∀ s ∈ u.structs, s.included = false → ∀ f ∈ s.fields, ∀ id,
    f.ty.function? = some id → u.HasAlias id
  function_aliases : ∀ g ∈ u.functions, g.included = false → ∀ t ∈ g.types, ∀ id,
    t.function? = some id → u.HasAlias id

theorem mem_local_structs {u : CompilationUnit} {s : Struct} :
    s ∈ u.localStructs ↔ s ∈ u.structs ∧ s.included = false := by
  simp [localStructs]

namespace Complete

variable {u : CompilationUnit} {s : Struct}

theorem exists_local_values (h : u.Complete) : ∃ cs, u.localValues = .ok cs := by
  obtain ⟨vs, hvs⟩ : ∃ vs, u.valued = .ok vs := by
    apply exists_map_m
    intro v hv
    obtain ⟨c, hc⟩ := h.constants v hv
    exact ⟨(c, v.2), by rw [hc]; rfl⟩
  exact ⟨_, by rw [localValues, hvs]; rfl⟩

theorem exists_placed_extent (h : u.Complete) (hs : s ∈ u.structs) :
    ∃ e, s.placedExtent = .ok e := by
  obtain ⟨e, he⟩ := h.extents s hs
  exact ⟨e, by rw [Struct.placedExtent, he]⟩

theorem exists_placed_offset (h : u.Complete) (hs : s ∈ u.structs) {f : Field}
    (hf : f ∈ s.fields) : ∃ n, f.placedOffset = .ok n := by
  obtain ⟨n, hn⟩ := h.offsets s hs f hf
  exact ⟨n, by rw [Field.placedOffset, hn]⟩

theorem exists_equates (h : u.Complete) (hs : s ∈ u.structs) :
    ∃ lines, Assembly.structLines s = .ok lines := by
  obtain ⟨e, he⟩ := h.exists_placed_extent hs
  obtain ⟨fields, hfields⟩ : ∃ ls, s.fields.mapM (Assembly.fieldLine s) = .ok ls := by
    apply exists_map_m
    intro f hf
    obtain ⟨n, hn⟩ := h.exists_placed_offset hs hf
    exact ⟨Assembly.equate (s.name ++ "_" ++ f.name) n, by rw [Assembly.fieldLine, hn]; rfl⟩
  exact ⟨_, by rw [Assembly.structLines, hfields, he]; rfl⟩

theorem exists_body (h : u.Complete) (hs : s ∈ u.structs) (hown : s.included = false) :
    ∃ lines, Header.structLines u.aliases s = .ok lines := by
  obtain ⟨fields, hfields⟩ : ∃ ls, (s.fields.mapM fun f =>
      (Header.declare u.aliases f.ty f.name).map fun d => "    " ++ d ++ ";") = .ok ls := by
    apply exists_map_m
    intro f hf
    obtain ⟨d, hd⟩ := Header.exists_declare (h.field_aliases s hs hown f hf) f.name
    exact ⟨"    " ++ d ++ ";", by rw [hd]; rfl⟩
  exact ⟨_, by rw [Header.structLines, hfields]; rfl⟩

theorem exists_assertions (h : u.Complete) (hs : s ∈ u.structs) :
    ∃ lines, Header.assertionLines s = .ok lines := by
  obtain ⟨e, he⟩ := h.exists_placed_extent hs
  obtain ⟨fields, hfields⟩ : ∃ ls, (s.fields.mapM fun f =>
      f.placedOffset.map (Header.offsetAssertion s f)) = .ok ls := by
    apply exists_map_m
    intro f hf
    obtain ⟨n, hn⟩ := h.exists_placed_offset hs hf
    exact ⟨Header.offsetAssertion s f n, by rw [hn]; rfl⟩
  exact ⟨_, by rw [Header.assertionLines, he, hfields]; rfl⟩

theorem exists_field_report (h : u.Complete) (hs : s ∈ u.structs) {f : Field} (hf : f ∈ s.fields) :
    ∃ report, Report.ofField u (FunctionType.spellAll u.functions []) f = .ok report := by
  obtain ⟨n, hn⟩ := h.exists_placed_offset hs hf
  obtain ⟨size, hsize⟩ := h.sizes s hs f hf
  obtain ⟨type, htype⟩ : ∃ text, f.ty.spell (FunctionType.spelling u.functions) = some text := by
    apply Ty.exists_spell
    intro id hid
    exact h.numbered.functions.exists_spelling ((h.numbered.fields s hs f hf).lt_length hid)
  have hspell : (f.ty.spell fun id => ((FunctionType.spellAll u.functions [])[id]?).join) =
    some type := htype
  exact ⟨⟨f.name, n, size, type⟩, by rw [Report.ofField, hn, hsize, hspell]; rfl⟩

theorem exists_struct_report (h : u.Complete) (hs : s ∈ u.structs) :
    ∃ report, Report.ofStruct u (FunctionType.spellAll u.functions []) s = .ok report := by
  obtain ⟨e, he⟩ := h.exists_placed_extent hs
  obtain ⟨fields, hfields⟩ := exists_map_m fun f hf => h.exists_field_report hs hf
  exact ⟨_, by rw [Report.ofStruct, he, hfields]; rfl⟩

theorem exists_assembly (h : u.Complete) (hr : u.resolved = true) :
    ∃ lines, Assembly.lines u = .ok lines := by
  obtain ⟨values, hvalues⟩ := h.exists_local_values
  obtain ⟨structs, hstructs⟩ : ∃ ls, u.localStructs.mapM Assembly.structLines = .ok ls :=
    exists_map_m fun s hs => h.exists_equates (mem_local_structs.mp hs).1
  exact ⟨_, by rw [Assembly.lines, checkResolved, if_pos hr, hvalues, hstructs]; rfl⟩

theorem exists_header (h : u.Complete) (hr : u.resolved = true) :
    ∃ lines, Header.lines u = .ok lines := by
  obtain ⟨typedefs, htypedefs⟩ :
      ∃ ls, Header.typedefLines u.aliases (u.functions.zip u.aliases) = .ok ls := by
    apply Header.exists_typedef_lines
    intro f name hmem
    obtain ⟨hf, hown⟩ := Header.included_of_named hmem
    exact Header.exists_typedef_line (h.function_aliases f hf hown) name
  obtain ⟨structs, hstructs⟩ : ∃ ls, u.localStructs.mapM (Header.structLines u.aliases) = .ok ls :=
    exists_map_m fun s hs => h.exists_body (mem_local_structs.mp hs).1 (mem_local_structs.mp hs).2
  obtain ⟨assertions, hassertions⟩ : ∃ ls, u.localStructs.mapM Header.assertionLines = .ok ls :=
    exists_map_m fun s hs => h.exists_assertions (mem_local_structs.mp hs).1
  exact ⟨_, by
    rw [Header.lines, checkResolved, if_pos hr]
    dsimp only
    rw [htypedefs, hstructs, hassertions]
    rfl⟩

theorem exists_report (h : u.Complete) (hr : u.resolved = true) :
    ∃ report, Report.ofUnit u = .ok report := by
  obtain ⟨values, hvalues⟩ := h.exists_local_values
  obtain ⟨structs, hstructs⟩ : ∃ rs, u.localStructs.mapM
      (Report.ofStruct u (FunctionType.spellAll u.functions [])) = .ok rs :=
    exists_map_m fun s hs => h.exists_struct_report (mem_local_structs.mp hs).1
  exact ⟨_, by rw [Report.ofUnit, checkResolved, if_pos hr, hvalues, hstructs]; rfl⟩

theorem exists_pieces (h : u.Complete) (hr : u.resolved = true) (format : Format) :
    ∃ pieces, format.pieces u = .ok pieces := by
  cases format with
  | asm68k =>
    obtain ⟨lines, hl⟩ := h.exists_assembly hr
    exact ⟨_, by rw [Format.pieces, hl]; rfl⟩
  | cheader =>
    obtain ⟨lines, hl⟩ := h.exists_header hr
    exact ⟨_, by rw [Format.pieces, hl]; rfl⟩
  | layout =>
    obtain ⟨report, hp⟩ := h.exists_report hr
    exact ⟨_, by rw [Format.pieces, hp]; rfl⟩

end Complete

end CompilationUnit

theorem Sink.write_all_of_unlimited {s : Sink} (h : s.limit = none) (pieces : List Piece) :
    s.writeAll pieces =
      (none, { s with taken := s.taken ++ (String.join (pieces.map Piece.text)).toUTF8 }) := by
  induction pieces generalizing s with
  | nil => simp [writeAll]
  | cons p pieces ih =>
    have htext : (String.join ((p :: pieces).map Piece.text)).toUTF8 =
        p.text.toUTF8 ++ (String.join (pieces.map Piece.text)).toUTF8 := by
      rw [List.map_cons, String.join_cons]
      exact String.toByteArray_append
    rw [writeAll, write, h]
    dsimp only
    rw [ih rfl, htext, ByteArray.append_assoc]

theorem Format.emit_unlimited {format : Format} {u : CompilationUnit} {pieces : List Piece}
    (h : format.pieces u = .ok pieces) : ∃ text, format.text u = .ok text ∧
      format.emit u .unlimited = (none, ⟨none, text.toUTF8⟩) := by
  refine ⟨String.join (pieces.map Piece.text), by rw [text, h]; rfl, ?_⟩
  rw [emit, h]
  dsimp only
  rw [Sink.write_all_of_unlimited rfl]
  simp [Sink.unlimited]

end DataLayout
