import DataLayout.Proofs.Acceptance
import DataLayout.Proofs.Flattening
import DataLayout.Proofs.TypeSymbols

/-!
# The text of a type

The text that a report shows for the type of a field is a way to write that type: as the type of a
field in another file it is read as a type with the same plain type.
-/

set_option autoImplicit false

namespace DataLayout
open Grammar Lexeme

/-! ## The fields of a unit -/

def WrittenType.InText (w : WrittenType) : Prop :=
  ∃ ts, OfType ts w ∧ ∀ t ∈ ts, t.value.Writable

def Definition.InText : Definition → Prop
  | .struct _ groups => ∀ g ∈ groups, g.type.InText
  | .constant _ _ | .inclusion _ => True

theorem Grammar.Groups.in_text {ts : List Token} {groups : List FieldGroup} (h : Groups ts groups)
    (hts : ∀ t ∈ ts, t.value.Writable) : ∀ g ∈ groups, g.type.InText := by
  induction h with
  | nil => simp
  | cons hg _ ih =>
    rw [List.forall_mem_append] at hts
    refine List.forall_mem_cons.mpr ⟨?_, ih hts.2⟩
    cases hg with
    | mk ht _ =>
      rw [List.forall_mem_append] at hts
      exact ⟨_, ht, hts.1.1⟩

theorem Grammar.File.in_text {ts : List Token} {ds : List Definition} (h : File ts ds)
    (hts : ∀ t ∈ ts, t.value.Writable) : ∀ d ∈ ds, d.InText := by
  induction h with
  | nil => simp
  | cons hd _ ih =>
    rw [List.forall_mem_append] at hts
    refine List.forall_mem_cons.mpr ⟨?_, ih hts.2⟩
    cases hd with
    | struct hg _ =>
      simp only [List.forall_mem_cons, List.forall_mem_append] at hts
      exact hg.in_text hts.1.2.2.2.1
    | constant | inclusion => trivial

theorem Source.Derives.in_text {source : Source} {ds : List Definition} (h : source.Derives ds) :
    ∀ d ∈ ds, d.InText :=
  h.2.in_text (TokenStream.of_text_writable _ _)

theorem Flattens.in_text {sources : Sources} {file : String} {ds : List Definition}
    {items : List Item} (h : Flattens sources file ds items) (hds : ∀ d ∈ ds, d.InText) :
    ∀ x ∈ items, x.definition.InText := by
  induction h with
  | nil => simp
  | own _ _ ih =>
    obtain ⟨hd, hrest⟩ := List.forall_mem_cons.mp hds
    exact List.forall_mem_cons.mpr ⟨hd, ih hrest⟩
  | inclusion _ hinner _ _ ihn ih =>
    refine List.forall_mem_append.mpr ⟨?_, ih (List.forall_mem_cons.mp hds).2⟩
    rw [List.forall_mem_map]
    exact ihn hinner.in_text

theorem forall₂_singleton_right {α β : Type} {R : α → β → Prop} {as : List α} {b : β} :
    List.Forall₂ R as [b] ↔ ∃ a, as = [a] ∧ R a b := by
  rw [List.forall₂_cons_right_iff]
  simp only [List.forall₂_nil_right_iff]
  constructor
  · rintro ⟨a, _, hab, rfl, rfl⟩
    exact ⟨a, rfl, hab⟩
  · rintro ⟨a, rfl, hab⟩
    exact ⟨a, [], hab, rfl, rfl⟩

theorem Loader.load_to_in_text {sources : Sources} {depth : Nat} {source : Source}
    {loading : List String} {u : CompilationUnit}
    (h : (loadTo sources depth source loading).1 = .ok u) {s : Struct} (hs : s ∈ u.structs)
    {f : Field} (hf : f ∈ s.fields) : ∃ w, f.ty.Means u.functions w ∧ w.InText := by
  obtain ⟨ds, items, hds, hitems⟩ := load_to_exists_flattens h
  obtain ⟨hholds, _⟩ := load_to_holds h ds items hds hitems
  obtain ⟨x, hx, hwritten⟩ := exists_mem_of_forall₂ hholds.structs hs
  have hin := hitems.in_text hds.in_text x (List.mem_filter.mp hx).1
  cases hwritten with
  | mk _ _ hfields =>
    obtain ⟨member, hmember, hmeans⟩ := exists_mem_of_forall₂ hfields hf
    obtain ⟨g, hg, hname⟩ := List.mem_flatMap.mp hmember
    obtain ⟨name, _, rfl⟩ := List.mem_map.mp hname
    exact ⟨g.type, hmeans.type, hin g hg⟩

theorem compile_in_text {sources : Sources} {path : String} {u : CompilationUnit}
    (h : compile sources path = .ok u) {s : Struct} (hs : s ∈ u.structs) {f : Field}
    (hf : f ∈ s.fields) : ∃ w : WrittenType, f.ty.Unfolds u.functions w.plain ∧ w.InText := by
  obtain ⟨source, v, _, hload, hresolve⟩ := compile_eq_ok.mp h
  have henriches := CompilationUnit.enriches_of_resolve hresolve
  obtain ⟨s₀, hs₀, hbare⟩ := henriches.structs.exists_mem hs
  have hmem : f.bare ∈ s₀.bare.fields := by
    rw [hbare]
    exact List.mem_map_of_mem hf
  obtain ⟨f₀, hf₀, hfbare⟩ := List.mem_map.mp hmem
  obtain ⟨w, hmeans, hw⟩ := Loader.load_to_in_text hload hs₀ hf₀
  have hty := congrArg Field.ty hfbare
  exact ⟨w, hmeans.unfolds.of_bare henriches.functions hty.symm, hw⟩

/-! ## A file with one field -/

def fieldText (type : String) : String := "struct X \x7b " ++ type ++ " f; \x7d"

theorem writable_one_letter {name : String} (hname : isWord name.toList = true)
    (hlength : name.length = 1) : (Symbol.identifier name).Writable := by
  refine ⟨hname, fun k hk => ?_, fun p hp => ?_⟩
  · rw [← hk] at hlength
    cases k <;> cases hlength
  · rw [← hp] at hlength
    cases p <;> cases hlength

theorem reads_field_text {ts : List Token} {w : WrittenType} (h : OfType ts w)
    (hts : ∀ t ∈ ts, t.value.Writable) (file : String) :
    (TokenStream.ofText file (fieldText w.plain.text)).Reads
      (.keyword .struct :: .identifier "X" :: .mark .lbrace ::
        (ts.map Located.value ++ [.identifier "f", .mark .semicolon, .mark .rbrace])) := by
  obtain ⟨hX, hXk, hXp⟩ : (Symbol.identifier "X").Writable := writable_one_letter (by decide) rfl
  have hf : (Symbol.identifier "f").Writable := writable_one_letter (by decide) rfl
  have hbrace : SpellsTo [.mark .rbrace] [] "\x7d".toList := .one (.mark .rbrace) (parted_nil _)
  have hsemicolon := SpellsTo.cons (.mark .semicolon) (fun _ _ => rfl)
    (hbrace.space (List.cons_ne_nil _ _))
  have hfield :=
    spells_to_param (h.spells_to hts) hf hsemicolon (parted_mark .semicolon (by decide))
  have hopen := SpellsTo.cons (.mark .lbrace) (fun _ _ => rfl) (hfield.space (by simp))
  have hname := SpellsTo.cons (.identifier hX hXk hXp) (parted_space _)
    (hopen.space (List.cons_ne_nil _ _))
  have hstruct := SpellsTo.cons (.keyword .struct) (parted_space _)
    (hname.space (List.cons_ne_nil _ _))
  apply TokenStream.reads_of_spells_to
  simp only [fieldText, String.toList_append, List.append_assoc]
  exact hstruct

theorem derives_field_text {w : WrittenType} (h : w.InText) (name identity : String) :
    ∃ w' loc loc', w'.plain = w.plain ∧
      Source.Derives ⟨name, identity, fieldText w.plain.text⟩
        [.struct ⟨loc, "X"⟩ [⟨w', [⟨loc', "f"⟩]⟩]] := by
  obtain ⟨ts, hw, hts⟩ := h
  obtain ⟨hending, htokens⟩ := reads_field_text hw hts name
  obtain ⟨⟨loc₁, _⟩, ts₁, ht₁, rfl, h₁⟩ := List.map_eq_cons_iff.mp htokens
  obtain ⟨⟨loc₂, _⟩, ts₂, rfl, rfl, h₂⟩ := List.map_eq_cons_iff.mp h₁
  obtain ⟨⟨loc₃, _⟩, ts₃, rfl, rfl, h₃⟩ := List.map_eq_cons_iff.mp h₂
  obtain ⟨ts', ts₄, rfl, hts', h₄⟩ := List.map_eq_append_iff.mp h₃
  obtain ⟨⟨loc₅, _⟩, ts₅, rfl, rfl, h₅⟩ := List.map_eq_cons_iff.mp h₄
  obtain ⟨⟨loc₆, _⟩, ts₆, rfl, rfl, h₆⟩ := List.map_eq_cons_iff.mp h₅
  obtain ⟨⟨loc₇, _⟩, rfl, rfl⟩ := List.map_eq_singleton_iff.mp h₆
  obtain ⟨w', hw', hplain⟩ := hw.respelled hts'
  refine ⟨w', loc₂, loc₅, hplain, hending, ?_⟩
  have hfields : OfFields (ts' ++ ⟨loc₅, .identifier "f"⟩ :: ([] ++ [⟨loc₆, .mark .semicolon⟩]))
      ⟨w', [⟨loc₅, "f"⟩]⟩ := .mk hw' .nil
  have hgroups := Groups.cons hfields .nil
  have hdefines : Defines (⟨loc₁, .keyword .struct⟩ :: ⟨loc₂, .identifier "X"⟩ ::
      ⟨loc₃, .mark .lbrace⟩ :: (_ ++ ⟨loc₇, .mark .rbrace⟩ :: []))
        (.struct ⟨loc₂, "X"⟩ [⟨w', [⟨loc₅, "f"⟩]⟩]) := .struct hgroups .none
  have hfile := File.cons hdefines .nil
  rw [ht₁]
  simpa using hfile

theorem Loader.exists_load (l : Loader) {source : Source} {ds : List Definition}
    (hds : source.Derives ds) (hno : ∀ path, .inclusion path ∉ ds) :
    ∃ u, (l.load source).1 = .ok u := by
  have hnone : ∀ loc path,
      .inclusion loc path ∉ (Script.ofText source.name source.text).statements :=
    fun loc path hm => hno _ (mem_of_forall₂_states hds.states hm)
  exact l.exists_load_of_no_inclusion (Source.failure_eq_none.mpr ⟨ds, hds⟩) hnone

theorem Struct.Written.fields {fns : List FunctionType} {s : Struct} {name : Located String}
    {groups : List FieldGroup} {included : Bool}
    (h : s.Written fns ⟨.struct name groups, included⟩) :
    s.name = name.value ∧
      List.Forall₂ (Field.Means fns) s.fields (groups.flatMap FieldGroup.members) := by
  generalize hx : Item.mk (.struct name groups) included = x at h
  cases h with
  | mk hname _ hfields =>
    cases hx
    exact ⟨hname, hfields⟩

theorem load_field_text (l : Loader) {w : WrittenType} (h : w.InText) (name identity : String) :
    ∃ v s f, (l.load ⟨name, identity, fieldText w.plain.text⟩).1 = .ok v ∧ v.structs = [s] ∧
      s.name = "X" ∧ s.fields = [f] ∧ f.name = "f" ∧ f.ty.Unfolds v.functions w.plain := by
  obtain ⟨w', loc, loc', hplain, hds⟩ := derives_field_text h name identity
  obtain ⟨v, hv⟩ := l.exists_load hds (by simp)
  obtain ⟨hholds, _⟩ := Loader.load_to_holds hv _ _ hds (.own rfl .nil)
  obtain ⟨s, hs, hwritten⟩ := forall₂_singleton_right.mp hholds.structs
  obtain ⟨hname, hfields⟩ := hwritten.fields
  obtain ⟨f, hf, hmeans⟩ := forall₂_singleton_right.mp hfields
  have hty := hmeans.type.unfolds
  rw [hplain] at hty
  exact ⟨v, s, f, hv, hs, hname, hf, hmeans.name, hty⟩

/-- The text that a report shows for the type of a field can be written as the type of a field in a
file of its own. The file is loaded, and the types of the two fields unfold to one plain type. -/
theorem compile_type_text_loads {sources : Sources} {path : String} {u : CompilationUnit}
    (h : compile sources path = .ok u) {s : Struct} (hs : s ∈ u.structs) {f : Field}
    (hf : f ∈ s.fields) :
    ∃ report plain, Report.ofField u (FunctionType.spellAll u.functions []) f = .ok report ∧
      (∀ p, f.ty.Unfolds u.functions p ↔ p = plain) ∧
      ∀ (l : Loader) (name identity : String), ∃ v s' f',
        (l.load ⟨name, identity, fieldText report.type⟩).1 = .ok v ∧ v.structs = [s'] ∧
        s'.name = "X" ∧ s'.fields = [f'] ∧ f'.name = "f" ∧
        ∀ p, f'.ty.Unfolds v.functions p ↔ p = plain := by
  obtain ⟨w, hunfolds, hw⟩ := compile_in_text h hs hf
  obtain ⟨source, u₀, _, hload, hresolve⟩ := compile_eq_ok.mp h
  obtain ⟨extent, hres⟩ := CompilationUnit.resolve_spec hresolve
  have hnumbered := (CompilationUnit.enriches_of_resolve hresolve).numbered
    (Loader.load_to_numbered hload)
  obtain ⟨report, hreport⟩ := (hres.complete hnumbered).exists_field_report hs hf
  have hspell := Report.spell_of_of_field hreport
  have htext : report.type = w.plain.text :=
    (hnumbered.functions.expands_of_spell hspell).unique hunfolds.expands
  refine ⟨report, w.plain, hreport, hunfolds.iff_eq, fun l name identity => ?_⟩
  obtain ⟨v, s', f', hv, hs', hname, hf', hfname, hunfolds'⟩ := load_field_text l hw name identity
  rw [htext]
  exact ⟨v, s', f', hv, hs', hname, hf', hfname, hunfolds'.iff_eq⟩

/-- A function that returns a function, with a parameter that is one, behind an include that has a
function type as well. -/
def returningSource : Source :=
  ⟨"a", "a", "include\"b\"struct A\x7bu8(void(B*b,u16[2]n)*g)(u8 x)*[3]f;\x7d"⟩

def returningSources : MemorySources :=
  ⟨[("a", returningSource.text), ("b", "struct B\x7bu32()*k;\x7d")]⟩

def returningUnit : CompilationUnit :=
  ⟨"a", ["b"],
    [⟨⟨"b", 1⟩, "B", [⟨⟨"b", 1⟩, "k", .pointer (.function 0), none⟩], true, none⟩,
      ⟨⟨"a", 1⟩, "A", [⟨⟨"a", 1⟩, "f", .array (.pointer (.function 3)) 3, none⟩], false, none⟩], [],
    [⟨⟨"b", 1⟩, .primitive .u32, [], true⟩,
      ⟨⟨"a", 1⟩, .void, [⟨"b", .pointer (.struct ⟨⟨"a", 1⟩, "B", none⟩)⟩,
        ⟨"n", .array (.primitive .u16) 2⟩], false⟩,
      ⟨⟨"a", 1⟩, .primitive .u8, [⟨"g", .pointer (.function 1)⟩], false⟩,
      ⟨⟨"a", 1⟩, .function 2, [⟨"x", .primitive .u8⟩], false⟩], [], false⟩

def returningResolved : CompilationUnit :=
  { returningUnit with
    structs :=
      [⟨⟨"b", 1⟩, "B", [⟨⟨"b", 1⟩, "k", .pointer (.function 0), some 0⟩], true, some ⟨4, 2⟩⟩,
        ⟨⟨"a", 1⟩, "A", [⟨⟨"a", 1⟩, "f", .array (.pointer (.function 3)) 3, some 0⟩], false,
          some ⟨12, 2⟩⟩]
    functions :=
      [⟨⟨"b", 1⟩, .primitive .u32, [], true⟩,
        ⟨⟨"a", 1⟩, .void, [⟨"b", .pointer (.struct ⟨⟨"a", 1⟩, "B", some 0⟩)⟩,
          ⟨"n", .array (.primitive .u16) 2⟩], false⟩,
        ⟨⟨"a", 1⟩, .primitive .u8, [⟨"g", .pointer (.function 1)⟩], false⟩,
        ⟨⟨"a", 1⟩, .function 2, [⟨"x", .primitive .u8⟩], false⟩]
    resolved := true }

theorem compile_type_text_loads_returning :
    ∃ u s f report plain, compile returningSources.sources "a" = .ok u ∧ s ∈ u.structs ∧
      f ∈ s.fields ∧ Report.ofField u (FunctionType.spellAll u.functions []) f = .ok report ∧
      report.type = "u8(void(B* b, u16[2] n)* g)(u8 x)*[3]" ∧
      (∀ p, f.ty.Unfolds u.functions p ↔ p = plain) ∧
      ∀ (l : Loader) (name identity : String), ∃ v s' f',
        (l.load ⟨name, identity, fieldText report.type⟩).1 = .ok v ∧ v.structs = [s'] ∧
        s'.name = "X" ∧ s'.fields = [f'] ∧ f'.name = "f" ∧
        ∀ p, f'.ty.Unfolds v.functions p ↔ p = plain := by
  have hload : returningSources.sources.loaded? "a" = some returningUnit := by decide +kernel
  have hresolve : decide (returningUnit.resolve = .done returningResolved) = true := by cbv
  have hrun : (returningResolved.structs.any fun s => s.fields.any fun f =>
      (Report.ofField returningResolved
        (FunctionType.spellAll returningResolved.functions []) f).toOption.any
          (·.type == "u8(void(B* b, u16[2] n)* g)(u8 x)*[3]")) = true := by
    decide +kernel
  obtain ⟨s, hs, hany⟩ := List.any_eq_true.mp hrun
  obtain ⟨f, hf, hany⟩ := List.any_eq_true.mp hany
  obtain ⟨report, hreport, htype⟩ := (Option.any_eq_true _ _).mp hany
  have hcompile := compile_of_load hload (of_decide_eq_true hresolve)
  obtain ⟨report', plain, hreport', hrest⟩ := compile_type_text_loads hcompile hs hf
  cases (except_to_option_eq_some.mp hreport).symm.trans hreport'
  exact ⟨_, s, f, report, plain, hcompile, hs, hf, hreport', beq_iff_eq.mp htype, hrest⟩

end DataLayout
