import DataLayout.Proofs.Agreement
import DataLayout.Proofs.ReportedNumbers

/-!
# Symbols of the assembler output

The assembler output has an equate for each constant, and for each struct one for every field and
two more for its size and its alignment. The symbols of a struct are its name and another name with
an underscore in between. Constants, structs and the fields of a struct have different names each,
but the joined names can be the same, and the ways in which they can are listed here.
-/

set_option autoImplicit false

namespace DataLayout

section Joining

variable {s t a b : String}

theorem to_list_joined (s a : String) : (s ++ "_" ++ a).toList = s.toList ++ '_' :: a.toList := by
  simp

theorem joined_cases {w : List Char} (ht : t.toList = s.toList ++ w)
    (ha : '_' :: a.toList = w ++ '_' :: b.toList) :
    s = t ∧ a = b ∨ ∃ x, t = s ++ "_" ++ x ∧ a = x ++ "_" ++ b := by
  cases w with
  | nil =>
    rw [List.append_nil, String.toList_inj] at ht
    exact .inl ⟨ht.symm, String.toList_inj.mp (List.cons.inj ha).2⟩
  | cons c x =>
    obtain ⟨rfl, hrest⟩ := List.cons.inj ha
    refine .inr ⟨String.ofList x, ?_, ?_⟩
    · rw [← String.toList_inj, ht, to_list_joined, String.toList_ofList]
    · rw [← String.toList_inj, to_list_joined, String.toList_ofList]
      exact hrest

theorem joined_eq_iff : s ++ "_" ++ a = t ++ "_" ++ b ↔
    s = t ∧ a = b ∨ (∃ x, t = s ++ "_" ++ x ∧ a = x ++ "_" ++ b) ∨
      ∃ x, s = t ++ "_" ++ x ∧ b = x ++ "_" ++ a := by
  constructor
  · intro h
    rw [← String.toList_inj, to_list_joined, to_list_joined, List.append_eq_append_iff] at h
    rcases h with ⟨w, ht, ha⟩ | ⟨w, hs, hb⟩
    · rcases joined_cases ht ha with hsame | hlonger
      · exact .inl hsame
      · exact .inr (.inl hlonger)
    · rcases joined_cases hs hb with ⟨rfl, rfl⟩ | hlonger
      · exact .inl ⟨rfl, rfl⟩
      · exact .inr (.inr hlonger)
  · rintro (⟨rfl, rfl⟩ | ⟨x, rfl, rfl⟩ | ⟨x, rfl, rfl⟩)
    · rfl
    · simp only [String.append_assoc]
    · simp only [String.append_assoc]

theorem ne_joined : s ≠ s ++ "_" ++ a := by
  intro h
  have hlength := congrArg List.length (congrArg String.toList h)
  rw [to_list_joined, List.length_append, List.length_cons] at hlength
  omega

end Joining

namespace Struct

/-- What is joined to the name of a struct: the names of its fields, and two fixed ones. -/
def members (s : Struct) : List String := s.fields.map Field.name ++ ["SIZEOF", "ALIGNOF"]

def symbols (s : Struct) : List String := s.members.map fun m => s.name ++ "_" ++ m

theorem mem_symbols {s : Struct} {m : String} (hm : m ∈ s.members) :
    s.name ++ "_" ++ m ∈ s.symbols :=
  List.mem_map_of_mem hm

theorem symbols_nodup_iff {s : Struct} (hf : (s.fields.map Field.name).Nodup) :
    s.symbols.Nodup ↔ ∀ f ∈ s.fields, f.name ≠ "SIZEOF" ∧ f.name ≠ "ALIGNOF" := by
  have hinj : Function.Injective fun m => s.name ++ "_" ++ m :=
    fun _ _ h => (String.append_right_inj _).mp h
  rw [symbols, List.nodup_map_iff hinj, members, List.nodup_append]
  simp [hf]

theorem exists_field_of_joined {s : Struct} {x m : String} (h : x ++ "_" ++ m ∈ s.members) :
    ∃ f ∈ s.fields, f.name = x ++ "_" ++ m := by
  rcases List.mem_append.mp h with hfield | hfixed
  · exact List.mem_map.mp hfield
  · have hunderscore : '_' ∈ (x ++ "_" ++ m).toList := by simp
    simp only [List.mem_cons, List.not_mem_nil, or_false] at hfixed
    rcases hfixed with heq | heq
    · rw [heq] at hunderscore
      exact absurd hunderscore (by decide)
    · rw [heq] at hunderscore
      exact absurd hunderscore (by decide)

end Struct

namespace CompilationUnit

variable {u : CompilationUnit}

def localConstants (u : CompilationUnit) : List String :=
  (u.constants.filter (!·.included)).map Constant.name

def symbols (u : CompilationUnit) : List String :=
  u.localConstants ++ u.localStructs.flatMap Struct.symbols

inductive Clash (u : CompilationUnit) : Prop
  | constant {s : Struct} {m : String} (hs : s ∈ u.localStructs) (hm : m ∈ s.members)
      (hc : s.name ++ "_" ++ m ∈ u.localConstants)
  | field {s : Struct} {f : Field} (hs : s ∈ u.localStructs) (hf : f ∈ s.fields)
      (hname : f.name = "SIZEOF" ∨ f.name = "ALIGNOF")
  /-- The name of a struct goes on where that of another ends, and a field of the other has the
  rest of it and a member in its name. -/
  | struct {s t : Struct} {f : Field} {x m : String} (hs : s ∈ u.localStructs)
      (ht : t ∈ u.localStructs) (hname : t.name = s.name ++ "_" ++ x) (hm : m ∈ t.members)
      (hf : f ∈ s.fields) (hfield : f.name = x ++ "_" ++ m)

theorem clash_of_symbol {s t : Struct} (hs : s ∈ u.localStructs) (ht : t ∈ u.localStructs)
    (hne : s.name ≠ t.name) {symbol : String} (h : symbol ∈ s.symbols) (h' : symbol ∈ t.symbols) :
    u.Clash := by
  obtain ⟨m, hm, rfl⟩ := List.mem_map.mp h
  obtain ⟨m', hm', heq⟩ := List.mem_map.mp h'
  rcases joined_eq_iff.mp heq with ⟨hname, _⟩ | ⟨x, hname, rfl⟩ | ⟨x, hname, rfl⟩
  · exact absurd hname.symm hne
  · obtain ⟨f, hf, hfield⟩ := Struct.exists_field_of_joined hm'
    exact .struct ht hs hname hm hf hfield
  · obtain ⟨f, hf, hfield⟩ := Struct.exists_field_of_joined hm
    exact .struct hs ht hname hm' hf hfield

theorem Clash.not_nodup (h : u.Clash)
    (hf : ∀ s ∈ u.localStructs, (s.fields.map Field.name).Nodup) : ¬ u.symbols.Nodup := by
  rw [symbols, List.nodup_append, List.nodup_flatMap]
  rintro ⟨_, ⟨heach, hpairs⟩, hapart⟩
  cases h with
  | @constant s m hs hm hc =>
    exact hapart _ hc _ (List.mem_flatMap.mpr ⟨s, hs, Struct.mem_symbols hm⟩) rfl
  | @field s f hs hfield hname =>
    obtain ⟨hsize, halign⟩ := (Struct.symbols_nodup_iff (hf s hs)).mp (heach s hs) f hfield
    exact hname.elim hsize halign
  | @struct s t f x m hs ht hname hm hfield hjoined =>
    have hne : s ≠ t := by
      rintro rfl
      exact ne_joined hname
    have hsymm : Std.Symm (Function.onFun List.Disjoint Struct.symbols) := ⟨fun _ _ h => h.symm⟩
    have hdisjoint := hpairs.forall hs ht hne
    refine hdisjoint (Struct.mem_symbols (List.mem_append_left _ (List.mem_map_of_mem hfield))) ?_
    rw [joined_eq_iff.mpr (.inr (.inl ⟨x, hname, hjoined⟩))]
    exact Struct.mem_symbols hm

theorem nodup_of_not_clash (hc : u.localConstants.Nodup)
    (hs : (u.localStructs.map Struct.name).Nodup)
    (hf : ∀ s ∈ u.localStructs, (s.fields.map Field.name).Nodup) (h : ¬ u.Clash) :
    u.symbols.Nodup := by
  rw [symbols, List.nodup_append, List.nodup_flatMap]
  refine ⟨hc, ⟨fun s hmem => ?_, ?_⟩, fun a ha b hb hab => ?_⟩
  · rw [Struct.symbols_nodup_iff (hf s hmem)]
    intro f hfield
    exact ⟨fun hname => h (.field hmem hfield (.inl hname)),
      fun hname => h (.field hmem hfield (.inr hname))⟩
  · refine (List.Pairwise.of_map Struct.name (fun _ _ hne => hne) hs).imp_of_mem ?_
    intro s t hmem hmem' hne symbol hsymbol hsymbol'
    exact h (clash_of_symbol hmem hmem' hne hsymbol hsymbol')
  · obtain ⟨s, hmem, hsymbol⟩ := List.mem_flatMap.mp hb
    obtain ⟨m, hm, rfl⟩ := List.mem_map.mp hsymbol
    exact h (.constant hmem hm (hab ▸ ha))

end CompilationUnit

namespace Assembly

def Define (symbols lines : List String) : Prop :=
  List.Forall₂ (fun symbol line => ∃ value : Int, line = symbol ++ "\t\tEQU " ++ toString value)
    symbols lines

theorem struct_lines_define {s : Struct} {lines : List String} (h : structLines s = .ok lines) :
    Define s.symbols lines := by
  obtain ⟨fields, hfields, hrest⟩ := except_bind_eq_ok.mp h
  obtain ⟨extent, _, hrest⟩ := except_bind_eq_ok.mp hrest
  cases hrest
  rw [Struct.symbols, Struct.members, List.map_append, List.map_map]
  refine List.rel_append (List.forall₂_map_left_iff.mpr ((map_m_eq_ok.mp hfields).imp ?_)) ?_
  · intro f line hline
    obtain ⟨offset, _, rfl⟩ := except_map_eq_ok.mp hline
    exact ⟨offset, rfl⟩
  · refine .cons ⟨extent.size, ?_⟩ (.cons ⟨extent.alignment, ?_⟩ .nil)
    · simp [equate, String.append_assoc]
    · simp [equate, String.append_assoc]

theorem lines_define {u u₀ : CompilationUnit} {extent : String → Extent}
    (hres : u₀.ResolvedAs extent u) {lines : List String} (h : Assembly.lines u = .ok lines) :
    ∃ equates, Define u.symbols equates ∧
      lines = [banner] ++ u.includes.map includeLine ++ [""] ++ equates := by
  obtain ⟨⟨⟩, _, hrest⟩ := except_bind_eq_ok.mp h
  obtain ⟨values, hvalues, hrest⟩ := except_bind_eq_ok.mp hrest
  obtain ⟨structs, hstructs, hrest⟩ := except_bind_eq_ok.mp hrest
  cases hrest
  cases hres.local_values.symm.trans hvalues
  refine ⟨_, List.rel_append ?_ (List.rel_flatten ?_), List.append_assoc _ _ _⟩
  · rw [CompilationUnit.localConstants, List.map_map, List.forall₂_map_left_iff,
      List.forall₂_map_right_iff, List.forall₂_same]
    exact fun c _ => ⟨_, rfl⟩
  · rw [List.forall₂_map_left_iff]
    exact (map_m_eq_ok.mp hstructs).imp fun _ _ => struct_lines_define

end Assembly

/-- The assembler output of a compiled unit has one equate for each constant of the file, for each
field of a struct of the file and for the size and the alignment of these structs. No symbol is
defined twice just if no two of these definitions clash. -/
theorem compile_symbols_distinct_iff {sources : Sources} {path : String} {u : CompilationUnit}
    (h : compile sources path = .ok u) :
    ∃ equates,
      Format.asm68k.text u = .ok (unlines
        ([Assembly.banner] ++ u.includes.map Assembly.includeLine ++ [""] ++ equates)) ∧
      List.Forall₂ (fun symbol line => ∃ value : Int,
        line = symbol ++ "\t\tEQU " ++ toString value) u.symbols equates ∧
      (u.symbols.Nodup ↔ ¬ u.Clash) := by
  obtain ⟨source, w, _, hload, hdone⟩ := compile_eq_ok.mp h
  obtain ⟨extent, hres⟩ := CompilationUnit.resolve_spec hdone
  have hnumbered := (CompilationUnit.enriches_of_resolve hdone).numbered
    (Loader.load_to_numbered hload)
  have hresolved := CompilationUnit.resolved_of_resolve hdone
  obtain ⟨lines, hlines⟩ := (hres.complete hnumbered).exists_assembly hresolved
  obtain ⟨equates, hdefine, rfl⟩ := Assembly.lines_define hres hlines
  have hbindable : u.Bindable := hres.toArranges.bindable hres.wellFormed.toBindable
  have hfields : ∀ s ∈ u.localStructs, (s.fields.map Field.name).Nodup :=
    fun s hs => hbindable.fields_distinct s (CompilationUnit.mem_local_structs.mp hs).1
  refine ⟨equates, ?_, hdefine, fun hnodup hclash => hclash.not_nodup hfields hnodup, ?_⟩
  · apply Format.text_of_lines
    rw [Format.pieces, hlines]
    rfl
  · exact CompilationUnit.nodup_of_not_clash
      (hres.meaningful.distinct.sublist (List.filter_sublist.map _))
      (hbindable.structs_distinct.sublist (List.filter_sublist.map _)) hfields

/-- A constant has the name of a struct, and the name of the other struct goes on from there. -/
def apartSources : MemorySources :=
  ⟨[("a", "const A=1 struct A\x7bu8 b_c;\x7dstruct A_b\x7bu16 a;u8 d;\x7d")]⟩

def apartUnit : CompilationUnit :=
  let here : Location := ⟨"a", 1⟩
  { CompilationUnit.empty "a" with
    structs := [⟨here, "A", [⟨here, "b_c", .primitive .u8, none⟩], false, none⟩,
      ⟨here, "A_b", [⟨here, "a", .primitive .u16, none⟩, ⟨here, "d", .primitive .u8, none⟩], false,
        none⟩]
    constants := [⟨here, "A", .literal here 1, false⟩] }

def apartResolved : CompilationUnit :=
  let here : Location := ⟨"a", 1⟩
  { apartUnit with
    structs := [⟨here, "A", [⟨here, "b_c", .primitive .u8, some 0⟩], false, some ⟨1, 1⟩⟩,
      ⟨here, "A_b", [⟨here, "a", .primitive .u16, some 0⟩, ⟨here, "d", .primitive .u8, some 2⟩],
        false, some ⟨4, 2⟩⟩]
    values := [(0, 1)]
    resolved := true }

def apartSymbols : List String :=
  ["A", "A_b_c", "A_SIZEOF", "A_ALIGNOF", "A_b_a", "A_b_d", "A_b_SIZEOF", "A_b_ALIGNOF"]

theorem compile_symbols_distinct_iff_apart : ∃ u equates,
    compile apartSources.sources "a" = .ok u ∧ u.symbols = apartSymbols ∧
    Format.asm68k.text u = .ok (unlines
      ([Assembly.banner] ++ u.includes.map Assembly.includeLine ++ [""] ++ equates)) ∧
    List.Forall₂ (fun symbol line => ∃ value : Int,
      line = symbol ++ "\t\tEQU " ++ toString value) u.symbols equates ∧
    u.symbols.Nodup ∧ ¬ u.Clash := by
  have hload : apartSources.sources.loaded? "a" = some apartUnit := by decide +kernel
  have hresolve : decide (apartUnit.resolve = .done apartResolved) = true := by cbv
  have hcompile := compile_of_load hload (of_decide_eq_true hresolve)
  have hsymbols : apartResolved.symbols = apartSymbols := by decide +kernel
  have hnodup : apartResolved.symbols.Nodup := by
    rw [hsymbols]
    decide
  obtain ⟨equates, htext, hdefine, hiff⟩ := compile_symbols_distinct_iff hcompile
  exact ⟨_, equates, hcompile, hsymbols, htext, hdefine, hnodup, hiff.mp hnodup⟩

/-- The field `b_c` of the first struct and the field `c` of the second have the same joined name,
and different offsets. -/
def clashingSources : MemorySources :=
  ⟨[("a", "struct A\x7bu8 b_c;\x7dstruct A_b\x7bu16 a;u8 c;\x7d")]⟩

def clashingUnit : CompilationUnit :=
  let here : Location := ⟨"a", 1⟩
  { CompilationUnit.empty "a" with
    structs := [⟨here, "A", [⟨here, "b_c", .primitive .u8, none⟩], false, none⟩,
      ⟨here, "A_b", [⟨here, "a", .primitive .u16, none⟩, ⟨here, "c", .primitive .u8, none⟩], false,
        none⟩] }

def clashingResolved : CompilationUnit :=
  let here : Location := ⟨"a", 1⟩
  { clashingUnit with
    structs := [⟨here, "A", [⟨here, "b_c", .primitive .u8, some 0⟩], false, some ⟨1, 1⟩⟩,
      ⟨here, "A_b", [⟨here, "a", .primitive .u16, some 0⟩, ⟨here, "c", .primitive .u8, some 2⟩],
        false, some ⟨4, 2⟩⟩]
    resolved := true }

def clashingLines : List String :=
  ["; This file was automatically generated. Do not edit it.", "", "A_b_c\t\tEQU 0",
    "A_SIZEOF\t\tEQU 1", "A_ALIGNOF\t\tEQU 1", "A_b_a\t\tEQU 0", "A_b_c\t\tEQU 2",
    "A_b_SIZEOF\t\tEQU 4", "A_b_ALIGNOF\t\tEQU 2"]

theorem compile_symbol_defined_twice : ∃ u, compile clashingSources.sources "a" = .ok u ∧
    Format.asm68k.text u = .ok (unlines clashingLines) ∧ ¬ u.symbols.Nodup := by
  have hload : clashingSources.sources.loaded? "a" = some clashingUnit := by decide +kernel
  have hresolve : decide (clashingUnit.resolve = .done clashingResolved) = true := by cbv
  have htext : (Format.asm68k.text clashingResolved).toOption = some (unlines clashingLines) := by
    decide +kernel
  have hnodup : ¬ clashingResolved.symbols.Nodup := by decide +kernel
  exact ⟨_, compile_of_load hload (of_decide_eq_true hresolve),
    except_to_option_eq_some.mp htext, hnodup⟩

end DataLayout
