import DataLayout.Proofs.Safety

/-!
# All formats show the numbers of the report

The report of a unit is data, the other two formats are text. Their lines about constants and
structs can be written down from the report alone: it has the same constants and structs in the
same order, and its numbers are the ones in the equates and in the assertions.
-/

set_option autoImplicit false

namespace DataLayout

section Passes

variable {ε α β γ : Type} {f : α → Except ε β} {g : α → Except ε γ} {as : List α} {bs : List β}

theorem map_m_eq_ok :
    as.mapM f = .ok bs ↔ List.Forall₂ (fun a b => f a = .ok b) as bs := by
  induction as generalizing bs with
  | nil => cases bs <;> simp [pure, Except.pure]
  | cons a as ih =>
    rw [List.mapM_cons, except_bind_eq_ok, List.forall₂_cons_left_iff]
    refine exists_congr fun b => ?_
    rw [except_bind_eq_ok]
    constructor
    · rintro ⟨hb, bs', hbs, ⟨⟩⟩
      exact ⟨bs', hb, ih.mp hbs, rfl⟩
    · rintro ⟨bs', hb, hbs, rfl⟩
      exact ⟨hb, bs', ih.mpr hbs, rfl⟩

theorem map_m_eq_map {k : β → γ} (h : ∀ a b, f a = .ok b → g a = .ok (k b))
    (hf : as.mapM f = .ok bs) : as.mapM g = .ok (bs.map k) :=
  map_m_eq_ok.mpr (List.forall₂_map_right_iff.mpr ((map_m_eq_ok.mp hf).imp h))

theorem map_m_forall₂ {cs : List γ} {R : β → γ → Prop}
    (h : ∀ a b c, f a = .ok b → g a = .ok c → R b c) (hf : as.mapM f = .ok bs)
    (hg : as.mapM g = .ok cs) : List.Forall₂ R bs cs := by
  have hbs := map_m_eq_ok.mp hf
  have hcs := map_m_eq_ok.mp hg
  clear hf hg
  induction hbs generalizing cs with
  | nil =>
    cases hcs
    exact .nil
  | cons hb hbs ih =>
    cases hcs with
    | cons hc hcs => exact .cons (h _ _ _ hb hc) (ih hcs)

end Passes

namespace StructReport

def equates (r : StructReport) : List String :=
  r.fields.map (fun f => r.name ++ "_" ++ f.name ++ "\t\tEQU " ++ toString f.offset) ++
    [r.name ++ "_SIZEOF" ++ "\t\tEQU " ++ toString r.size,
      r.name ++ "_ALIGNOF" ++ "\t\tEQU " ++ toString r.alignment]

def assertions (r : StructReport) : List String :=
  ("_Static_assert(sizeof(" ++ r.name ++ ") == " ++ toString r.size ++ ", \"size of struct "
    ++ r.name ++ " does not match assembly output\");") ::
  r.fields.map fun f =>
    "_Static_assert(__builtin_offsetof(" ++ r.name ++ ", " ++ f.name ++ ") == "
      ++ toString f.offset ++ ", \"offset of field " ++ r.name ++ "::" ++ f.name
      ++ " does not match assembly output\");"

/-- The definition of a struct in a header: a line for each field between the first and the last. -/
def Body (r : StructReport) (lines : List String) : Prop :=
  ∃ members, lines = ["struct " ++ r.name ++ " \x7b"] ++ members ++ ["\x7d;"] ∧
    List.Forall₂ (fun f line => ∃ before after,
      line = "    " ++ (before ++ " " ++ f.name ++ after) ++ ";") r.fields members

end StructReport

namespace Report

variable {u : CompilationUnit} {spelled : List (Option String)} {f : Field} {s : Struct}

theorem of_field_eq_ok {r : FieldReport} (h : ofField u spelled f = .ok r) :
    f.name = r.name ∧ f.placedOffset = .ok r.offset := by
  rw [ofField] at h
  obtain ⟨offset, ho, hrest⟩ := except_bind_eq_ok.mp h
  split at hrest
  · cases hrest
    exact ⟨rfl, ho⟩
  · cases hrest

theorem of_struct_eq_ok {r : StructReport} (h : ofStruct u spelled s = .ok r) :
    s.name = r.name ∧ s.placedExtent = .ok ⟨r.size, r.alignment⟩ ∧
      s.fields.mapM (ofField u spelled) = .ok r.fields := by
  rw [ofStruct] at h
  obtain ⟨extent, he, hrest⟩ := except_bind_eq_ok.mp h
  obtain ⟨fields, hf, hrest⟩ := except_bind_eq_ok.mp hrest
  cases hrest
  exact ⟨rfl, he, hf⟩

theorem of_unit_eq_ok {r : Report} (h : ofUnit u = .ok r) :
    u.checkResolved = .ok () ∧ u.localValues = .ok r.constants ∧
      u.localStructs.mapM (ofStruct u (FunctionType.spellAll u.functions [])) = .ok r.structs := by
  rw [ofUnit] at h
  obtain ⟨⟨⟩, hc, hrest⟩ := except_bind_eq_ok.mp h
  obtain ⟨constants, hv, hrest⟩ := except_bind_eq_ok.mp hrest
  obtain ⟨structs, hs, hrest⟩ := except_bind_eq_ok.mp hrest
  cases hrest
  exact ⟨hc, hv, hs⟩

variable {r : StructReport}

theorem struct_lines_of_report (h : ofStruct u spelled s = .ok r) :
    Assembly.structLines s = .ok r.equates := by
  obtain ⟨hname, hextent, hfields⟩ := of_struct_eq_ok h
  have hlines : s.fields.mapM (Assembly.fieldLine s) = .ok (r.fields.map fun f =>
      r.name ++ "_" ++ f.name ++ "\t\tEQU " ++ toString f.offset) := by
    refine map_m_eq_map (fun f fr hf => ?_) hfields
    obtain ⟨hfield, hoffset⟩ := of_field_eq_ok hf
    rw [Assembly.fieldLine, hoffset, hname, hfield]
    rfl
  rw [Assembly.structLines, hlines, hextent, hname]
  rfl

theorem assertion_lines_of_report (h : ofStruct u spelled s = .ok r) :
    Header.assertionLines s = .ok r.assertions := by
  obtain ⟨hname, hextent, hfields⟩ := of_struct_eq_ok h
  have hlines : (s.fields.mapM fun f => f.placedOffset.map (Header.offsetAssertion s f)) =
      .ok (r.fields.map fun f => "_Static_assert(__builtin_offsetof(" ++ r.name ++ ", " ++ f.name
        ++ ") == " ++ toString f.offset ++ ", \"offset of field " ++ r.name ++ "::" ++ f.name
        ++ " does not match assembly output\");") := by
    refine map_m_eq_map (fun f fr hf => ?_) hfields
    obtain ⟨hfield, hoffset⟩ := of_field_eq_ok hf
    rw [hoffset, ← hname, ← hfield]
    rfl
  rw [Header.assertionLines, hextent, hlines, StructReport.assertions, ← hname]
  rfl

theorem body_of_report {names : List (Option String)} {lines : List String}
    (h : ofStruct u spelled s = .ok r) (hl : Header.structLines names s = .ok lines) :
    r.Body lines := by
  obtain ⟨hname, _, hfields⟩ := of_struct_eq_ok h
  rw [Header.structLines] at hl
  obtain ⟨members, hm, hrest⟩ := except_bind_eq_ok.mp hl
  cases hrest
  refine ⟨members, by rw [hname], map_m_forall₂ (fun f fr line hf hline => ?_) hfields hm⟩
  obtain ⟨declaration, hd, rfl⟩ := except_map_eq_ok.mp hline
  obtain ⟨base, _, rfl⟩ := except_map_eq_ok.mp hd
  rw [(of_field_eq_ok hf).1]
  exact ⟨base, Header.after f.ty, rfl⟩

end Report

def unlines (lines : List String) : String := String.join (lines.map (· ++ "\n"))

theorem Format.text_of_lines {format : Format} {u : CompilationUnit} {lines : List String}
    (h : format.pieces u = .ok (lines.map Piece.line)) : format.text u = .ok (unlines lines) := by
  rw [Format.text, h, unlines]
  exact congrArg (fun texts => Except.ok (String.join texts)) List.map_map

namespace Report

def assembly (includes : List String) (r : Report) : List String :=
  ["; This file was automatically generated. Do not edit it."]
    ++ includes.map (fun path => "\t\tinclude\t\"" ++ includeStem path ++ ".i\"") ++ [""]
    ++ r.constants.map (fun c => c.1 ++ "\t\tEQU " ++ toString c.2.toInt)
    ++ r.structs.flatMap StructReport.equates

variable {u : CompilationUnit} {r : Report}

theorem assembly_lines (h : ofUnit u = .ok r) :
    Assembly.lines u = .ok (r.assembly u.includes) := by
  obtain ⟨hc, hv, hs⟩ := of_unit_eq_ok h
  have hstructs : u.localStructs.mapM Assembly.structLines =
      .ok (r.structs.map StructReport.equates) :=
    map_m_eq_map (fun _ _ => struct_lines_of_report) hs
  rw [Assembly.lines, hc, hv, hstructs]
  rfl

theorem header_lines (h : ofUnit u = .ok r) {lines : List String}
    (hl : Header.lines u = .ok lines) :
    ∃ front bodies, List.Forall₂ StructReport.Body r.structs bodies ∧
      lines = front ++ bodies.flatten ++ r.structs.flatMap StructReport.assertions := by
  obtain ⟨hc, _, hs⟩ := of_unit_eq_ok h
  have hassertions : u.localStructs.mapM Header.assertionLines =
      .ok (r.structs.map StructReport.assertions) :=
    map_m_eq_map (fun _ _ => assertion_lines_of_report) hs
  rw [Header.lines, hc, hassertions] at hl
  obtain ⟨⟨⟩, _, hrest⟩ := except_bind_eq_ok.mp hl
  obtain ⟨typedefs, _, hrest⟩ := except_bind_eq_ok.mp hrest
  obtain ⟨bodies, hb, hrest⟩ := except_bind_eq_ok.mp hrest
  cases hrest
  exact ⟨_, bodies, map_m_forall₂ (fun _ _ _ => body_of_report) hs hb, rfl⟩

end Report

/-- The three formats agree on every number. A compiled unit has a report, its assembler output is
made of the constants and structs of that report, and its header ends, behind the bodies of these
structs, with the assertions that the report's numbers make. -/
theorem compile_formats_agree {sources : Sources} {path : String} {u : CompilationUnit}
    (h : compile sources path = .ok u) :
    ∃ r, Report.ofUnit u = .ok r ∧
      Format.layout.text u = .ok (r.json.pretty 0 ++ "\n") ∧
      Format.asm68k.text u = .ok (unlines (r.assembly u.includes)) ∧
      ∃ front bodies, List.Forall₂ StructReport.Body r.structs bodies ∧
        Format.cheader.text u = .ok (unlines
          (front ++ bodies.flatten ++ r.structs.flatMap StructReport.assertions)) := by
  obtain ⟨source, w, _, hload, hdone⟩ := compile_eq_ok.mp h
  obtain ⟨extent, hres⟩ := CompilationUnit.resolve_spec hdone
  have hnumbered := (CompilationUnit.enriches_of_resolve hdone).numbered
    (Loader.load_to_numbered hload)
  have hcomplete := hres.complete hnumbered
  have hresolved := CompilationUnit.resolved_of_resolve hdone
  obtain ⟨r, hr⟩ := hcomplete.exists_report hresolved
  obtain ⟨lines, hlines⟩ := hcomplete.exists_header hresolved
  obtain ⟨front, bodies, hbodies, rfl⟩ := Report.header_lines hr hlines
  refine ⟨r, hr, ?_, ?_, front, bodies, hbodies, ?_⟩
  · rw [Format.text, Format.pieces, hr]
    exact congrArg Except.ok (by simp [Report.pieces, String.join])
  · apply Format.text_of_lines
    rw [Format.pieces, Report.assembly_lines hr]
    rfl
  · apply Format.text_of_lines
    rw [Format.pieces, hlines]
    rfl

def splitResolved : CompilationUnit :=
  { splitUnit with
    structs :=
      [⟨⟨"b", 1⟩, "B", [⟨⟨"b", 1⟩, "g", .pointer (.function 1), some 0⟩], true, some ⟨4, 2⟩⟩,
        ⟨⟨"a", 1⟩, "A", [⟨⟨"a", 1⟩, "f", .pointer (.function 0), some 0⟩], false, some ⟨4, 2⟩⟩,
        ⟨⟨"a", 1⟩, "C", [⟨⟨"a", 1⟩, "h", .pointer (.function 2), some 0⟩], false, some ⟨4, 2⟩⟩]
    functions :=
      [⟨⟨"a", 1⟩, .void, [⟨"b", .pointer (.struct ⟨⟨"a", 1⟩, "B", some 0⟩)⟩], false⟩,
        ⟨⟨"b", 1⟩, .primitive .u16, [], true⟩, ⟨⟨"a", 1⟩, .primitive .u8, [], false⟩]
    values := [(0, 2), (1, 2)]
    resolved := true }

/-- A struct and a constant come in between the two structs of a file. The report has those of the
file, and the other formats have the lines that it makes. -/
theorem compile_formats_agree_split : ∃ u r, compile splitSources.sources "a" = .ok u ∧
    u.structs.map Struct.name = ["B", "A", "C"] ∧ Report.ofUnit u = .ok r ∧
    r.constants = [("K", 2)] ∧ r.structs.map StructReport.name = ["A", "C"] ∧
    Format.layout.text u = .ok (r.json.pretty 0 ++ "\n") ∧
    Format.asm68k.text u = .ok (unlines (r.assembly ["b"])) ∧
    ∃ front bodies, List.Forall₂ StructReport.Body r.structs bodies ∧
      Format.cheader.text u = .ok (unlines
        (front ++ bodies.flatten ++ r.structs.flatMap StructReport.assertions)) := by
  have hresolve : decide (splitUnit.resolve = .done splitResolved) = true := by cbv
  have hcompile := compile_of_load split_sources_load (of_decide_eq_true hresolve)
  have hrun : ((Report.ofUnit splitResolved).toOption.any fun r =>
      r.constants == [("K", 2)] && r.structs.map StructReport.name == ["A", "C"]) = true := by
    decide +kernel
  obtain ⟨r, hr, hlayout, hasm, hheader⟩ := compile_formats_agree hcompile
  rw [hr] at hrun
  have hchecks : (r.constants == [("K", 2)] && r.structs.map StructReport.name == ["A", "C"]) =
      true := hrun
  rw [Bool.and_eq_true, beq_iff_eq, beq_iff_eq] at hchecks
  exact ⟨_, r, hcompile, rfl, hr, hchecks.1, hchecks.2, hlayout, hasm, hheader⟩

end DataLayout
