import DataLayout.Proofs.OwnPart

/-!
# Output shows what the file declares

Output is made from the part of a unit that its file declares, with the values of the constants and
the sizes of the fields in it. Names of function types are their numbers in this part, and a
function type is spelled in terms of others of this part.
-/

set_option autoImplicit false

namespace DataLayout

theorem map_m_eq_of_map_eq {m : Type → Type} [Monad m] [LawfulMonad m] {α α' β γ : Type}
    {f : α → m β} {f' : α' → m β} {key : α → γ} {key' : α' → γ} {as : List α} {as' : List α'}
    (h : as.map key = as'.map key')
    (hf : ∀ a ∈ as, ∀ a' ∈ as', key a = key' a' → f a = f' a') : as.mapM f = as'.mapM f' := by
  induction as generalizing as' with
  | nil => rw [List.map_eq_nil_iff.mp h.symm, List.mapM_nil, List.mapM_nil]
  | cons a as ih =>
    cases as' with
    | nil => cases h
    | cons a' as' =>
      obtain ⟨hkey, hrest⟩ := List.cons_eq_cons.mp h
      have htail : ∀ b ∈ as, ∀ b' ∈ as', key b = key' b' → f b = f' b' := fun b hb b' hb' =>
        hf b (List.mem_cons_of_mem a hb) b' (List.mem_cons_of_mem a' hb')
      rw [List.mapM_cons, List.mapM_cons, hf a List.mem_cons_self a' List.mem_cons_self hkey,
        ih hrest htail]

section Rank

variable {fns : List FunctionType} {id : Nat} {f : FunctionType}

theorem get_elem?_own_functions (hf : fns[id]? = some f) (hown : f.included = false) :
    (ownFunctions fns)[ownRank fns id]? = some (f.mapTy (Ty.redraft (ownRank fns))) := by
  have hfilter : (fns.filter (!·.included))[ownRank fns id]? = some f := by
    induction fns generalizing id with
    | nil => cases hf
    | cons g fns ih =>
      cases id with
      | zero =>
        cases hf
        simp [ownRank, hown]
      | succ id =>
        have hrest := ih hf
        by_cases hg : g.included
        · simpa [ownRank, hg] using hrest
        · simpa [ownRank, hg] using hrest
  rw [ownFunctions, List.getElem?_map, hfilter, Option.map_some]

theorem own_functions_own : ∀ f ∈ ownFunctions fns, f.included = false := by
  intro f hf
  obtain ⟨g, hg, rfl⟩ := List.mem_map.mp hf
  simpa [FunctionType.mapTy] using (List.mem_filter.mp hg).2

theorem own_rank_own_rank (hf : fns[id]? = some f) (hown : f.included = false) :
    ownRank (ownFunctions fns) (ownRank fns id) = ownRank fns id :=
  own_rank_of_own own_functions_own
    (List.getElem?_eq_some_iff.mp (get_elem?_own_functions hf hown)).1.le

theorem own_functions_snoc (hf : ∀ t ∈ f.types, t.MentionsIn fns f.included)
    (h : WellNumbered fns) (hown : f.included = false) :
    ownFunctions (fns ++ [f]) = ownFunctions fns ++ [f.mapTy (Ty.redraft (ownRank fns))] := by
  have hlast : [f].filter (!·.included) = [f] := by simp [hown]
  rw [ownFunctions, List.filter_append, hlast, List.map_append, List.map_singleton,
    h.own_functions_eq, FunctionType.map_ty_congr fun t ht => (hf t ht).redraft_append [f]]

end Rank

namespace Header

variable {names names' : List (Option String)} {number : Nat → Nat}

theorem before_redraft {t : Ty}
    (h : ∀ id, t.function? = some id → names[id]? = names'[number id]?) :
    before names' (t.redraft number) = before names t := by
  induction t with
  | primitive | void | struct => rfl
  | pointer t ih => rw [Ty.redraft, before, before, ih h]
  | array t n ih => exact ih h
  | function id => rw [Ty.redraft, before, before, h id rfl]

theorem after_redraft (number : Nat → Nat) (t : Ty) : after (t.redraft number) = after t := by
  induction t with
  | array t n ih => rw [Ty.redraft, after, after, ih]
  | primitive | void | struct | pointer | function => rfl

theorem declare_redraft {t : Ty}
    (h : ∀ id, t.function? = some id → names[id]? = names'[number id]?) (name : String) :
    declare names' (t.redraft number) name = declare names t name := by
  rw [declare, declare, before_redraft h, after_redraft]

theorem typedef_line_redraft {f : FunctionType}
    (h : ∀ t ∈ f.types, ∀ id, t.function? = some id → names[id]? = names'[number id]?)
    (name : String) :
    typedefLine names' (f.mapTy (Ty.redraft number)) name = typedefLine names f name := by
  obtain ⟨hr, hp⟩ := List.forall_mem_cons.mp h
  have hparams : ((f.params.map (·.mapTy (Ty.redraft number))).mapM fun p =>
      declare names' p.ty p.name) = f.params.mapM fun p => declare names p.ty p.name := by
    refine map_m_eq_of_map_eq (List.map_id _) fun p' _ p hmem hkey => ?_
    rw [show p' = p.mapTy (Ty.redraft number) from hkey]
    exact declare_redraft (hp p.ty (List.mem_map_of_mem hmem)) p.name
  rw [typedefLine, typedefLine]
  simp only [FunctionType.mapTy]
  rw [before_redraft hr, hparams]

theorem typedef_lines_own {fns : List FunctionType} {g : FunctionType → FunctionType}
    (hflag : ∀ f, (g f).included = f.included)
    (h : ∀ f ∈ fns, f.included = false → ∀ name,
      typedefLine names' (g f) name = typedefLine names f name) (stem : String) (next : Nat) :
    typedefLines names' (((fns.filter (!·.included)).map g).zip
        (aliases stem ((fns.filter (!·.included)).map g) next)) =
      typedefLines names (fns.zip (aliases stem fns next)) := by
  induction fns generalizing next with
  | nil => rfl
  | cons f fns ih =>
    obtain ⟨hf, hrest⟩ := List.forall_mem_cons.mp h
    by_cases hi : f.included
    · simpa [aliases, hi, typedefLines] using ih hrest next
    · have hown : f.included = false := by simpa using hi
      have hline := hf hown (stem ++ toString next)
      simp only [List.filter_cons, hown, Bool.not_false, if_true, List.map_cons, aliases, hflag,
        Bool.false_eq_true, if_false, List.zip_cons_cons, typedefLines, hline, ih hrest]

theorem struct_lines_redraft {s : Struct}
    (h : ∀ f ∈ s.fields, ∀ id, f.ty.function? = some id → names[id]? = names'[number id]?) :
    structLines names' (s.mapTy (Ty.redraft number)) = structLines names s := by
  have hfields : ((s.mapTy (Ty.redraft number)).fields.mapM fun f =>
      (declare names' f.ty f.name).map fun d => "    " ++ d ++ ";") =
      s.fields.mapM fun f => (declare names f.ty f.name).map fun d => "    " ++ d ++ ";" := by
    refine map_m_eq_of_map_eq (List.map_id _) fun f' _ f hmem hkey => ?_
    rw [show f' = f.mapTy (Ty.redraft number) from hkey]
    exact congrArg (Except.map _) (declare_redraft (h f hmem) f.name)
  rw [structLines, structLines, hfields]
  rfl

end Header

theorem CompilationUnit.map_m_own {β : Type} {g : Struct → Except EmitError β}
    (hg : ∀ (h : Ty → Ty) s, g (s.mapTy h) = g s) (u : CompilationUnit) :
    u.own.structs.mapM g = u.localStructs.mapM g := by
  refine map_m_eq_of_map_eq (List.map_id _) fun s' _ s _ hkey => ?_
  rw [show s' = s.mapTy u.redraft from hkey, hg]

theorem Assembly.struct_lines_map_ty (h : Ty → Ty) (s : Struct) :
    structLines (s.mapTy h) = structLines s := by
  have hfields : (s.mapTy h).fields.mapM (fieldLine (s.mapTy h)) = s.fields.mapM (fieldLine s) := by
    refine map_m_eq_of_map_eq (List.map_id _) fun f' _ f _ hkey => ?_
    rw [show f' = f.mapTy h from hkey]
    rfl
  rw [structLines, structLines, hfields]
  rfl

theorem Header.assertion_lines_map_ty (h : Ty → Ty) (s : Struct) :
    assertionLines (s.mapTy h) = assertionLines s := by
  have hfields : ((s.mapTy h).fields.mapM fun f =>
      f.placedOffset.map (offsetAssertion (s.mapTy h) f)) =
      s.fields.mapM fun f => f.placedOffset.map (offsetAssertion s f) := by
    refine map_m_eq_of_map_eq (List.map_id _) fun f' _ f _ hkey => ?_
    rw [show f' = f.mapTy h from hkey]
    rfl
  rw [assertionLines, assertionLines, hfields]
  rfl

namespace Ty

variable {function function' : Nat → Option String} {number : Nat → Nat}

theorem spell_redraft {t : Ty}
    (h : ∀ id, t.function? = some id → function id = function' (number id)) :
    (t.redraft number).spell function' = t.spell function := by
  induction t with
  | primitive | void | struct => rfl
  | pointer t ih => rw [redraft, spell, spell, ih h]
  | array t n ih => rw [redraft, spell, spell, ih h]
  | function id => exact (h id rfl).symm

end Ty

namespace FunctionType

variable {function function' : Nat → Option String} {number : Nat → Nat}

theorem spell_redraft {f : FunctionType}
    (h : ∀ t ∈ f.types, ∀ id, t.function? = some id → function id = function' (number id)) :
    (f.mapTy (Ty.redraft number)).spell function' = f.spell function := by
  obtain ⟨hr, hp⟩ := List.forall_mem_cons.mp h
  have hparams : ((f.params.map (·.mapTy (Ty.redraft number))).mapM fun p =>
      (p.ty.spell function').map fun s => s ++ " " ++ p.name) =
      f.params.mapM fun p => (p.ty.spell function).map fun s => s ++ " " ++ p.name := by
    refine map_m_eq_of_map_eq (List.map_id _) fun p' _ p hmem hkey => ?_
    rw [show p' = p.mapTy (Ty.redraft number) from hkey]
    exact congrArg (Option.map _) (Ty.spell_redraft (hp p.ty (List.mem_map_of_mem hmem)))
  rw [spell, spell]
  simp only [mapTy]
  rw [Ty.spell_redraft hr, hparams]

end FunctionType

theorem WellNumbered.spelling_own {fns : List FunctionType} (h : WellNumbered fns) {id : Nat}
    {f : FunctionType} (hf : fns[id]? = some f) (hown : f.included = false) :
    FunctionType.spelling fns id =
      FunctionType.spelling (ownFunctions fns) (ownRank fns id) := by
  induction h generalizing id f with
  | nil => cases hf
  | @snoc fns g hfns hg ih =>
    have hlength := (List.getElem?_eq_some_iff.mp hf).1
    rw [List.length_append, List.length_singleton] at hlength
    by_cases hlt : id < fns.length
    · -- an earlier function type is spelled as before, also among those of the file
      rw [List.getElem?_append_left hlt] at hf
      rw [FunctionType.spelling_snoc_of_lt hlt, ih hf hown, own_rank_append hlt.le]
      by_cases hi : g.included = true
      · rw [own_functions_append_included hfns (by simpa using hi)]
      · rw [own_functions_snoc hg hfns (by simpa using hi), FunctionType.spelling_snoc_of_lt
          (List.getElem?_eq_some_iff.mp (get_elem?_own_functions hf hown)).1]
    · obtain rfl : id = fns.length := by omega
      rw [List.getElem?_concat_length] at hf
      cases hf
      have hrank : ownRank (fns ++ [g]) fns.length = (ownFunctions fns).length := by
        rw [own_rank_append le_rfl, length_own_functions, ownRank, List.take_length]
      rw [hrank, own_functions_snoc hg hfns hown, FunctionType.spelling_snoc_last,
        FunctionType.spelling_snoc_last]
      refine (FunctionType.spell_redraft fun t ht id hid => ?_).symm
      obtain ⟨f', hf', hflag⟩ := hg t ht id hid
      exact ih hf' (hflag.trans hown)

namespace CompilationUnit

variable {u u₁ u₂ : CompilationUnit}

theorem aliases_own {t : Ty} (h : t.MentionsIn u.functions false) {id : Nat}
    (hid : t.function? = some id) :
    u.aliases[id]? = u.own.aliases[ownRank u.functions id]? := by
  obtain ⟨f, hf, hown⟩ := h id hid
  have hown' := get_elem?_own_functions hf hown
  have hflag := own_functions_own _ (List.mem_of_getElem? hown')
  rw [Header.aliases_get_elem?, Header.aliases_get_elem?, hf, Option.map_some, hown]
  simp only [own]
  rw [hown', Option.map_some, hflag, own_rank_own_rank hf hown]

theorem Numbered.local_fields (h : u.Numbered) {s : Struct} (hs : s ∈ u.localStructs) :
    ∀ f ∈ s.fields, f.ty.MentionsIn u.functions false := by
  obtain ⟨hmem, hown⟩ := mem_local_structs.mp hs
  exact fun f hf => hown ▸ h.fields s hmem f hf

theorem header_own (h : u.Numbered) : Header.lines u.own = Header.lines u := by
  have htypedefs : Header.typedefLines u.own.aliases (u.own.functions.zip u.own.aliases) =
      Header.typedefLines u.aliases (u.functions.zip u.aliases) := by
    refine Header.typedef_lines_own (g := (·.mapTy u.redraft)) (fun _ => rfl)
      (fun f hf hown name => ?_) _ 0
    refine Header.typedef_line_redraft (fun t ht id hid => ?_) name
    exact aliases_own (hown ▸ h.functions.mentions f hf t ht) hid
  have hstructs : u.own.structs.mapM (Header.structLines u.own.aliases) =
      u.localStructs.mapM (Header.structLines u.aliases) := by
    refine map_m_eq_of_map_eq (List.map_id _) fun s' _ s hs hkey => ?_
    rw [show s' = s.mapTy u.redraft from hkey]
    exact Header.struct_lines_redraft fun f hf id hid =>
      aliases_own (h.local_fields hs f hf) hid
  have hassertions := u.map_m_own Header.assertion_lines_map_ty
  have hlocal : u.own.localStructs = u.own.structs := by
    refine List.filter_eq_self.mpr fun s' hs' => ?_
    obtain ⟨s, hs, rfl⟩ := List.mem_map.mp hs'
    simpa [Struct.mapTy] using (mem_local_structs.mp hs).2
  have hnames : u.own.structs.map (fun s => "typedef struct " ++ s.name ++ " " ++ s.name ++ ";") =
      u.localStructs.map fun s => "typedef struct " ++ s.name ++ " " ++ s.name ++ ";" :=
    List.map_map
  rw [Header.lines, Header.lines]
  dsimp only
  rw [hlocal, htypedefs, hstructs, hassertions, hnames]
  rfl

structure SameOutput (u₁ u₂ : CompilationUnit) : Prop where
  own : u₁.own = u₂.own
  values : u₁.localValues = u₂.localValues
  sizes : ∀ s₁ ∈ u₁.localStructs, ∀ s₂ ∈ u₂.localStructs, ∀ f₁ ∈ s₁.fields, ∀ f₂ ∈ s₂.fields,
    u₁.redraft f₁.ty = u₂.redraft f₂.ty → f₁.ty.size? u₁.extent? = f₂.ty.size? u₂.extent?

namespace SameOutput

theorem frame (h : SameOutput u₁ u₂) : u₁.filename = u₂.filename ∧ u₁.includes = u₂.includes ∧
    u₁.checkResolved = u₂.checkResolved := by
  have hfile := congrArg CompilationUnit.filename h.own
  have hincludes := congrArg CompilationUnit.includes h.own
  have hresolved := congrArg CompilationUnit.checkResolved h.own
  exact ⟨hfile, hincludes, hresolved⟩

theorem assembly (h : SameOutput u₁ u₂) : Assembly.lines u₁ = Assembly.lines u₂ := by
  have hstructs : u₁.localStructs.mapM Assembly.structLines =
      u₂.localStructs.mapM Assembly.structLines := by
    rw [← u₁.map_m_own Assembly.struct_lines_map_ty,
      ← u₂.map_m_own Assembly.struct_lines_map_ty, h.own]
  obtain ⟨_, hincludes, hresolved⟩ := h.frame
  rw [Assembly.lines, Assembly.lines, hresolved, h.values, hstructs, hincludes]

theorem spell (h : SameOutput u₁ u₂) (h₁ : u₁.Numbered) (h₂ : u₂.Numbered) {t₁ t₂ : Ty}
    (hm₁ : t₁.MentionsIn u₁.functions false) (hm₂ : t₂.MentionsIn u₂.functions false)
    (ht : u₁.redraft t₁ = u₂.redraft t₂) :
    t₁.spell (FunctionType.spelling u₁.functions) =
      t₂.spell (FunctionType.spelling u₂.functions) := by
  have hown : ∀ {u : CompilationUnit} {t : Ty}, u.Numbered → t.MentionsIn u.functions false →
      (u.redraft t).spell (FunctionType.spelling u.own.functions) =
        t.spell (FunctionType.spelling u.functions) := by
    intro u t hu hm
    refine Ty.spell_redraft fun id hid => ?_
    obtain ⟨f, hf, hflag⟩ := hm id hid
    exact hu.functions.spelling_own hf hflag
  rw [← hown h₁ hm₁, ← hown h₂ hm₂, ht, h.own]

theorem report (h : SameOutput u₁ u₂) (h₁ : u₁.Numbered) (h₂ : u₂.Numbered) :
    Report.ofUnit u₁ = Report.ofUnit u₂ := by
  have hstructs :
      u₁.localStructs.mapM (Report.ofStruct u₁ (FunctionType.spellAll u₁.functions [])) =
        u₂.localStructs.mapM (Report.ofStruct u₂ (FunctionType.spellAll u₂.functions [])) := by
    refine map_m_eq_of_map_eq (congrArg CompilationUnit.structs h.own) fun s₁ hs₁ s₂ hs₂ hs => ?_
    have hfields : s₁.fields.mapM (Report.ofField u₁ (FunctionType.spellAll u₁.functions [])) =
        s₂.fields.mapM (Report.ofField u₂ (FunctionType.spellAll u₂.functions [])) := by
      refine map_m_eq_of_map_eq (congrArg Struct.fields hs) fun f₁ hf₁ f₂ hf₂ hf => ?_
      obtain ⟨_, hname, hty, hoffset⟩ := Field.mk.inj hf
      have hsize := h.sizes s₁ hs₁ s₂ hs₂ f₁ hf₁ f₂ hf₂ hty
      have hspell : (f₁.ty.spell fun id => ((FunctionType.spellAll u₁.functions [])[id]?).join) =
          f₂.ty.spell fun id => ((FunctionType.spellAll u₂.functions [])[id]?).join :=
        h.spell h₁ h₂ (h₁.local_fields hs₁ f₁ hf₁) (h₂.local_fields hs₂ f₂ hf₂) hty
      simp only [Report.ofField, Field.placedOffset, hname, hoffset, hsize, hspell]
    obtain ⟨_, hname, _, _, hextent⟩ := Struct.mk.inj hs
    simp only [Report.ofStruct, Struct.placedExtent, hfields, hname, hextent]
  obtain ⟨hfile, _, hresolved⟩ := h.frame
  rw [Report.ofUnit, Report.ofUnit, hresolved, h.values, hstructs, hfile]

theorem pieces (h : SameOutput u₁ u₂) (h₁ : u₁.Numbered) (h₂ : u₂.Numbered) (format : Format) :
    format.pieces u₁ = format.pieces u₂ := by
  cases format with
  | asm68k => rw [Format.pieces, Format.pieces, h.assembly]
  | cheader => rw [Format.pieces, Format.pieces, ← header_own h₁, ← header_own h₂, h.own]
  | layout => rw [Format.pieces, Format.pieces, h.report h₁ h₂]

end SameOutput

end CompilationUnit

end DataLayout
