import DataLayout.Proofs.Numbering
import DataLayout.Proofs.Precedence
import DataLayout.Proofs.WrittenTypes
import DataLayout.Source

/-!
# Files as they are written

The statements that are read off a file are those that are written in it: a file is read to its
end exactly if its tokens derive from the grammar, and then each statement declares what the
definition at its place says, with the types of its fields spelled out.
-/

set_option autoImplicit false

namespace DataLayout
open Grammar

def FieldGroup.members (g : FieldGroup) : List (Located String × WrittenType) :=
  g.names.map (·, g.type)

namespace Definition

/-- The function types in a definition, in the order in which they are complete. -/
def literals : Definition → List WrittenType
  | .struct _ groups => groups.flatMap (·.type.literals)
  | .constant _ _ | .inclusion _ => []

def path? : Definition → Option String
  | .inclusion path => some path.value
  | .struct _ _ | .constant _ _ => none

end Definition

/-- The field has the name and the location that are written, and its type stands for the one that
is written. -/
structure Field.Means (fns : List FunctionType) (f : Field)
    (member : Located String × WrittenType) : Prop where
  name : f.name = member.1.value
  location : f.location = member.1.location
  type : f.ty.Means fns member.2

theorem Field.Means.of_longer {fns fns' : List FunctionType} (hp : fns <+: fns') {f : Field}
    {member : Located String × WrittenType} (h : f.Means fns member) : f.Means fns' member :=
  ⟨h.name, h.location, h.type.of_longer hp⟩

inductive Statement.States : Statement → Definition → Prop
  | struct {name : Located String} {groups : List FieldGroup} {fields : List Field}
      {fns : List FunctionType}
      (hf : List.Forall₂ (Field.Means fns) fields (groups.flatMap FieldGroup.members))
      (hl : FunctionType.Adds [] fns (groups.flatMap (·.type.literals))) :
      States (.struct ⟨name.location, name.value, fields, false, none⟩ fns) (.struct name groups)
  | constant {name : Located String} {ts : List Token} {e : Expr} (he : Expr.Spelled 1 ts e) :
      States (.constant ⟨name.location, name.value, e, false⟩) (.constant name ts)
  | inclusion {path : Located String} :
      States (.inclusion path.location path.value) (.inclusion path)

def Ending.AtStatement (ending : Ending) (ts : List Token) : Prop :=
  (ts = [] → ending.look = .ok ()) ∧ ∀ t rest, ts = t :: rest → ∃ k, t.value = .keyword k

namespace Ending

variable {ending : Ending} {ts rest : List Token}

theorem AtStatement.stops (h : ending.AtStatement ts) : Expr.Stops 1 ts := by
  rintro ⟨loc, s⟩ rest op hts hop
  obtain ⟨k, hk⟩ := h.2 _ rest hts
  cases hk
  cases hop

theorem AtStatement.lacks_semicolon (h : ending.AtStatement ts) :
    ending.Lacks (.mark .semicolon) ts := by
  refine ⟨h.1, ?_⟩
  rintro ⟨loc, s⟩ rest hts hkind
  obtain ⟨k, hk⟩ := h.2 _ rest hts
  cases hk
  cases hkind

theorem skip_of_terminator (ht : Terminator ts) (h : ending.AtStatement rest) :
    (ending.skip (.mark .semicolon) (ts ++ rest)).Gives () rest := by
  cases ht with
  | none => exact skip_gives.mpr (.inr ⟨rfl, h.lacks_semicolon⟩)
  | semicolon => exact skip_gives.mpr (.inl ⟨_, rfl, rfl⟩)

theorem stops_of_terminator (ht : Terminator ts) (h : ending.AtStatement rest) :
    Expr.Stops 1 (ts ++ rest) ∧ (ts ++ rest = [] → ending.look = .ok ()) := by
  cases ht with
  | none => exact ⟨h.stops, h.1⟩
  | semicolon => exact ⟨Expr.stops_mark rfl, by simp⟩

theorem terminator_of_skip (h : (ending.skip (.mark .semicolon) ts).Gives () rest) :
    ∃ pre, ts = pre ++ rest ∧ Terminator pre := by
  rcases skip_gives.mp h with ⟨t, rfl, ht⟩ | ⟨rfl, _⟩
  · obtain ⟨loc, rfl⟩ := Token.kind_mark.mp ht
    exact ⟨_, rfl, .semicolon⟩
  · exact ⟨[], rfl, .none⟩

end Ending

namespace Statement

variable {ending : Ending} {ts rest : List Token} {s : Statement}

theorem more_names_of_read {names : List (Located String)}
    (h : (readMoreNames ending ts).Gives names rest) :
    ∃ pre loc, ts = pre ++ ⟨loc, .mark .semicolon⟩ :: rest ∧ MoreNames pre names := by
  fun_induction readMoreNames ending ts generalizing names rest with
  | case1 | case2 | case4 => simp at h
  | case3 loc ts name r₁ h₁ hn _ names' r₂ h₂ hm ih =>
    obtain ⟨rfl, rfl⟩ := Reading.gives_ok.mp h
    obtain ⟨pre, loc', rfl, hpre⟩ := ih ⟨h₂, hm⟩
    rw [Ending.expect_name_gives.mp ⟨h₁, hn⟩]
    exact ⟨_, loc', rfl, .cons hpre⟩
  | case5 ts _ t r₁ h₁ ht =>
    obtain ⟨rfl, rfl⟩ := Reading.gives_ok.mp h
    obtain ⟨loc, rfl, rfl⟩ := Ending.expect_mark_gives.mp ⟨h₁, ht⟩
    exact ⟨[], loc, rfl, .nil⟩

theorem read_more_names_of_more_names {names : List (Located String)} (h : MoreNames ts names)
    (loc : Location) :
    (readMoreNames ending (ts ++ ⟨loc, .mark .semicolon⟩ :: rest)).Gives names rest := by
  induction h with
  | nil =>
    rw [List.nil_append, readMoreNames]
    · simp
    · simp
  | cons _ ih =>
    obtain ⟨h₁, ih⟩ := ih
    rw [List.cons_append, List.cons_append, readMoreNames, Ending.expect_name_cons]
    simp only [ih]
    simp

theorem read_names_gives {names : List (Located String)} :
    (readNames ending ts).Gives names rest ↔ ∃ name r₁ names',
      ts = ⟨name.location, .identifier name.value⟩ :: r₁ ∧ names = name :: names' ∧
        (readMoreNames ending r₁).Gives names' rest := by
  constructor
  · intro h
    rw [readNames] at h
    split at h
    · simp at h
    · next name r₁ h₁ hn =>
      split at h
      · simp at h
      · next names' r₂ h₂ hm =>
        obtain ⟨rfl, rfl⟩ := Reading.gives_ok.mp h
        exact ⟨name, r₁, names', Ending.expect_name_gives.mp ⟨h₁, hn⟩, rfl, h₂, hm⟩
  · rintro ⟨name, r₁, names', rfl, rfl, h₂, hm⟩
    rw [readNames, Ending.expect_name_cons]
    simp only [hm]
    simp

theorem groups_of_read_fields {fns : List FunctionType} {v : Ty.WithFunctions (List Field)}
    (h : (readFields ending fns ts).Gives v rest) :
    ∃ pre loc groups, ts = pre ++ ⟨loc, .mark .rbrace⟩ :: rest ∧ Groups pre groups := by
  fun_induction readFields ending fns ts generalizing v rest with
  | case1 fns loc ts =>
    obtain ⟨rfl, rfl⟩ := Reading.gives_ok.mp h
    exact ⟨[], loc, [], rfl, .nil⟩
  | case2 | case3 | case4 => simp at h
  | case5 fns ts _ ty fns₁ r₁ h₁ ht names r₂ h₂ hn fields fns₂ r₃ h₃ hf ih =>
    obtain ⟨rfl, rfl⟩ := Reading.gives_ok.mp h
    obtain ⟨tokens, w, rfl, hw⟩ := Ty.of_type_of_read ⟨h₁, ht⟩
    obtain ⟨name, r, names', rfl, rfl, hread⟩ := read_names_gives.mp ⟨h₂, hn⟩
    obtain ⟨more, loc, rfl, hmore⟩ := more_names_of_read hread
    obtain ⟨pre, loc', groups, rfl, hgroups⟩ := ih ⟨h₃, hf⟩
    have hgroup : OfFields (tokens ++ ⟨name.location, .identifier name.value⟩ ::
        (more ++ [⟨loc, .mark .semicolon⟩])) ⟨w, name :: names'⟩ := .mk hw hmore
    refine ⟨_, loc', _, ?_, .cons hgroup hgroups⟩
    simp only [List.append_assoc, List.cons_append, List.nil_append]

theorem read_fields_group {fns fns₁ fns₂ : List FunctionType} {ty : Ty} {fields : List Field}
    {names : List (Located String)} {r₁ r₂ : List Token}
    (ht : (Ty.read ending fns ts).Gives (ty, fns₁) r₁)
    (hn : (readNames ending r₁).Gives names r₂)
    (hf : (readFields ending fns₁ r₂).Gives (fields, fns₂) rest) :
    (readFields ending fns ts).Gives
      (names.map (fun x => ⟨x.location, x.value, ty, none⟩) ++ fields, fns₂) rest := by
  obtain ⟨t, ts', hts, hbase⟩ := Ty.base_of_read ht
  obtain ⟨h₁, ht⟩ := ht
  obtain ⟨h₂, hn⟩ := hn
  obtain ⟨h₃, hf⟩ := hf
  rw [readFields]
  · simp only [ht, hn, hf]
    simp
  · rintro loc rest' rfl
    cases hts
    cases hbase

theorem read_fields_of_groups (ending : Ending) {groups : List FieldGroup} (h : Groups ts groups)
    (fns : List FunctionType) (loc : Location) :
    ∃ fields fns', FunctionType.Adds fns fns' (groups.flatMap (·.type.literals)) ∧
      List.Forall₂ (Field.Means fns') fields (groups.flatMap FieldGroup.members) ∧
      ∀ rest, (readFields ending fns (ts ++ ⟨loc, .mark .rbrace⟩ :: rest)).Gives (fields, fns')
        rest := by
  induction h generalizing fns with
  | nil =>
    refine ⟨[], fns, .refl fns, .nil, fun rest => ?_⟩
    rw [List.nil_append, readFields]
    simp
  | @cons _ ts' g groups hg hs ih =>
    cases hg with
    | @mk ts ts₁ w loc₁ loc₂ name names hw hnames =>
      obtain ⟨ty, fns₁, hadds, hmeans, hread⟩ := Ty.read_of_type ending hw fns
      obtain ⟨fields, fns₂, hadds', hfields, hreads⟩ := ih fns₁
      let own := (⟨loc₁, name⟩ :: names).map fun x => Field.mk x.location x.value ty none
      have hown : List.Forall₂ (Field.Means fns₂) own
          (FieldGroup.members ⟨w, ⟨loc₁, name⟩ :: names⟩) := by
        rw [FieldGroup.members, List.forall₂_map_left_iff, List.forall₂_map_right_iff,
          List.forall₂_same]
        exact fun x _ => ⟨rfl, rfl, hmeans.of_longer hadds'.grows⟩
      refine ⟨own ++ fields, fns₂, hadds.trans hadds', List.rel_append hown hfields,
        fun rest => ?_⟩
      have hmore : (readMoreNames ending (ts₁ ++ ⟨loc₂, .mark .semicolon⟩ ::
          (ts' ++ ⟨loc, .mark .rbrace⟩ :: rest))).Gives names _ :=
        read_more_names_of_more_names hnames loc₂
      rw [List.append_assoc, List.append_assoc, List.cons_append, List.append_assoc,
        List.singleton_append]
      exact read_fields_group (hread _ _ _ Ty.read_suffixes_name)
        (read_names_gives.mpr ⟨⟨loc₁, name⟩, _, names, rfl, rfl, hmore⟩) (hreads rest)

theorem read_struct_gives : (readStruct ending ts).Gives s rest ↔
    ∃ (name : Located String) (loc : Location) (r₁ : List Token) (fields : List Field)
      (fns : List FunctionType) (r₂ : List Token),
      ts = ⟨name.location, .identifier name.value⟩ :: ⟨loc, .mark .lbrace⟩ :: r₁ ∧
      (readFields ending [] r₁).Gives (fields, fns) r₂ ∧
      (ending.skip (.mark .semicolon) r₂).Gives () rest ∧
      s = .struct ⟨name.location, name.value, fields, false, none⟩ fns := by
  constructor
  · intro h
    rw [readStruct] at h
    split at h
    · simp at h
    · next name r₁ h₁ hn =>
      split at h
      · simp at h
      · next brace r₂ h₂ hb =>
        split at h
        · simp at h
        · next fields fns r₃ h₃ hf =>
          split at h
          · simp at h
          · next r₄ h₄ hk =>
            obtain ⟨rfl, rfl⟩ := Reading.gives_ok.mp h
            obtain ⟨loc, rfl, rfl⟩ := Ending.expect_mark_gives.mp ⟨h₂, hb⟩
            exact ⟨name, loc, r₂, fields, fns, r₃, Ending.expect_name_gives.mp ⟨h₁, hn⟩,
              ⟨h₃, hf⟩, ⟨h₄, hk⟩, rfl⟩
  · rintro ⟨name, loc, r₁, fields, fns, r₂, rfl, ⟨h₁, hf⟩, ⟨h₂, hk⟩, rfl⟩
    rw [readStruct, Ending.expect_name_cons]
    simp only [Ending.expect_mark_cons, hf, hk]
    simp

theorem read_constant_gives : (readConstant ending ts).Gives s rest ↔
    ∃ (name : Located String) (loc : Location) (r₁ : List Token) (e : Expr) (r₂ : List Token),
      ts = ⟨name.location, .identifier name.value⟩ :: ⟨loc, .mark .equals⟩ :: r₁ ∧
      (Expr.read ending r₁).Gives e r₂ ∧ (ending.skip (.mark .semicolon) r₂).Gives () rest ∧
      s = .constant ⟨name.location, name.value, e, false⟩ := by
  constructor
  · intro h
    rw [readConstant] at h
    split at h
    · simp at h
    · next name r₁ h₁ hn =>
      split at h
      · simp at h
      · next equals r₂ h₂ hq =>
        split at h
        · simp at h
        · next e r₃ h₃ he =>
          split at h
          · simp at h
          · next r₄ h₄ hk =>
            obtain ⟨rfl, rfl⟩ := Reading.gives_ok.mp h
            obtain ⟨loc, rfl, rfl⟩ := Ending.expect_mark_gives.mp ⟨h₂, hq⟩
            exact ⟨name, loc, r₂, e, r₃, Ending.expect_name_gives.mp ⟨h₁, hn⟩, ⟨h₃, he⟩,
              ⟨h₄, hk⟩, rfl⟩
  · rintro ⟨name, loc, r₁, e, r₂, rfl, ⟨h₁, he⟩, ⟨h₂, hk⟩, rfl⟩
    rw [readConstant, Ending.expect_name_cons]
    simp only [Ending.expect_mark_cons, he, hk]
    simp

theorem read_inclusion_gives : (readInclusion ending ts).Gives s rest ↔
    ∃ (path : Located String) (r₁ : List Token), ts = ⟨path.location, .quoted path.value⟩ :: r₁ ∧
      (ending.skip (.mark .semicolon) r₁).Gives () rest ∧
      s = .inclusion path.location path.value := by
  constructor
  · intro h
    rw [readInclusion] at h
    split at h
    · simp at h
    · next path r₁ h₁ hp =>
      split at h
      · simp at h
      · next r₂ h₂ hk =>
        obtain ⟨rfl, rfl⟩ := Reading.gives_ok.mp h
        exact ⟨path, r₁, Ending.expect_quoted_gives.mp ⟨h₁, hp⟩, ⟨h₂, hk⟩, rfl⟩
  · rintro ⟨path, r₁, rfl, ⟨h₁, hk⟩, rfl⟩
    rw [readInclusion, Ending.expect_quoted_cons]
    simp only [hk]
    simp

theorem defines_of_read {first : Token} (h : (read ending first ts).Gives s rest) :
    ∃ pre d, ts = pre ++ rest ∧ Defines (first :: pre) d := by
  obtain ⟨loc, symbol⟩ := first
  rw [read] at h
  split at h
  · next hword =>
    obtain ⟨name, loc₁, r₁, fields, fns, r₂, rfl, hf, hk, _⟩ := read_struct_gives.mp h
    obtain ⟨pre, loc₂, groups, rfl, hgroups⟩ := groups_of_read_fields hf
    obtain ⟨pre', rfl, ht⟩ := Ending.terminator_of_skip hk
    cases hword
    refine ⟨⟨name.location, .identifier name.value⟩ :: ⟨loc₁, .mark .lbrace⟩ ::
      (pre ++ ⟨loc₂, .mark .rbrace⟩ :: pre'), _, ?_, .struct hgroups ht⟩
    simp only [List.append_assoc, List.cons_append]
  · next hword =>
    obtain ⟨name, loc₁, r₁, e, r₂, rfl, he, hk, _⟩ := read_constant_gives.mp h
    obtain ⟨pre, rfl, hspelled, _⟩ := (Expr.spelled_of_gives ending _).2.2 1 e r₂ he
    obtain ⟨pre', rfl, ht⟩ := Ending.terminator_of_skip hk
    cases hword
    refine ⟨⟨name.location, .identifier name.value⟩ :: ⟨loc₁, .mark .equals⟩ :: (pre ++ pre'), _,
      ?_, .constant hspelled.derives.1 ht⟩
    simp only [List.append_assoc, List.cons_append]
  · next hword =>
    obtain ⟨path, r₁, rfl, hk, _⟩ := read_inclusion_gives.mp h
    obtain ⟨pre, rfl, ht⟩ := Ending.terminator_of_skip hk
    cases hword
    exact ⟨_, _, rfl, .inclusion ht⟩
  · simp at h

/-- Every definition of the grammar that a statement or the end of the file follows is read as a
statement that says what it says. -/
theorem read_of_defines {d : Definition} (h : Defines ts d) (hnext : ending.AtStatement rest) :
    ∃ first ts' s, ts = first :: ts' ∧ (read ending first (ts' ++ rest)).Gives s rest ∧
      s.States d := by
  cases h with
  | @struct _ loc₁ _ loc₃ name _ _ groups hg ht =>
    obtain ⟨fields, fns, hadds, hfields, hread⟩ := read_fields_of_groups ending hg [] loc₃
    refine ⟨_, _, _, rfl, read_struct_gives.mpr ⟨⟨loc₁, name⟩, _, _, fields, fns, _, rfl, ?_,
      Ending.skip_of_terminator ht hnext, rfl⟩, .struct hfields hadds⟩
    rw [List.append_eq, List.append_assoc]
    exact hread _
  | @constant _ loc₁ _ name _ _ he ht =>
    obtain ⟨hstop, hlook⟩ := Ending.stops_of_terminator ht hnext
    obtain ⟨e, hread, hspelled⟩ := Expr.read_of_expression he hstop hlook
    refine ⟨_, _, _, rfl, read_constant_gives.mpr ⟨⟨loc₁, name⟩, _, _, e, _, rfl, ?_,
      Ending.skip_of_terminator ht hnext, rfl⟩, .constant hspelled⟩
    rw [List.append_eq, List.append_assoc]
    exact hread
  | @inclusion _ loc₁ path _ ht =>
    exact ⟨_, _, _, rfl, read_inclusion_gives.mpr ⟨⟨loc₁, path⟩, _, rfl,
      Ending.skip_of_terminator ht hnext, rfl⟩, .inclusion⟩

end Statement

theorem Grammar.File.at_statement {ending : Ending} {ts : List Token} {ds : List Definition}
    (h : File ts ds) (hl : ending.look = .ok ()) : ending.AtStatement ts := by
  refine ⟨fun _ => hl, ?_⟩
  rintro t rest hts
  cases h with
  | nil => cases hts
  | cons hd _ =>
    cases hd with
    | struct => cases hts; exact ⟨.struct, rfl⟩
    | constant => cases hts; exact ⟨.const, rfl⟩
    | inclusion => cases hts; exact ⟨.incl, rfl⟩

namespace Script

variable {ending : Ending} {ts : List Token}

theorem file_of_of_tokens (h : (ofTokens ending ts).failure = none) :
    ending.look = .ok () ∧ ∃ ds, File ts ds := by
  fun_induction ofTokens ending ts with
  | case1 | case3 => cases h
  | case2 _ hl => exact ⟨hl, [], .nil⟩
  | case4 first ts s r₁ h₁ hs _ ih =>
    obtain ⟨hl, ds, hds⟩ := ih h
    obtain ⟨pre, d, rfl, hd⟩ := Statement.defines_of_read ⟨h₁, hs⟩
    exact ⟨hl, d :: ds, .cons hd hds⟩

theorem of_tokens_of_file {ds : List Definition} (h : File ts ds) (hl : ending.look = .ok ()) :
    (ofTokens ending ts).failure = none ∧
      List.Forall₂ Statement.States (ofTokens ending ts).statements ds := by
  induction h with
  | nil =>
    rw [ofTokens, hl]
    exact ⟨rfl, .nil⟩
  | cons hd hs ih =>
    obtain ⟨first, ts', s, rfl, ⟨h₁, hread⟩, hstates⟩ :=
      Statement.read_of_defines hd (hs.at_statement hl)
    rw [List.cons_append, ofTokens, hread]
    exact ⟨ih.1, .cons hstates ih.2⟩

end Script

/-- The text of the source has no lexical errors, and its tokens derive the definitions. -/
def Source.Derives (source : Source) (ds : List Definition) : Prop :=
  (∃ loc, (TokenStream.ofText source.name source.text).ending = .eof loc) ∧
    File (TokenStream.ofText source.name source.text).tokens ds

theorem Ending.look_eq_ok {ending : Ending} : ending.look = .ok () ↔ ∃ loc, ending = .eof loc := by
  cases ending <;> simp [look]

namespace Source

variable {source : Source}

theorem failure_eq_none : (Script.ofText source.name source.text).failure = none ↔
    ∃ ds, source.Derives ds := by
  constructor
  · intro h
    obtain ⟨hl, ds, hds⟩ := Script.file_of_of_tokens h
    exact ⟨ds, Ending.look_eq_ok.mp hl, hds⟩
  · rintro ⟨ds, hl, hds⟩
    exact (Script.of_tokens_of_file hds (Ending.look_eq_ok.mpr hl)).1

theorem Derives.states {ds : List Definition} (h : source.Derives ds) :
    List.Forall₂ Statement.States (Script.ofText source.name source.text).statements ds :=
  (Script.of_tokens_of_file h.2 (Ending.look_eq_ok.mpr h.1)).2

end Source

end DataLayout
