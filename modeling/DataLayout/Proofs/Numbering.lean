import DataLayout.Proofs.Binding
import DataLayout.Proofs.Loading
import DataLayout.Proofs.Reading

/-!
# Numbers of function types

A type mentions a function type by its position in a list. Such a position is always taken, a
function type mentions only earlier ones, and what a file declares mentions only function types of
that file, wherever its includes stand.
-/

set_option autoImplicit false

namespace DataLayout

namespace Ty

/-- The position of the function type in a type, below any pointers and arrays. -/
def function? : Ty → Option Nat
  | .function id => some id
  | .pointer t | .array t _ => t.function?
  | .primitive _ | .void | .struct _ => none

theorem function?_shift (offset : Nat) (t : Ty) :
    (t.shift offset).function? = t.function?.map (· + offset) := by
  induction t with
  | pointer t ih => exact ih
  | array t n ih => exact ih
  | primitive | void | struct | function => rfl

theorem function?_map_ref (f : StructRef → StructRef) (t : Ty) :
    (t.mapRef f).function? = t.function? := by
  induction t with
  | pointer t ih => exact ih
  | array t n ih => exact ih
  | primitive | void | struct | function => rfl

theorem function?_of_of_token? {t : Token} {ty : Ty} (h : ofToken? t = some ty) :
    ty.function? = none := by
  rw [ofToken?] at h
  split at h
  · cases h
    rfl
  · cases h
    rfl
  · cases h
    rfl
  · cases h

/-- The function type in a type, if there is one, is in the list and came in the same way. -/
def MentionsIn (fns : List FunctionType) (included : Bool) (t : Ty) : Prop :=
  ∀ id, t.function? = some id → ∃ f, fns[id]? = some f ∧ f.included = included

variable {fns fns' : List FunctionType} {included included' : Bool} {t : Ty}

theorem MentionsIn.lt_length (h : t.MentionsIn fns included) {id : Nat}
    (hid : t.function? = some id) : id < fns.length := by
  obtain ⟨f, hf, _⟩ := h id hid
  exact (List.getElem?_eq_some_iff.mp hf).1

theorem MentionsIn.of_longer (h : t.MentionsIn fns included) (hp : fns <+: fns') :
    t.MentionsIn fns' included := by
  intro id hid
  obtain ⟨f, hf, hi⟩ := h id hid
  obtain ⟨more, rfl⟩ := hp
  refine ⟨f, ?_, hi⟩
  rw [List.getElem?_append_left (h.lt_length hid), hf]

theorem MentionsIn.shift {g : FunctionType → FunctionType}
    (hg : ∀ f, f.included = included → (g f).included = included')
    (h : t.MentionsIn fns' included) :
    (t.shift fns.length).MentionsIn (fns ++ fns'.map g) included' := by
  intro id hid
  rw [function?_shift, Option.map_eq_some_iff] at hid
  obtain ⟨id', hid', rfl⟩ := hid
  obtain ⟨f, hf, hi⟩ := h id' hid'
  refine ⟨g f, ?_, hg f hi⟩
  rw [List.getElem?_append_right (Nat.le_add_left _ _), Nat.add_sub_cancel, List.getElem?_map, hf,
    Option.map_some]

theorem mentions_in_last {f : FunctionType} (hf : f.included = included) :
    (function fns.length).MentionsIn (fns ++ [f]) included := by
  rintro id ⟨⟩
  exact ⟨f, List.getElem?_concat_length, hf⟩

end Ty

/-- Each function type mentions only function types before it, and such as came in the same way. -/
inductive WellNumbered : List FunctionType → Prop
  | nil : WellNumbered []
  | snoc {fns : List FunctionType} {f : FunctionType} (h : WellNumbered fns)
      (hf : ∀ t ∈ f.types, t.MentionsIn fns f.included) : WellNumbered (fns ++ [f])

theorem WellNumbered.mentions {fns : List FunctionType} (h : WellNumbered fns) :
    ∀ f ∈ fns, ∀ t ∈ f.types, t.MentionsIn fns f.included := by
  induction h with
  | nil => simp
  | @snoc fns f _ hf ih =>
    intro g hg t ht
    have hlonger : fns <+: fns ++ [f] := List.prefix_append fns [f]
    rcases List.mem_append.mp hg with hg | hg
    · exact (ih g hg t ht).of_longer hlonger
    · cases List.mem_singleton.mp hg
      exact (hf t ht).of_longer hlonger

theorem WellNumbered.append {fns fns' : List FunctionType} (h : WellNumbered fns)
    (h' : WellNumbered fns') {g : FunctionType → FunctionType}
    (htypes : ∀ f, (g f).types = f.types.map (Ty.shift fns.length))
    (hflag : ∀ f f' : FunctionType, f.included = f'.included →
      (g f).included = (g f').included) : WellNumbered (fns ++ fns'.map g) := by
  induction h' with
  | nil => simpa using h
  | @snoc fns' f _ hf ih =>
    rw [List.map_append, ← List.append_assoc]
    refine .snoc ih fun t ht => ?_
    rw [htypes] at ht
    obtain ⟨t', ht', rfl⟩ := List.mem_map.mp ht
    exact (hf t' ht').shift fun f' hf' => hflag f' f hf'

/-- The function types of a statement: they are numbered from zero, and none is included. -/
structure Drafted (fns : List FunctionType) : Prop where
  numbered : WellNumbered fns
  own : ∀ f ∈ fns, f.included = false

theorem Drafted.nil : Drafted [] := ⟨.nil, by simp⟩

theorem Drafted.snoc {fns : List FunctionType} (h : Drafted fns) {loc : Location} {returns : Ty}
    {params : List Parameter} (hr : returns.MentionsIn fns false)
    (hp : ∀ p ∈ params, p.ty.MentionsIn fns false) :
    Drafted (fns ++ [⟨loc, returns, params, false⟩]) where
  numbered := .snoc h.numbered (List.forall_mem_cons.mpr ⟨hr, List.forall_mem_map.mpr hp⟩)
  own f hf := by
    rcases List.mem_append.mp hf with hf | hf
    · exact h.own f hf
    · rw [List.mem_singleton.mp hf]

structure Drafts (fns fns' : List FunctionType) : Prop where
  grows : fns <+: fns'
  drafted : Drafted fns'

theorem Drafted.refl {fns : List FunctionType} (h : Drafted fns) : Drafts fns fns :=
  ⟨List.prefix_rfl, h⟩

theorem Drafts.trans {fns₁ fns₂ fns₃ : List FunctionType} (h : Drafts fns₁ fns₂)
    (h' : Drafts fns₂ fns₃) : Drafts fns₁ fns₃ :=
  ⟨h.grows.trans h'.grows, h'.drafted⟩

namespace Ty

variable {ending : Ending}

mutual

theorem Reads.drafts {fns fns' : List FunctionType} {ts rest : List Token} {ty : Ty}
    (h : Reads ending fns ts ty fns' rest) (hd : Drafted fns) :
    Drafts fns fns' ∧ ty.MentionsIn fns' false :=
  match h with
  | .base hb hs => by
    apply hs.drafts hd
    intro id hid
    rw [function?_of_of_token? hb] at hid
    cases hid

theorem ReadsSuffixes.drafts {fns fns' : List FunctionType} {ts rest : List Token} {ty ty' : Ty}
    (h : ReadsSuffixes ending fns ty ts ty' fns' rest) (hd : Drafted fns)
    (ht : ty.MentionsIn fns false) : Drafts fns fns' ∧ ty'.MentionsIn fns' false :=
  match h with
  | .stop => ⟨hd.refl, ht⟩
  | .array _ hs => hs.drafts hd ht
  | .pointer _ hs => hs.drafts hd ht
  | .function hp hs => by
    obtain ⟨hparams, hmentions⟩ := hp.drafts hd
    obtain ⟨hlast, hmention⟩ := hs.drafts
      (hparams.drafted.snoc (ht.of_longer hparams.grows) hmentions) (mentions_in_last rfl)
    exact ⟨⟨(hparams.grows.trans (List.prefix_append _ _)).trans hlast.grows, hlast.drafted⟩,
      hmention⟩

theorem ReadsParams.drafts {fns fns' : List FunctionType} {ts rest : List Token}
    {params : List Parameter} (h : ReadsParams ending fns ts params fns' rest) (hd : Drafted fns) :
    Drafts fns fns' ∧ ∀ p ∈ params, p.ty.MentionsIn fns' false :=
  match h with
  | .none => ⟨hd.refl, by simp⟩
  | .first ht hm => by
    obtain ⟨hty, hmention⟩ := ht.drafts hd
    obtain ⟨hmore, hmentions⟩ := hm.drafts hty.drafted
    exact ⟨hty.trans hmore, List.forall_mem_cons.mpr ⟨hmention.of_longer hmore.grows, hmentions⟩⟩

theorem ReadsMore.drafts {fns fns' : List FunctionType} {ts rest : List Token}
    {params : List Parameter} (h : ReadsMore ending fns ts params fns' rest) (hd : Drafted fns) :
    Drafts fns fns' ∧ ∀ p ∈ params, p.ty.MentionsIn fns' false :=
  match h with
  | .none => ⟨hd.refl, by simp⟩
  | .next ht hm => by
    obtain ⟨hty, hmention⟩ := ht.drafts hd
    obtain ⟨hmore, hmentions⟩ := hm.drafts hty.drafted
    exact ⟨hty.trans hmore, List.forall_mem_cons.mpr ⟨hmention.of_longer hmore.grows, hmentions⟩⟩

end

end Ty

/-- What a statement declares is its own, and function types are numbered within it. -/
def Statement.Drafted : Statement → Prop
  | .struct s fns => DataLayout.Drafted fns ∧ s.included = false ∧
      ∀ f ∈ s.fields, f.ty.MentionsIn fns false
  | .constant c => c.included = false
  | .inclusion _ _ => True

namespace Statement

variable {ending : Ending} {ts : List Token}

theorem read_fields_drafts {fns : List FunctionType}
    {p : Phrase ts.length (Ty.WithFunctions (List Field))}
    (h : readFields ending fns ts = .ok p) (hd : DataLayout.Drafted fns) :
    Drafts fns p.value.2 ∧ ∀ f ∈ p.value.1, f.ty.MentionsIn p.value.2 false := by
  fun_induction readFields ending fns ts with
  | case1 =>
    cases h
    exact ⟨hd.refl, by simp⟩
  | case2 | case3 | case4 => cases h
  | case5 fns ts _ ty fns₁ r₁ h₁ ht names r₂ h₂ _ fields fns₂ r₃ h₃ hf ih =>
    cases h
    obtain ⟨hty, hmention⟩ := ((Ty.reads_of_read ending).1 fns ts _ ht).drafts hd
    obtain ⟨hrest, hmentions⟩ := ih hf hty.drafted
    refine ⟨hty.trans hrest, fun f hmem => ?_⟩
    rcases List.mem_append.mp hmem with hmem | hmem
    · obtain ⟨x, _, rfl⟩ := List.mem_map.mp hmem
      exact hmention.of_longer hrest.grows
    · exact hmentions f hmem

theorem read_struct_drafted {p : Phrase ts.length Statement} (h : readStruct ending ts = .ok p) :
    p.value.Drafted := by
  rw [readStruct] at h
  split at h
  · cases h
  · split at h
    · cases h
    · split at h
      · cases h
      · next hf =>
        split at h
        · cases h
        · cases h
          obtain ⟨hdrafts, hmentions⟩ := read_fields_drafts hf .nil
          exact ⟨hdrafts.drafted, rfl, hmentions⟩

theorem read_constant_drafted {p : Phrase ts.length Statement}
    (h : readConstant ending ts = .ok p) :
    p.value.Drafted := by
  rw [readConstant] at h
  split at h
  · cases h
  · split at h
    · cases h
    · split at h
      · cases h
      · split at h
        · cases h
        · cases h
          rfl

theorem read_inclusion_drafted {p : Phrase ts.length Statement}
    (h : readInclusion ending ts = .ok p) : p.value.Drafted := by
  rw [readInclusion] at h
  split at h
  · cases h
  · split at h
    · cases h
    · cases h
      trivial

theorem read_drafted {first : Token} {p : Phrase ts.length Statement}
    (h : read ending first ts = .ok p) : p.value.Drafted := by
  rw [read] at h
  split at h
  · exact read_struct_drafted h
  · exact read_constant_drafted h
  · exact read_inclusion_drafted h
  · cases h

end Statement

theorem Script.of_tokens_drafted (ending : Ending) (ts : List Token) :
    ∀ statement ∈ (ofTokens ending ts).statements, statement.Drafted := by
  fun_induction ofTokens ending ts with
  | case1 | case2 | case3 => simp
  | case4 first rest s r₁ h₁ hs _ ih =>
    exact List.forall_mem_cons.mpr ⟨Statement.read_drafted hs, ih⟩

namespace CompilationUnit

/-- Function types are well numbered, and what the fields of a struct mention is in the list and
came in the same way as the struct. -/
structure Numbered (u : CompilationUnit) : Prop where
  functions : WellNumbered u.functions
  fields : ∀ s ∈ u.structs, ∀ f ∈ s.fields, f.ty.MentionsIn u.functions s.included

variable {u w : CompilationUnit}

theorem Numbered.empty (filename : String) : (empty filename).Numbered :=
  ⟨.nil, by simp [CompilationUnit.empty]⟩

theorem Numbered.add_struct (hu : u.Numbered) {s : Struct} {fns : List FunctionType}
    (hs : (Statement.struct s fns).Drafted) : (u.addStruct s fns).Numbered := by
  obtain ⟨hd, hown, hmentions⟩ := hs
  constructor
  · exact hu.functions.append hd.numbered (FunctionType.types_map_ty _) fun _ _ h => h
  · intro s' hs'
    rcases List.mem_append.mp hs' with hs' | hs'
    · exact fun f hf => (hu.fields s' hs' f hf).of_longer (List.prefix_append _ _)
    · cases List.mem_singleton.mp hs'
      intro f hf
      obtain ⟨f, hf', rfl⟩ := List.mem_map.mp hf
      refine (hmentions f hf').shift fun f' hf' => ?_
      exact hf'.trans hown.symm

theorem Numbered.add_included (hu : u.Numbered) (hw : w.Numbered) (path : String) :
    (u.addIncluded path w).Numbered := by
  constructor
  · refine hu.functions.append hw.functions (fun f => ?_) fun _ _ _ => rfl
    exact FunctionType.types_map_ty (Ty.shift u.functions.length) f
  · intro s hs
    rcases List.mem_append.mp hs with hs | hs
    · exact fun f hf => (hu.fields s hs f hf).of_longer (List.prefix_append _ _)
    · obtain ⟨s, hs', rfl⟩ := List.mem_map.mp hs
      intro f hf
      obtain ⟨f, hf', rfl⟩ := List.mem_map.mp hf
      exact (hw.fields s hs' f hf').shift fun _ _ => rfl

end CompilationUnit

namespace Loader

variable {sources : Sources}

theorem Gathers.numbered {nested : Source → CompilationUnit → Prop}
    (hn : ∀ b w, nested b w → w.Numbered) {file : String} {statements : List Statement}
    {u v : CompilationUnit} (h : Gathers sources nested file statements u v)
    (hs : ∀ statement ∈ statements, statement.Drafted) (hu : u.Numbered) : v.Numbered := by
  induction h with
  | nil => exact hu
  | struct _ ih =>
    obtain ⟨hstruct, hrest⟩ := List.forall_mem_cons.mp hs
    exact ih hrest (hu.add_struct hstruct)
  | constant _ ih => exact ih (List.forall_mem_cons.mp hs).2 ⟨hu.functions, hu.fields⟩
  | inclusion _ hw _ ih =>
    exact ih (List.forall_mem_cons.mp hs).2 (hu.add_included (hn _ _ hw) _)

theorem load_to_numbered {depth : Nat} {source : Source} {loading : List String}
    {v : CompilationUnit} (h : (loadTo sources depth source loading).1 = .ok v) : v.Numbered := by
  refine load_to_induction (fun source nested v hn hg => ?_) h
  exact hg.numbered hn (Script.of_tokens_drafted _ _) (.empty source.name)

end Loader

end DataLayout
