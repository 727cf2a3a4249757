import DataLayout.Declaration

/-!
# The grammar of declaration files

A file is a list of tokens that derives from the rule `File`. The rules for types and definitions
also say what is written: a type with its suffixes around it, a struct with the groups of fields
that share a type. Suffixes apply to everything to their left. Two conditions cannot be seen from
the rules: no bound of an array is negative, and no star is put behind an array type.
-/

set_option autoImplicit false

namespace DataLayout

/-- A type as it is written, function types in full. A function type is located at its opening
parenthesis. -/
inductive WrittenType where
  | primitive (type : Primitive)
  | void
  | struct (location : Location) (name : String)
  | pointer (target : WrittenType)
  | array (element : WrittenType) (length : Nat)
  | function (location : Location) (returns : WrittenType) (params : List (String × WrittenType))

def WrittenType.isArray : WrittenType → Bool
  | .array _ _ => true
  | .primitive _ | .void | .struct _ _ | .pointer _ | .function _ _ _ => false

structure FieldGroup where
  type : WrittenType
  names : List (Located String)

inductive Definition where
  | struct (name : Located String) (groups : List FieldGroup)
  | constant (name : Located String) (expr : List Token)
  | inclusion (path : Located String)

namespace Grammar

def Operator (t : Token) : Prop :=
  t.value ∈ [.mark .shiftLeft, .mark .shiftRight, .mark .plus, .mark .minus, .mark .star,
    .mark .slash]

mutual

/-- `ATOM := INTEGER | IDENTIFIER | LPAREN EXPRESSION RPAREN | ~ATOM | -ATOM` -/
inductive Atom : List Token → Prop
  | integer {loc : Location} {v : Int64} : Atom [⟨loc, .integer v⟩]
  | name {loc : Location} {x : String} : Atom [⟨loc, .identifier x⟩]
  | group {loc loc' : Location} {ts : List Token} (h : Expression ts) :
      Atom (⟨loc, .mark .lparen⟩ :: (ts ++ [⟨loc', .mark .rparen⟩]))
  | complement {loc : Location} {ts : List Token} (h : Atom ts) :
      Atom (⟨loc, .mark .tilde⟩ :: ts)
  | negate {loc : Location} {ts : List Token} (h : Atom ts) : Atom (⟨loc, .mark .minus⟩ :: ts)

inductive Expression : List Token → Prop
  | mk {ts ts' : List Token} (ha : Atom ts) (ho : Operations ts') : Expression (ts ++ ts')

inductive Operations : List Token → Prop
  | nil : Operations []
  | cons {t : Token} {ts ts' : List Token} (ht : Operator t) (he : Expression ts)
      (ho : Operations ts') : Operations (t :: (ts ++ ts'))

end

mutual

/-- `TYPE := BASE_TYPE [LBRACKET INTEGER RBRACKET | MUL | PARAMS]*`, where
`BASE_TYPE := PRIMITIVE | void | IDENTIFIER`. -/
inductive OfType : List Token → WrittenType → Prop
  | primitive {loc : Location} {p : Primitive} : OfType [⟨loc, .primitive p⟩] (.primitive p)
  | void {loc : Location} : OfType [⟨loc, .keyword .void⟩] .void
  | struct {loc : Location} {name : String} : OfType [⟨loc, .identifier name⟩] (.struct loc name)
  | array {ts : List Token} {w : WrittenType} {loc₁ loc₂ loc₃ : Location} {n : Int64}
      (h : OfType ts w) (hn : 0 ≤ n) :
      OfType (ts ++ [⟨loc₁, .mark .lbracket⟩, ⟨loc₂, .integer n⟩, ⟨loc₃, .mark .rbracket⟩])
        (.array w n.toInt.toNat)
  | pointer {ts : List Token} {w : WrittenType} {loc : Location} (h : OfType ts w)
      (ha : w.isArray = false) : OfType (ts ++ [⟨loc, .mark .star⟩]) (.pointer w)
  | function {ts ts' : List Token} {w : WrittenType} {params : List (String × WrittenType)}
      {loc loc' : Location} (h : OfType ts w) (hp : Params ts' params) :
      OfType (ts ++ ⟨loc, .mark .lparen⟩ :: (ts' ++ [⟨loc', .mark .rparen⟩]))
        (.function loc w params)

/-- `[TYPE IDENTIFIER [, TYPE IDENTIFIER]*]`: what stands between the parentheses of
`PARAMS := LPAREN [TYPE IDENTIFIER [, TYPE IDENTIFIER]*] RPAREN`. -/
inductive Params : List Token → List (String × WrittenType) → Prop
  | none : Params [] []
  | some {ts ts' : List Token} {w : WrittenType} {loc : Location} {name : String}
      {params : List (String × WrittenType)} (ht : OfType ts w) (hm : MoreParams ts' params) :
      Params (ts ++ ⟨loc, .identifier name⟩ :: ts') ((name, w) :: params)

inductive MoreParams : List Token → List (String × WrittenType) → Prop
  | nil : MoreParams [] []
  | cons {ts ts' : List Token} {w : WrittenType} {loc loc' : Location} {name : String}
      {params : List (String × WrittenType)} (ht : OfType ts w) (hm : MoreParams ts' params) :
      MoreParams (⟨loc', .mark .comma⟩ :: (ts ++ ⟨loc, .identifier name⟩ :: ts'))
        ((name, w) :: params)

end

inductive MoreNames : List Token → List (Located String) → Prop
  | nil : MoreNames [] []
  | cons {ts : List Token} {loc loc' : Location} {name : String} {names : List (Located String)}
      (h : MoreNames ts names) :
      MoreNames (⟨loc', .mark .comma⟩ :: ⟨loc, .identifier name⟩ :: ts) (⟨loc, name⟩ :: names)

inductive OfFields : List Token → FieldGroup → Prop
  | mk {ts ts' : List Token} {w : WrittenType} {loc loc' : Location} {name : String}
      {names : List (Located String)} (ht : OfType ts w) (hn : MoreNames ts' names) :
      OfFields (ts ++ ⟨loc, .identifier name⟩ :: (ts' ++ [⟨loc', .mark .semicolon⟩]))
        ⟨w, ⟨loc, name⟩ :: names⟩

inductive Groups : List Token → List FieldGroup → Prop
  | nil : Groups [] []
  | cons {ts ts' : List Token} {g : FieldGroup} {gs : List FieldGroup} (h : OfFields ts g)
      (hs : Groups ts' gs) : Groups (ts ++ ts') (g :: gs)

inductive Terminator : List Token → Prop
  | none : Terminator []
  | semicolon {loc : Location} : Terminator [⟨loc, .mark .semicolon⟩]

/-- The definitions and the include statement:
`STRUCT_DEF := struct IDENTIFIER LBRACE FIELD* RBRACE [SEMICOLON]`,
`CONST_DEF := const IDENTIFIER = EXPRESSION [SEMICOLON]` and
`INCLUDE := include STRING [SEMICOLON]`. -/
inductive Defines : List Token → Definition → Prop
  | struct {loc loc₁ loc₂ loc₃ : Location} {name : String} {ts ts' : List Token}
      {groups : List FieldGroup} (hg : Groups ts groups) (ht : Terminator ts') :
      Defines (⟨loc, .keyword .struct⟩ :: ⟨loc₁, .identifier name⟩ :: ⟨loc₂, .mark .lbrace⟩ ::
        (ts ++ ⟨loc₃, .mark .rbrace⟩ :: ts')) (.struct ⟨loc₁, name⟩ groups)
  | constant {loc loc₁ loc₂ : Location} {name : String} {ts ts' : List Token}
      (he : Expression ts) (ht : Terminator ts') :
      Defines (⟨loc, .keyword .const⟩ :: ⟨loc₁, .identifier name⟩ :: ⟨loc₂, .mark .equals⟩ ::
        (ts ++ ts')) (.constant ⟨loc₁, name⟩ ts)
  | inclusion {loc loc₁ : Location} {path : String} {ts : List Token} (ht : Terminator ts) :
      Defines (⟨loc, .keyword .incl⟩ :: ⟨loc₁, .quoted path⟩ :: ts) (.inclusion ⟨loc₁, path⟩)

inductive File : List Token → List Definition → Prop
  | nil : File [] []
  | cons {ts ts' : List Token} {d : Definition} {ds : List Definition} (h : Defines ts d)
      (hs : File ts' ds) : File (ts ++ ts') (d :: ds)

end Grammar

end DataLayout
