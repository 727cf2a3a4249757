import DataLayout.Proofs.Rendering
import DataLayout.Text.Json

/-!
# The grammar of JSON

Which texts denote which values, for values without fractions and literal names. Blanks may stand
between the parts of a value, and a character of a string may be escaped in several ways. A reader
tries one way only to take a text apart, and reads every text of the grammar: a text denotes at
most one value.
-/

set_option autoImplicit false

namespace DataLayout.Text

namespace Json

section Strings

def hexValue? (c : Char) : Option Nat :=
  if c.isDigit then some (c.toNat - '0'.toNat)
  else if 'a' ≤ c ∧ c ≤ 'f' then some (c.toNat - 'a'.toNat + 10)
  else if 'A' ≤ c ∧ c ≤ 'F' then some (c.toNat - 'A'.toNat + 10)
  else none

def hexNumber? (ds : List Char) : Option Nat :=
  ds.foldlM (fun n d => (hexValue? d).map (n * 16 + ·)) 0

def escapes : List (Char × Char) :=
  [('"', '"'), ('\\', '\\'), ('/', '/'), ('b', '\x08'), ('f', '\x0c'), ('n', '\n'), ('r', '\r'),
    ('t', '\t')]

def IsPair (high low : Nat) : Prop :=
  0xD800 ≤ high ∧ high < 0xDC00 ∧ 0xDC00 ≤ low ∧ low < 0xE000

instance (high low : Nat) : Decidable (IsPair high low) :=
  inferInstanceAs (Decidable (_ ∧ _ ∧ _ ∧ _))

def ofPair (high low : Nat) : Char :=
  Char.ofNat (0x10000 + (high - 0xD800) * 0x400 + (low - 0xDC00))

inductive Escape : List Char → Char → Prop
  | short {e c : Char} (h : (e, c) ∈ escapes) : Escape [e] c
  | code {d₁ d₂ d₃ d₄ : Char} {n : Nat} (h : hexNumber? [d₁, d₂, d₃, d₄] = some n)
      (hn : n.isValidChar) : Escape ['u', d₁, d₂, d₃, d₄] (Char.ofNat n)
  | pair {d₁ d₂ d₃ d₄ e₁ e₂ e₃ e₄ : Char} {high low : Nat}
      (h : hexNumber? [d₁, d₂, d₃, d₄] = some high) (h' : hexNumber? [e₁, e₂, e₃, e₄] = some low)
      (hp : IsPair high low) :
      Escape ['u', d₁, d₂, d₃, d₄, '\\', 'u', e₁, e₂, e₃, e₄] (ofPair high low)

inductive Quoted : List Char → List Char → Prop
  | nil : Quoted [] []
  | plain {c : Char} {cs s : List Char} (hc : ¬ c.toNat < 0x20) (hq : c ≠ '"') (hb : c ≠ '\\')
      (h : Quoted cs s) : Quoted (c :: cs) (c :: s)
  | escape {e cs s : List Char} {c : Char} (he : Escape e c) (h : Quoted cs s) :
      Quoted ('\\' :: (e ++ cs)) (c :: s)

def readLow (high : Nat) : List Char → Option (Char × List Char)
  | '\\' :: 'u' :: e₁ :: e₂ :: e₃ :: e₄ :: cs =>
    match hexNumber? [e₁, e₂, e₃, e₄] with
    | none => none
    | some low => if IsPair high low then some (ofPair high low, cs) else none
  | _ => none

def readEscape : List Char → Option (Char × List Char)
  | 'u' :: d₁ :: d₂ :: d₃ :: d₄ :: cs =>
    match hexNumber? [d₁, d₂, d₃, d₄] with
    | none => none
    | some n => if n.isValidChar then some (Char.ofNat n, cs) else readLow n cs
  | [] => none
  | e :: cs => (escapes.lookup e).map (·, cs)

/-- Reads a string of less than `bound` characters behind its opening quote, with the closing
quote. -/
def readQuoted : (bound : Nat) → List Char → Option (List Char × List Char)
  | 0, _ => none
  | _ + 1, [] => none
  | bound + 1, c :: cs =>
    if c = '"' then some ([], cs)
    else if c = '\\' then
      match readEscape cs with
      | none => none
      | some (d, rest) => (readQuoted bound rest).map fun (s, rest') => (d :: s, rest')
    else if c.toNat < 0x20 then none
    else (readQuoted bound cs).map fun (s, rest) => (c :: s, rest)

theorem IsPair.not_is_valid_char {high low : Nat} (h : IsPair high low) : ¬ high.isValidChar := by
  obtain ⟨h₁, h₂, _, _⟩ := h
  rintro (hlow | ⟨hhigh, _⟩) <;> omega

theorem read_escape_append {e : List Char} {c : Char} (h : Escape e c) (rest : List Char) :
    readEscape (e ++ rest) = some (c, rest) := by
  cases h with
  | short h =>
    simp only [escapes, List.mem_cons, Prod.mk.injEq, List.not_mem_nil, or_false] at h
    rcases h with ⟨rfl, rfl⟩ | ⟨rfl, rfl⟩ | ⟨rfl, rfl⟩ | ⟨rfl, rfl⟩ | ⟨rfl, rfl⟩ | ⟨rfl, rfl⟩ |
      ⟨rfl, rfl⟩ | ⟨rfl, rfl⟩ <;> rfl
  | code h hn =>
    simp only [List.cons_append, List.nil_append, readEscape, h, hn, if_true]
  | pair h h' hp =>
    simp only [List.cons_append, List.nil_append, readEscape, readLow, h, h', hp.not_is_valid_char,
      hp, if_true, if_false]

theorem read_quoted_append {cs s : List Char} (h : Quoted cs s) {bound : Nat}
    (hb : cs.length < bound) (rest : List Char) :
    readQuoted bound (cs ++ '"' :: rest) = some (s, rest) := by
  induction h generalizing bound with
  | nil =>
    obtain ⟨bound, rfl⟩ := Nat.exists_eq_add_of_lt hb
    rfl
  | @plain c cs s hc hq hbs _ ih =>
    cases bound with
    | zero => cases hb
    | succ bound =>
      rw [List.cons_append, readQuoted, if_neg hq, if_neg hbs, if_neg hc,
        ih (Nat.lt_of_succ_lt_succ hb)]
      rfl
  | @escape e cs s c he _ ih =>
    cases bound with
    | zero => cases hb
    | succ bound =>
      have hlength : cs.length < bound := by
        simp only [List.length_cons, List.length_append] at hb
        omega
      rw [List.cons_append, List.append_assoc, readQuoted, if_neg (by decide), if_pos rfl,
        read_escape_append he]
      dsimp only
      rw [ih hlength]
      rfl

end Strings

section Numbers

structure Natural (n : Nat) (ds : List Char) : Prop extends Lexeme.Numeral n ds where
  unpadded : ds.head? = some '0' → ds = ['0']

def readNatural (cs : List Char) : Option (Nat × List Char) :=
  let ds := cs.takeWhile Char.isDigit
  if ds = [] ∨ ds.head? = some '0' ∧ ds ≠ ['0'] then none
  else some (Nat.ofDigitChars 10 ds 0, cs.dropWhile Char.isDigit)

theorem read_natural_append {n : Nat} {ds rest : List Char} (h : Natural n ds)
    (hr : StartsOutside Char.isDigit rest) : readNatural (ds ++ rest) = some (n, rest) := by
  have htake := hr.take_while_append h.isDigit
  have hdrop := hr.drop_while_append h.isDigit
  have hds : ¬ (ds = [] ∨ ds.head? = some '0' ∧ ds ≠ ['0']) := by
    rintro (hnil | ⟨hzero, hne⟩)
    · exact h.ne_nil hnil
    · exact hne (h.unpadded hzero)
  simp only [readNatural, htake, hdrop, if_neg hds, h.value]

end Numbers

def isSpace (c : Char) : Bool := c == ' ' || c == '\t' || c == '\n' || c == '\r'

def Spaces (w : List Char) : Prop := ∀ c ∈ w, isSpace c = true

mutual

inductive Denotes : List Char → Json → Prop
  | text {cs s : List Char} (h : Quoted cs s) :
      Denotes ('"' :: (cs ++ ['"'])) (.text (String.ofList s))
  | natural {n : Nat} {ds : List Char} (h : Natural n ds) : Denotes ds (.number n)
  | negative {n : Nat} {ds : List Char} (h : Natural n ds) : Denotes ('-' :: ds) (.number (-n))
  | emptyArray {w : List Char} (hw : Spaces w) : Denotes ('[' :: (w ++ [']'])) (.array [])
  | array {w cs cs' : List Char} {j : Json} {js : List Json} (hw : Spaces w) (h : Denotes cs j)
      (hs : MoreItems cs' js) : Denotes ('[' :: (w ++ (cs ++ cs'))) (.array (j :: js))
  | emptyObject {w : List Char} (hw : Spaces w) :
      Denotes ('\x7b' :: (w ++ ['\x7d'])) (.object [])
  | object {w cs cs' : List Char} {m : String × Json} {ms : List (String × Json)} (hw : Spaces w)
      (h : Member cs m) (hs : MoreMembers cs' ms) :
      Denotes ('\x7b' :: (w ++ (cs ++ cs'))) (.object (m :: ms))

inductive Member : List Char → String × Json → Prop
  | mk {ks key w w' cs : List Char} {j : Json} (hk : Quoted ks key) (hw : Spaces w)
      (hw' : Spaces w') (h : Denotes cs j) :
      Member ('"' :: (ks ++ '"' :: (w ++ ':' :: (w' ++ cs)))) (String.ofList key, j)

/-- The items behind an item, each after a comma, and the closing bracket. -/
inductive MoreItems : List Char → List Json → Prop
  | nil {w : List Char} (hw : Spaces w) : MoreItems (w ++ [']']) []
  | cons {w w' cs cs' : List Char} {j : Json} {js : List Json} (hw : Spaces w) (hw' : Spaces w')
      (h : Denotes cs j) (hs : MoreItems cs' js) :
      MoreItems (w ++ ',' :: (w' ++ (cs ++ cs'))) (j :: js)

/-- The members behind a member, each after a comma, and the closing brace. -/
inductive MoreMembers : List Char → List (String × Json) → Prop
  | nil {w : List Char} (hw : Spaces w) : MoreMembers (w ++ ['\x7d']) []
  | cons {w w' cs cs' : List Char} {m : String × Json} {ms : List (String × Json)} (hw : Spaces w)
      (hw' : Spaces w') (h : Member cs m) (hs : MoreMembers cs' ms) :
      MoreMembers (w ++ ',' :: (w' ++ (cs ++ cs'))) (m :: ms)

end

inductive Document : List Char → Json → Prop
  | mk {w w' cs : List Char} {j : Json} (hw : Spaces w) (h : Denotes cs j) (hw' : Spaces w') :
      Document (w ++ (cs ++ w')) j

def skipSpace (cs : List Char) : List Char := cs.dropWhile isSpace

section Readers

variable {α : Type}

def readMore (close : Char) (item : List Char → Option (α × List Char)) :
    (bound : Nat) → List Char → Option (List α × List Char)
  | 0, _ => none
  | bound + 1, cs =>
    match skipSpace cs with
    | [] => none
    | c :: rest =>
      if c = close then some ([], rest)
      else if c = ',' then
        (item (skipSpace rest)).bind fun (x, r) =>
          (readMore close item bound r).map fun (xs, r') => (x :: xs, r')
      else none

/-- Reads items that are separated by commas up to the closing character. -/
def readList (close : Char) (item : List Char → Option (α × List Char)) (bound : Nat)
    (cs : List Char) : Option (List α × List Char) :=
  match skipSpace cs with
  | [] => none
  | c :: rest =>
    if c = close then some ([], rest)
    else
      (item (c :: rest)).bind fun (x, r) =>
        (readMore close item bound r).map fun (xs, r') => (x :: xs, r')

def readMember (bound : Nat) (value : List Char → Option (Json × List Char)) :
    List Char → Option ((String × Json) × List Char)
  | '"' :: cs =>
    match readQuoted bound cs with
    | none => none
    | some (key, r) =>
      match skipSpace r with
      | [] => none
      | c :: r' =>
        if c = ':' then
          (value (skipSpace r')).map fun (j, r'') => ((String.ofList key, j), r'')
        else none
  | _ => none

def readValue : (bound : Nat) → List Char → Option (Json × List Char)
  | 0, _ => none
  | bound + 1, cs =>
    match cs with
    | '"' :: cs => (readQuoted bound cs).map fun (s, r) => (.text (String.ofList s), r)
    | '[' :: cs => (readList ']' (readValue bound) bound cs).map fun (js, r) => (.array js, r)
    | '\x7b' :: cs =>
      (readList '\x7d' (readMember bound (readValue bound)) bound cs).map fun (ms, r) =>
        (.object ms, r)
    | '-' :: cs => (readNatural cs).map fun (n, r) => (.number (-n), r)
    | cs => (readNatural cs).map fun (n, r) => (.number n, r)

end Readers

def ofText? (text : String) : Option Json :=
  match readValue text.toList.length (skipSpace text.toList) with
  | none => none
  | some (j, rest) => if skipSpace rest = [] then some j else none

theorem skip_space_append {w cs : List Char} (hw : Spaces w) (h : StartsOutside isSpace cs) :
    skipSpace (w ++ cs) = cs :=
  h.drop_while_append hw

theorem is_space_eq_true {c : Char} : isSpace c = true ↔ c ∈ [' ', '\t', '\n', '\r'] := by
  simp [isSpace, or_assoc]

theorem is_digit_of_is_space {c : Char} (h : isSpace c = true) : c.isDigit = false := by
  have hc := is_space_eq_true.mp h
  simp only [List.mem_cons, List.not_mem_nil, or_false] at hc
  rcases hc with rfl | rfl | rfl | rfl <;> rfl

theorem starts_outside_is_digit {w : List Char} {c : Char} (hw : Spaces w) (hc : c.isDigit = false)
    (cs : List Char) : StartsOutside Char.isDigit (w ++ c :: cs) := by
  cases w with
  | nil => exact starts_outside_cons.mpr hc
  | cons d w => exact starts_outside_cons.mpr (is_digit_of_is_space (hw d List.mem_cons_self))

theorem Denotes.exists_cons {cs : List Char} {j : Json} (h : Denotes cs j) :
    ∃ c cs', cs = c :: cs' ∧ (c ∈ ['"', '[', '\x7b', '-'] ∨ c.isDigit = true) := by
  cases h with
  | natural h =>
    obtain ⟨d, ds, rfl, hd⟩ := h.exists_cons
    exact ⟨d, ds, rfl, .inr hd⟩
  | text | negative | emptyArray | array | emptyObject | object =>
    exact ⟨_, _, rfl, .inl (by decide)⟩

theorem Denotes.start {cs : List Char} {j : Json} (h : Denotes cs j) (rest : List Char) :
    ∃ c cs', cs ++ rest = c :: cs' ∧ isSpace c = false ∧ c ≠ ']' := by
  obtain ⟨c, cs', rfl, hc⟩ := h.exists_cons
  refine ⟨c, cs' ++ rest, rfl, ?_⟩
  rcases hc with hc | hc
  · simp only [List.mem_cons, List.not_mem_nil, or_false] at hc
    rcases hc with rfl | rfl | rfl | rfl <;> exact ⟨rfl, by decide⟩
  · constructor
    · cases hs : isSpace c with
      | false => rfl
      | true => rw [is_digit_of_is_space hs] at hc; cases hc
    · rintro rfl
      cases hc

theorem Member.start {cs : List Char} {m : String × Json} (h : Member cs m) (rest : List Char) :
    ∃ cs', cs ++ rest = '"' :: cs' := by
  cases h
  exact ⟨_, rfl⟩

theorem MoreItems.starts_outside {cs : List Char} {js : List Json} (h : MoreItems cs js)
    (rest : List Char) : StartsOutside Char.isDigit (cs ++ rest) := by
  cases h with
  | nil hw =>
    rw [List.append_assoc]
    exact starts_outside_is_digit hw (by decide) _
  | cons hw =>
    rw [List.append_assoc]
    exact starts_outside_is_digit hw (by decide) _

theorem MoreMembers.starts_outside {cs : List Char} {ms : List (String × Json)}
    (h : MoreMembers cs ms) (rest : List Char) : StartsOutside Char.isDigit (cs ++ rest) := by
  cases h with
  | nil hw =>
    rw [List.append_assoc]
    exact starts_outside_is_digit hw (by decide) _
  | cons hw =>
    rw [List.append_assoc]
    exact starts_outside_is_digit hw (by decide) _

section Lists

variable {α : Type} {close : Char} {item : List Char → Option (α × List Char)} {x : α}
  {xs : List α} {w w' cs r rest : List Char} {bound : Nat}

theorem read_more_nil (hw : Spaces w) (hc : isSpace close = false) :
    readMore close item (bound + 1) (w ++ close :: rest) = some ([], rest) := by
  rw [readMore, skip_space_append hw (starts_outside_cons.mpr hc)]
  exact if_pos rfl

theorem read_more_cons (hw : Spaces w) (hw' : Spaces w') (hc : ',' ≠ close)
    (hcs : StartsOutside isSpace cs) (hitem : item cs = some (x, r))
    (hmore : readMore close item bound r = some (xs, rest)) :
    readMore close item (bound + 1) (w ++ ',' :: (w' ++ cs)) = some (x :: xs, rest) := by
  have hcomma : skipSpace (w ++ ',' :: (w' ++ cs)) = ',' :: (w' ++ cs) :=
    skip_space_append hw (starts_outside_cons.mpr (by decide))
  rw [readMore, hcomma]
  dsimp only
  rw [if_neg hc, if_pos rfl, skip_space_append hw' hcs, hitem, Option.bind_some, hmore,
    Option.map_some]

theorem read_list_nil (hw : Spaces w) (hc : isSpace close = false) :
    readList close item bound (w ++ close :: rest) = some ([], rest) := by
  rw [readList, skip_space_append hw (starts_outside_cons.mpr hc)]
  exact if_pos rfl

theorem read_list_cons {c : Char} (hw : Spaces w) (hs : isSpace c = false) (hc : c ≠ close)
    (hitem : item (c :: cs) = some (x, r)) (hmore : readMore close item bound r = some (xs, rest)) :
    readList close item bound (w ++ c :: cs) = some (x :: xs, rest) := by
  rw [readList, skip_space_append hw (starts_outside_cons.mpr hs)]
  dsimp only
  rw [if_neg hc, hitem, Option.bind_some, hmore, Option.map_some]

end Lists

theorem read_value_natural {n : Nat} {ds rest : List Char} (h : Natural n ds)
    (hr : StartsOutside Char.isDigit rest) (bound : Nat) :
    readValue (bound + 1) (ds ++ rest) = some (.number n, rest) := by
  obtain ⟨d, ds', rfl, hd⟩ := h.exists_cons
  rw [readValue, read_natural_append h hr]
  case _ => rfl
  all_goals
    rintro cs ⟨⟩
    cases hd

/-! Every text of the grammar is read, whatever stands behind it. -/

mutual

theorem Denotes.read {cs rest : List Char} {j : Json} (h : Denotes cs j) (bound : Nat)
    (hb : cs.length ≤ bound) (hr : StartsOutside Char.isDigit rest) :
    readValue bound (cs ++ rest) = some (j, rest) := by
  obtain ⟨c, cs₀, hcons, -⟩ := h.exists_cons
  obtain ⟨bound, rfl⟩ : ∃ bound', bound = bound' + 1 :=
    Nat.exists_eq_succ_of_ne_zero (by rintro rfl; rw [hcons] at hb; cases hb)
  match h with
  | .text hq =>
    simp only [List.length_cons, List.length_append, List.length_nil] at hb
    simp only [List.cons_append, List.append_assoc, List.nil_append, readValue]
    rw [read_quoted_append hq (by omega)]
    rfl
  | .natural hn => exact read_value_natural hn hr bound
  | .negative hn =>
    simp only [List.cons_append, readValue]
    rw [read_natural_append hn hr]
    rfl
  | .emptyArray hw =>
    simp only [List.cons_append, List.append_assoc, List.nil_append, readValue]
    rw [read_list_nil hw (by decide)]
    rfl
  | @Denotes.array w cs cs' _ _ hw hj hs =>
    simp only [List.length_cons, List.length_append] at hb
    obtain ⟨c, cs₁, hstart, hspace, hc⟩ := hj.start (cs' ++ rest)
    have hitem := hj.read bound (by omega) (hs.starts_outside rest)
    have hmore := hs.read bound bound (by omega) (by omega) rest
    simp only [List.cons_append, List.append_assoc, readValue]
    rw [hstart] at hitem ⊢
    rw [read_list_cons hw hspace hc hitem hmore]
    rfl
  | .emptyObject hw =>
    simp only [List.cons_append, List.append_assoc, List.nil_append, readValue]
    rw [read_list_nil hw (by decide)]
    rfl
  | @Denotes.object w cs cs' _ _ hw hm hs =>
    simp only [List.length_cons, List.length_append] at hb
    obtain ⟨cs₁, hstart⟩ := hm.start (cs' ++ rest)
    have hitem := hm.read bound (by omega) (hs.starts_outside rest)
    have hmore := hs.read bound bound (by omega) (by omega) rest
    simp only [List.cons_append, List.append_assoc, readValue]
    rw [hstart] at hitem ⊢
    rw [read_list_cons hw (by decide) (by decide) hitem hmore]
    rfl

theorem Member.read {cs rest : List Char} {m : String × Json} (h : Member cs m) (bound : Nat)
    (hb : cs.length ≤ bound) (hr : StartsOutside Char.isDigit rest) :
    readMember bound (readValue bound) (cs ++ rest) = some (m, rest) := by
  match h with
  | @Member.mk ks key w w' cs _ hk hw hw' hj =>
    simp only [List.length_cons, List.length_append] at hb
    obtain ⟨c, cs₁, hstart, hspace, _⟩ := hj.start rest
    have hvalue := hj.read bound (by omega) hr
    have hcolon : StartsOutside isSpace (':' :: (w' ++ (cs ++ rest))) :=
      starts_outside_cons.mpr (by decide)
    have hskip : skipSpace (w' ++ (cs ++ rest)) = cs ++ rest :=
      skip_space_append hw' (hstart ▸ starts_outside_cons.mpr hspace)
    simp only [List.cons_append, List.append_assoc, readMember]
    rw [read_quoted_append hk (by omega)]
    dsimp only
    rw [skip_space_append hw hcolon]
    dsimp only
    rw [if_pos rfl, hskip, hvalue, Option.map_some]

theorem MoreItems.read {cs : List Char} {js : List Json} (h : MoreItems cs js)
    (bound bound' : Nat) (hb : cs.length ≤ bound) (hb' : cs.length ≤ bound') (rest : List Char) :
    readMore ']' (readValue bound) bound' (cs ++ rest) = some (js, rest) := by
  match h with
  | .nil hw =>
    simp only [List.length_append, List.length_cons, List.length_nil] at hb'
    obtain ⟨bound', rfl⟩ : ∃ n, bound' = n + 1 := Nat.exists_eq_succ_of_ne_zero (by omega)
    rw [List.append_assoc]
    exact read_more_nil hw (by decide)
  | @MoreItems.cons w w' cs cs' _ _ hw hw' hj hs =>
    simp only [List.length_cons, List.length_append] at hb hb'
    obtain ⟨bound', rfl⟩ : ∃ n, bound' = n + 1 := Nat.exists_eq_succ_of_ne_zero (by omega)
    obtain ⟨c, cs₁, hstart, hspace, _⟩ := hj.start (cs' ++ rest)
    have hitem := hj.read bound (by omega) (hs.starts_outside rest)
    have hmore := hs.read bound bound' (by omega) (by omega) rest
    simp only [List.cons_append, List.append_assoc]
    exact read_more_cons hw hw' (by decide) (hstart ▸ starts_outside_cons.mpr hspace) hitem hmore

theorem MoreMembers.read {cs : List Char} {ms : List (String × Json)} (h : MoreMembers cs ms)
    (bound bound' : Nat) (hb : cs.length ≤ bound) (hb' : cs.length ≤ bound') (rest : List Char) :
    readMore '\x7d' (readMember bound (readValue bound)) bound' (cs ++ rest) = some (ms, rest) := by
  match h with
  | .nil hw =>
    simp only [List.length_append, List.length_cons, List.length_nil] at hb'
    obtain ⟨bound', rfl⟩ : ∃ n, bound' = n + 1 := Nat.exists_eq_succ_of_ne_zero (by omega)
    rw [List.append_assoc]
    exact read_more_nil hw (by decide)
  | @MoreMembers.cons w w' cs cs' _ _ hw hw' hm hs =>
    simp only [List.length_cons, List.length_append] at hb hb'
    obtain ⟨bound', rfl⟩ : ∃ n, bound' = n + 1 := Nat.exists_eq_succ_of_ne_zero (by omega)
    obtain ⟨cs₁, hstart⟩ := hm.start (cs' ++ rest)
    have hitem := hm.read bound (by omega) (hs.starts_outside rest)
    have hmore := hs.read bound bound' (by omega) (by omega) rest
    have hquote : StartsOutside isSpace (cs ++ (cs' ++ rest)) := by
      rw [hstart]
      exact starts_outside_cons.mpr (by decide)
    simp only [List.cons_append, List.append_assoc]
    exact read_more_cons hw hw' (by decide) hquote hitem hmore

end

theorem Document.read {text : String} {j : Json} (h : Document text.toList j) :
    ofText? text = some j := by
  rw [ofText?]
  generalize text.toList = cs at h ⊢
  cases h with
  | @mk w w' cs _ hw hj hw' =>
    obtain ⟨c, cs₁, hstart, hspace, _⟩ := hj.start w'
    have hskip : skipSpace (w ++ (cs ++ w')) = cs ++ w' :=
      skip_space_append hw (hstart ▸ starts_outside_cons.mpr hspace)
    have hrest : StartsOutside Char.isDigit w' := by
      intro c hc
      exact is_digit_of_is_space (hw' c (List.mem_of_mem_head? hc))
    have hend : skipSpace w' = [] := by
      have := skip_space_append hw' (starts_outside_nil isSpace)
      rwa [List.append_nil] at this
    have hbound : cs.length ≤ (w ++ (cs ++ w')).length := by
      simp only [List.length_append]
      omega
    rw [hskip, hj.read _ hbound hrest]
    dsimp only
    rw [if_pos hend]

theorem Document.unique {text : String} {j j' : Json} (h : Document text.toList j)
    (h' : Document text.toList j') : j = j' :=
  Option.some_inj.mp (h.read.symm.trans h'.read)

example : ofText? "[ 1,\t\x7b\"\\u0041\" : \"\\uD83D\\ude00/\\/\"\x7d ]" =
    some (.array [.number 1, .object [("A", .text "😀//")]]) := by rfl

end Json

end DataLayout.Text
