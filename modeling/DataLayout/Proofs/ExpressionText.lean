import DataLayout.Proofs.Fragments
import DataLayout.Proofs.Precedence
import DataLayout.Proofs.SameValues

/-!
# The text of an expression

The text of an expression is read as an expression with the same values. It is the same expression
again except that a minus sign in front of a literal is read as part of the literal.
-/

set_option autoImplicit false

namespace DataLayout

open Lexeme

namespace Expr

def signed? : UnaryOp → Expr → Option Int64
  | .negate, .literal _ v => if 0 ≤ v then some (-v) else none
  | .negate, .constant _ _ | .negate, .unary _ _ _ | .negate, .binary _ _ _ _ => none
  | .complement, _ => none

def folded : Expr → Expr
  | .literal loc v => .literal loc v
  | .constant loc x => .constant loc x
  | .unary loc op e =>
    match signed? op e with
    | some v => .literal loc v
    | none => .unary loc op e.folded
  | .binary loc op l r => .binary loc op l.folded r.folded

theorem signed?_eq_some {op : UnaryOp} {e : Expr} {w : Int64} :
    signed? op e = some w ↔ ∃ loc v, op = .negate ∧ e = .literal loc v ∧ 0 ≤ v ∧ w = -v := by
  cases op with
  | negate =>
    cases e with
    | literal loc v => simp [signed?, eq_comm]
    | constant | unary | binary => simp [signed?]
  | complement => simp [signed?]

theorem value_folded {ε : Type} (arithmetic : Located ArithmeticError → ε)
    (name : Location → String → Except ε Int64) (e : Expr) :
    e.folded.value arithmetic name = e.value arithmetic name := by
  induction e with
  | literal | constant => rfl
  | unary loc op e ih =>
    rw [folded]
    cases hs : signed? op e with
    | some w =>
      obtain ⟨loc', v, rfl, rfl, -, rfl⟩ := signed?_eq_some.mp hs
      rfl
    | none =>
      dsimp only
      rw [value, value, ih]
  | binary loc op l r ihl ihr => rw [folded, value, value, ihl, ihr]

def Unsigned (e : Expr) : Prop :=
  ∀ loc loc' v, .unary loc .negate (.literal loc' v) ∈ e.nodes → v < 0

theorem mem_nodes (e : Expr) : e ∈ e.nodes := by
  cases e <;> exact List.mem_cons_self

theorem Unsigned.folded_eq {e : Expr} (h : e.Unsigned) : e.folded = e := by
  induction e with
  | literal | constant => rfl
  | unary loc op e ih =>
    have he : e.folded = e := ih fun l l' v hm => h l l' v (List.mem_cons_of_mem _ hm)
    rw [folded]
    cases hs : signed? op e with
    | some w =>
      obtain ⟨loc', v, rfl, rfl, hv, rfl⟩ := signed?_eq_some.mp hs
      have hneg := h loc loc' v (mem_nodes _)
      exact absurd hv (Int64.not_le.mpr hneg)
    | none =>
      dsimp only
      rw [he]
  | binary loc op l r ihl ihr =>
    have hl : l.folded = l := ihl fun l₁ l₂ v hm =>
      h l₁ l₂ v (List.mem_cons_of_mem _ (List.mem_append_left _ hm))
    have hr : r.folded = r := ihr fun l₁ l₂ v hm =>
      h l₁ l₂ v (List.mem_cons_of_mem _ (List.mem_append_right _ hm))
    rw [folded, hl, hr]

end Expr

/-! ## The symbols of an expression -/

namespace UnaryOp

def mark : UnaryOp → Mark
  | .negate => .minus
  | .complement => .tilde

theorem text_mark (op : UnaryOp) : op.mark.text = op.text := by
  cases op <;> rfl

end UnaryOp

namespace BinaryOp

def mark : BinaryOp → Mark
  | .add => .plus
  | .sub => .minus
  | .mul => .star
  | .div => .slash
  | .shiftLeft => .shiftLeft
  | .shiftRight => .shiftRight

theorem text_mark (op : BinaryOp) : op.mark.text = op.text := by
  cases op <;> rfl

theorem of_symbol?_mark (op : BinaryOp) : ofSymbol? (.mark op.mark) = some op := by
  cases op <;> rfl

end BinaryOp

namespace Expr

/-- The symbols of the text, in which every binary operation has parentheses. -/
def symbols : Expr → List Symbol
  | .literal _ v => [.integer v]
  | .constant _ x => [.identifier x]
  | .unary _ op e => .mark op.mark :: e.symbols
  | .binary _ op l r =>
    .mark .lparen :: (l.symbols ++ .mark op.mark :: (r.symbols ++ [.mark .rparen]))

def Writable (e : Expr) : Prop := ∀ s ∈ e.symbols, s.Writable

theorem Writable.operand {loc : Location} {op : UnaryOp} {e : Expr}
    (h : Writable (.unary loc op e)) : e.Writable :=
  fun s hs => h s (List.mem_cons_of_mem _ hs)

theorem writable_binary {loc : Location} {op : BinaryOp} {l r : Expr} :
    Writable (.binary loc op l r) ↔ l.Writable ∧ r.Writable := by
  simp only [Writable, symbols, List.forall_mem_cons, List.forall_mem_append]
  constructor
  · rintro ⟨-, hl, -, hr, -⟩
    exact ⟨hl, hr⟩
  · rintro ⟨hl, hr⟩
    exact ⟨trivial, hl, trivial, hr, trivial, by simp⟩

theorem Spelled.writable {level : Nat} {ts : List Token} {e : Expr} (h : Spelled level ts e)
    (hts : ∀ t ∈ ts, t.value.Writable) : e.Writable := by
  induction h with
  | literal => exact fun s hs => by simp_all [symbols, Symbol.Writable]
  | name =>
    intro s hs
    rw [List.mem_singleton.mp hs]
    exact hts _ List.mem_cons_self
  | group _ ih =>
    rw [List.forall_mem_cons, List.forall_mem_append] at hts
    exact ih hts.2.1
  | complement _ ih | negate _ ih =>
    rw [List.forall_mem_cons] at hts
    exact List.forall_mem_cons.mpr ⟨trivial, ih hts.2⟩
  | binary _ _ _ _ ihl ihr =>
    rw [List.forall_mem_append, List.forall_mem_cons] at hts
    exact writable_binary.mpr ⟨ihl hts.1, ihr hts.2.2⟩

theorem starts_outside_text {e : Expr} (hw : e.Writable) (hs : signed? .negate e = none)
    (rest : List Char) : Text.StartsOutside Char.isDigit (e.text.toList ++ rest) := by
  cases e with
  | literal loc v =>
    have hneg : v.toInt < 0 := by
      by_contra hv
      have hle : 0 ≤ v := Int64.le_iff_toInt_le.mpr (Int.not_lt.mp hv)
      rw [signed?, if_pos hle] at hs
      cases hs
    obtain ⟨n, hn⟩ := Int.eq_negSucc_of_lt_zero hneg
    rw [text, hn, Int.toString_eq_repr, to_list_repr_neg_succ]
    exact Text.starts_outside_cons.mpr (by decide)
  | constant loc x =>
    obtain ⟨hname, _, _⟩ := hw _ List.mem_cons_self
    obtain ⟨c, cs, hcs, hc⟩ := exists_cons_of_is_word hname
    rw [text, hcs]
    refine Text.starts_outside_cons.mpr ?_
    by_contra hd
    rw [(outside_of_is_digit (Bool.not_eq_false _ ▸ hd)).1] at hc
    cases hc
  | unary loc op e =>
    rw [text, String.toList_append]
    cases op <;> exact Text.starts_outside_cons.mpr (by decide)
  | binary loc op l r =>
    simp only [text, String.toList_append, List.append_assoc]
    exact Text.starts_outside_cons.mpr (by decide)

theorem spells_negated {v : Int64} (h : 0 ≤ v) :
    Spells (.integer (-v)) ('-' :: (toString v.toInt).toList) := by
  obtain ⟨n, hn⟩ := Int.eq_ofNat_of_zero_le (Int64.le_iff_toInt_le.mp h)
  have hv : (-v).toInt = -(n : Int) := by
    have hlt := v.toInt_lt
    rw [Int64.toInt_neg, hn]
    exact Int.bmod_eq_of_le (by omega) (by omega)
  rw [hn, Int.toString_eq_repr]
  exact .negative (numeral_repr n) hv

theorem symbols_ne_nil (e : Expr) : e.symbols ≠ [] := by
  cases e <;> exact List.cons_ne_nil _ _

theorem spells_to_text {e : Expr} (hw : e.Writable) {rest : List Char} (hr : Parted rest) :
    SpellsTo e.folded.symbols rest (e.text.toList ++ rest) := by
  induction e generalizing rest with
  | literal loc v => exact .one (spells_integer v) (hr _)
  | constant loc x =>
    obtain ⟨hname, hk, hp⟩ := hw _ List.mem_cons_self
    exact .one (.identifier hname hk hp) (hr _)
  | unary loc op e ih =>
    rw [folded, text, String.toList_append, List.append_assoc]
    cases hs : signed? op e with
    | some w =>
      obtain ⟨loc', v, rfl, rfl, hv, rfl⟩ := signed?_eq_some.mp hs
      exact .one (spells_negated hv) (hr _)
    | none =>
      rw [← op.text_mark]
      refine .cons (.mark op.mark) ?_ (ih hw.operand hr)
      cases op with
      | negate => exact starts_outside_text hw.operand hs rest
      | complement => exact fun _ _ => rfl
  | binary loc op l r ihl ihr =>
    obtain ⟨hl, hr'⟩ := writable_binary.mp hw
    have hclose : SpellsTo [.mark .rparen] rest (")".toList ++ rest) :=
      .one (.mark .rparen) (hr _)
    have hright := (ihr hr' (parted_mark .rparen (by decide))).append hclose
    have hop := SpellsTo.cons (.mark op.mark) (parted_space _)
      (hright.space (by simp [symbols_ne_nil]))
    have hleft := (ihl hl parted_space).append (hop.space (List.cons_ne_nil _ _))
    have h := SpellsTo.cons (.mark .lparen) (fun _ _ => rfl) hleft
    rw [op.text_mark] at h
    simp only [folded, symbols, text, String.toList_append, List.append_assoc]
    exact h

/-! ## Reading the symbols -/

theorem atom_start_unary (loc : Location) (op : UnaryOp) :
    AtomStart.ofToken? ⟨loc, .mark op.mark⟩ = some (.unary loc op) := by
  cases op <;> rfl

theorem read_atom_binary {ending : Ending} {loc loc' loc'' : Location} {op : BinaryOp} {l r : Expr}
    {ts ts' rest : List Token}
    (hl : ∀ rest, (readAtom ending (ts ++ rest)).Gives l rest)
    (hr : ∀ rest, (readAtom ending (ts' ++ rest)).Gives r rest) :
    (readAtom ending (⟨loc, .mark .lparen⟩ ::
      (ts ++ ⟨loc', .mark op.mark⟩ :: (ts' ++ ⟨loc'', .mark .rparen⟩ :: rest)))).Gives
        (.binary loc' op l r) rest := by
  have hclose : ∀ level e, (readOperators ending level e (⟨loc'', .mark .rparen⟩ :: rest)).Gives e
      (⟨loc'', .mark .rparen⟩ :: rest) := fun level e =>
    read_operators_gives.mpr (.inl ⟨rfl, rfl, stops_mark rfl, by simp⟩)
  have hright : (readBinary ending (op.precedence + 1)
      (ts' ++ ⟨loc'', .mark .rparen⟩ :: rest)).Gives r (⟨loc'', .mark .rparen⟩ :: rest) :=
    read_binary_gives.mpr ⟨r, _, hr _, hclose _ r⟩
  refine read_atom_gives.mpr (.inr (.inl ⟨_, _, loc'', rfl, rfl, ?_⟩))
  refine read_binary_gives.mpr ⟨l, _, hl _, ?_⟩
  exact read_operators_gives.mpr (.inr ⟨_, _, op, r, _, rfl, op.of_symbol?_mark, op.precedence_pos,
    hright, hclose 1 _⟩)

theorem read_atom_of_symbols (ending : Ending) {e : Expr} {ts : List Token}
    (h : ts.map Located.value = e.symbols) :
    ∃ e', (∀ loc, e'.placed loc = e.placed loc) ∧
      ∀ rest, (readAtom ending (ts ++ rest)).Gives e' rest := by
  induction e generalizing ts with
  | literal loc v =>
    obtain ⟨⟨loc', _⟩, rfl, rfl⟩ := List.map_eq_singleton_iff.mp h
    exact ⟨.literal loc' v, fun _ => rfl, fun rest => read_atom_gives.mpr (.inl ⟨_, rfl, rfl⟩)⟩
  | constant loc x =>
    obtain ⟨⟨loc', _⟩, rfl, rfl⟩ := List.map_eq_singleton_iff.mp h
    exact ⟨.constant loc' x, fun _ => rfl, fun rest => read_atom_gives.mpr (.inl ⟨_, rfl, rfl⟩)⟩
  | unary loc op e ih =>
    obtain ⟨⟨loc', _⟩, ts, rfl, rfl, hts⟩ := List.map_eq_cons_iff.mp h
    obtain ⟨e', hplaced, hread⟩ := ih hts
    refine ⟨.unary loc' op e', fun loc => ?_, fun rest => ?_⟩
    · rw [placed, placed, hplaced]
    · exact read_atom_gives.mpr (.inr (.inr ⟨_, _, loc', op, e', rfl, atom_start_unary loc' op,
        hread rest, rfl⟩))
  | binary loc op l r ihl ihr =>
    obtain ⟨⟨loc₁, _⟩, ts₁, rfl, rfl, h₁⟩ := List.map_eq_cons_iff.mp h
    obtain ⟨tl, ts₂, rfl, htl, h₂⟩ := List.map_eq_append_iff.mp h₁
    obtain ⟨⟨loc₂, _⟩, ts₃, rfl, rfl, h₃⟩ := List.map_eq_cons_iff.mp h₂
    obtain ⟨tr, ts₄, rfl, htr, h₄⟩ := List.map_eq_append_iff.mp h₃
    obtain ⟨⟨loc₃, _⟩, rfl, rfl⟩ := List.map_eq_singleton_iff.mp h₄
    obtain ⟨l', hl, hreadl⟩ := ihl htl
    obtain ⟨r', hr, hreadr⟩ := ihr htr
    refine ⟨.binary loc₂ op l' r', fun loc => ?_, fun rest => ?_⟩
    · rw [placed, placed, hl, hr]
    · rw [List.cons_append, List.append_assoc, List.cons_append, List.append_assoc,
        List.singleton_append]
      exact read_atom_binary hreadl hreadr

/-- The stream goes to the end of the file and all of it is read as the expression. -/
def ReadsWhole (stream : TokenStream) (e : Expr) : Prop :=
  (∃ loc, stream.ending = .eof loc) ∧ (read stream.ending stream.tokens).Gives e []

theorem reads_whole_of_symbols {stream : TokenStream} {e : Expr} (h : stream.Reads e.symbols) :
    ∃ e', (∀ loc, e'.placed loc = e.placed loc) ∧ ReadsWhole stream e' := by
  obtain ⟨⟨loc, hending⟩, hts⟩ := h
  obtain ⟨e', hplaced, hatom⟩ := read_atom_of_symbols stream.ending hts
  have hread := hatom []
  rw [List.append_nil] at hread
  have hlook : stream.ending.look = .ok () := by
    rw [hending]
    rfl
  refine ⟨e', hplaced, ⟨loc, hending⟩, read_binary_gives.mpr ⟨e', [], hread, ?_⟩⟩
  exact read_operators_gives.mpr (.inl ⟨rfl, rfl, by rintro t rest op ⟨⟩, fun _ => hlook⟩)

theorem same_value_of_folded {loc : Location} {e e' : Expr}
    (h : e.folded.placed loc = e'.placed loc) : e.SameValue e' := by
  intro name name' hname
  rw [← value_folded]
  exact same_value_of_placed loc h name name' hname

/-- The value of an expression among constants, met while the definitions at the positions
`underway` are being evaluated. -/
def valueAmong (constants : List Constant) (underway : List Nat) (e : Expr) :
    Except ResolveFailure Int64 :=
  e.value (Located.map .arithmetic)
    (Constant.valueOf (Constant.index constants) constants.length underway)

/-- The text of an expression that was read from a text can be read again, up to its end. It is
read as an expression that has the same value or the same error among all constants, and that may
replace the first one in the definition of a constant. Only a minus sign in front of a literal that
is not negative makes the two expressions differ in more than locations. -/
theorem text_read_again {file text : String} {before ts rest : List Token} {ending : Ending}
    {e : Expr} (hlexed : (TokenStream.ofText file text).tokens = before ++ ts)
    (hread : (read ending ts).Gives e rest) (file' : String) :
    ∃ e', ReadsWhole (TokenStream.ofText file' e.text) e' ∧
      (∀ constants underway,
        SameOutcome (e.valueAmong constants underway) (e'.valueAmong constants underway)) ∧
      (∀ (earlier later : List Constant) (c : Constant), c.expr = e →
        SameOutcome (Constant.values (earlier ++ c :: later))
          (Constant.values (earlier ++ { c with expr := e' } :: later))) ∧
      (e.Unsigned → ∀ loc, e'.placed loc = e.placed loc) := by
  obtain ⟨pre, hts, hspelled, _⟩ := (spelled_of_gives ending ts).2.2 1 e rest hread
  have hpre : ∀ t ∈ pre, t.value.Writable := by
    intro t ht
    apply TokenStream.of_text_writable file text
    rw [hlexed, hts]
    exact List.mem_append_right _ (List.mem_append_left _ ht)
  have hspells := spells_to_text (hspelled.writable hpre) parted_nil
  rw [List.append_nil] at hspells
  obtain ⟨e', hplaced, hwhole⟩ :=
    reads_whole_of_symbols (TokenStream.reads_of_spells_to hspells file')
  have hsame : e.SameValue e' := same_value_of_folded (hplaced default).symm
  refine ⟨e', hwhole, fun constants underway => ?_, fun earlier later c hc => ?_, fun hu => ?_⟩
  · exact hsame _ _ (Constant.value_of_restated (Constant.restated_refl constants) _ underway)
  · apply Constant.values_restated
    refine List.rel_append (Constant.restated_refl earlier)
      (.cons ⟨rfl, ?_⟩ (Constant.restated_refl later))
    rw [hc]
    exact hsame
  · rw [hu.folded_eq] at hplaced
    exact hplaced

def signedText : String := "x - - 7 * ~-(3 << - 0)"

def signedExpr : Expr :=
  .binary ⟨"a", 1⟩ .sub (.constant ⟨"a", 1⟩ "x")
    (.binary ⟨"a", 1⟩ .mul (.unary ⟨"a", 1⟩ .negate (.literal ⟨"a", 1⟩ 7))
      (.unary ⟨"a", 1⟩ .complement (.unary ⟨"a", 1⟩ .negate
        (.binary ⟨"a", 1⟩ .shiftLeft (.literal ⟨"a", 1⟩ 3)
          (.unary ⟨"a", 1⟩ .negate (.literal ⟨"a", 1⟩ 0))))))

theorem text_read_again_signed :
    signedExpr.text = "(x - (-7 * ~-(3 << -0)))" ∧
      ∃ e', ReadsWhole (TokenStream.ofText "b" signedExpr.text) e' ∧
        (∀ constants underway, SameOutcome (signedExpr.valueAmong constants underway)
          (e'.valueAmong constants underway)) ∧
        (∀ (earlier later : List Constant) (c : Constant), c.expr = signedExpr →
          SameOutcome (Constant.values (earlier ++ c :: later))
            (Constant.values (earlier ++ { c with expr := e' } :: later))) ∧
        (signedExpr.Unsigned → ∀ loc, e'.placed loc = signedExpr.placed loc) := by
  have hread : (read (TokenStream.ofText "a" signedText).ending
      (TokenStream.ofText "a" signedText).tokens).Gives signedExpr [] := by
    rw [Reading.gives_iff]
    decide +kernel
  exact ⟨by decide +kernel, text_read_again (List.nil_append _).symm hread "b"⟩

end Expr

end DataLayout
