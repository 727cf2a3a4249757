import DataLayout.Proofs.Safety

/-!
# Sinks that fill up

Output is written piece by piece to a sink that may have room for a part of it only. What the sink
has taken in the end is the front of the whole output, as far as there was room, and the failure is
that of the piece in which the room ran out.
-/

set_option autoImplicit false

namespace DataLayout

section Bytes

variable {a b : ByteArray} {n : Nat}

theorem extract_of_size_le (h : a.size ≤ n) : a.extract 0 n = a := by
  rw [← max_eq_left h, ByteArray.extract_zero_max_size]

theorem extract_append_of_size_le (h : a.size ≤ n) :
    (a ++ b).extract 0 n = a ++ b.extract 0 (n - a.size) := by
  rw [ByteArray.extract_append, extract_of_size_le h, Nat.zero_sub]

theorem extract_append_of_le_size (h : n ≤ a.size) : (a ++ b).extract 0 n = a.extract 0 n := by
  rw [ByteArray.extract_append, Nat.zero_sub, Nat.sub_eq_zero_of_le h, ByteArray.extract_same,
    ByteArray.append_empty]

end Bytes

def Piece.bytes (pieces : List Piece) : ByteArray := (String.join (pieces.map Piece.text)).toUTF8

theorem Piece.bytes_nil : bytes [] = ByteArray.empty := rfl

theorem Piece.bytes_cons (p : Piece) (pieces : List Piece) :
    bytes (p :: pieces) = p.text.toUTF8 ++ bytes pieces := by
  rw [bytes, List.map_cons, String.join_cons]
  exact String.toByteArray_append

namespace Sink

variable {taken : ByteArray} {n : Nat}

theorem write_of_room {text : String} (h : taken.size + text.toUTF8.size ≤ n) :
    write ⟨some n, taken⟩ text = (true, ⟨some n, taken ++ text.toUTF8⟩) := by
  have hroom : text.toUTF8.size ≤ n - taken.size := by omega
  simp only [write, hroom, extract_of_size_le hroom, decide_true]

theorem write_of_cut {text : String} (hn : taken.size ≤ n)
    (h : n < taken.size + text.toUTF8.size) :
    write ⟨some n, taken⟩ text = (false, ⟨some n, (taken ++ text.toUTF8).extract 0 n⟩) := by
  have hroom : ¬ text.toUTF8.size ≤ n - taken.size := by omega
  simp only [write, hroom, extract_append_of_size_le hn, decide_false]

theorem write_all_of_room {pieces : List Piece} (h : taken.size + (Piece.bytes pieces).size ≤ n) :
    writeAll ⟨some n, taken⟩ pieces = (none, ⟨some n, taken ++ Piece.bytes pieces⟩) := by
  induction pieces generalizing taken with
  | nil => rw [writeAll, Piece.bytes_nil, ByteArray.append_empty]
  | cons p pieces ih =>
    rw [Piece.bytes_cons, ByteArray.size_append] at h
    have hnext : (taken ++ p.text.toUTF8).size + (Piece.bytes pieces).size ≤ n := by
      rw [ByteArray.size_append]
      omega
    rw [writeAll, write_of_room (by omega)]
    dsimp only
    rw [ih hnext, Piece.bytes_cons, ByteArray.append_assoc]

theorem write_all_of_cut {pieces : List Piece} (hn : taken.size ≤ n)
    (h : n < taken.size + (Piece.bytes pieces).size) :
    ∃ front p behind, pieces = front ++ p :: behind ∧
      taken.size + (Piece.bytes front).size ≤ n ∧
      n < taken.size + (Piece.bytes front).size + p.text.toUTF8.size ∧
      writeAll ⟨some n, taken⟩ pieces =
        (some p.failure, ⟨some n, (taken ++ Piece.bytes pieces).extract 0 n⟩) := by
  induction pieces generalizing taken with
  | nil =>
    rw [Piece.bytes_nil, ByteArray.size_empty] at h
    omega
  | cons p pieces ih =>
    have hsize : (taken ++ p.text.toUTF8).size = taken.size + p.text.toUTF8.size :=
      ByteArray.size_append
    by_cases hp : taken.size + p.text.toUTF8.size ≤ n
    · -- the piece is taken, and the cut is behind it
      rw [Piece.bytes_cons, ByteArray.size_append] at h
      obtain ⟨front, q, behind, rfl, hfront, hq, hwrite⟩ := @ih (taken ++ p.text.toUTF8)
        (by omega) (by omega)
      refine ⟨p :: front, q, behind, rfl, ?_, ?_, ?_⟩
      · rw [Piece.bytes_cons, ByteArray.size_append]
        omega
      · rw [Piece.bytes_cons, ByteArray.size_append]
        omega
      · rw [writeAll, write_of_room hp]
        dsimp only
        rw [hwrite, Piece.bytes_cons, ByteArray.append_assoc]
    · have hcut : n < taken.size + p.text.toUTF8.size := Nat.lt_of_not_le hp
      have hfront : (taken ++ p.text.toUTF8 ++ Piece.bytes pieces).extract 0 n =
          (taken ++ p.text.toUTF8).extract 0 n := extract_append_of_le_size (by omega)
      refine ⟨[], p, pieces, rfl, ?_, ?_, ?_⟩
      · rwa [Piece.bytes_nil, ByteArray.size_empty, Nat.add_zero]
      · rwa [Piece.bytes_nil, ByteArray.size_empty, Nat.add_zero]
      · rw [writeAll, write_of_cut hn hcut, Piece.bytes_cons, ← ByteArray.append_assoc, hfront]

theorem limited_write_all_of_room {pieces : List Piece} (h : (Piece.bytes pieces).size ≤ n) :
    (limited n).writeAll pieces = (none, ⟨some n, Piece.bytes pieces⟩) := by
  have hroom : ByteArray.empty.size + (Piece.bytes pieces).size ≤ n := by
    rwa [ByteArray.size_empty, Nat.zero_add]
  rw [limited, write_all_of_room hroom, ByteArray.empty_append]

theorem limited_write_all_of_cut {pieces : List Piece} (h : n < (Piece.bytes pieces).size) :
    ∃ front p behind, pieces = front ++ p :: behind ∧ (Piece.bytes front).size ≤ n ∧
      n < (Piece.bytes front).size + p.text.toUTF8.size ∧
      (limited n).writeAll pieces =
        (some p.failure, ⟨some n, (Piece.bytes pieces).extract 0 n⟩) := by
  have hempty : ByteArray.empty.size ≤ n := Nat.zero_le n
  have hcut : n < ByteArray.empty.size + (Piece.bytes pieces).size := by
    rwa [ByteArray.size_empty, Nat.zero_add]
  simpa only [limited, ByteArray.size_empty, Nat.zero_add, ByteArray.empty_append] using
    write_all_of_cut hempty hcut

end Sink

namespace Format

variable {u : CompilationUnit} {format : Format} {pieces : List Piece} {n : Nat}

theorem pieces_of_not_resolved (h : u.resolved = false) (format : Format) :
    format.pieces u = .error .notResolved := by
  have hcheck : u.checkResolved = .error .notResolved := by
    rw [CompilationUnit.checkResolved, h]
    rfl
  cases format with
  | asm68k => rw [pieces, Assembly.lines, hcheck]; rfl
  | cheader => rw [pieces, Header.lines, hcheck]; rfl
  | layout => rw [pieces, Report.ofUnit, hcheck]; rfl

theorem failure_of_lines (h : format.pieces u = .ok pieces) (hf : format ≠ .layout) :
    ∀ p ∈ pieces, p.failure = .sinkFull := by
  have hlines : ∃ lines : List String, pieces = lines.map Piece.line := by
    cases format with
    | asm68k =>
      obtain ⟨lines, _, hp⟩ := except_map_eq_ok.mp h
      exact ⟨lines, hp.symm⟩
    | cheader =>
      obtain ⟨lines, _, hp⟩ := except_map_eq_ok.mp h
      exact ⟨lines, hp.symm⟩
    | layout => exact absurd rfl hf
  obtain ⟨lines, rfl⟩ := hlines
  intro p hp
  obtain ⟨line, _, rfl⟩ := List.mem_map.mp hp
  rfl

/-- The text of a report ends in a line end, which is a piece of its own. A cut is in the text if
there is too little room for it, and else in the line end. -/
theorem layout_failure {front behind : List Piece} {p : Piece}
    (h : Format.layout.pieces u = .ok pieces) (hp : pieces = front ++ p :: behind)
    (hfront : (Piece.bytes front).size ≤ n)
    (hcut : n < (Piece.bytes front).size + p.text.toUTF8.size) :
    (p.failure = .jsonSinkFull ∧ n + 1 < (Piece.bytes pieces).size) ∨
      (p.failure = .sinkFull ∧ n + 1 = (Piece.bytes pieces).size) := by
  obtain ⟨report, _, hpieces⟩ := except_map_eq_ok.mp h
  have hsize : (Piece.bytes pieces).size = (report.json.pretty 0).toUTF8.size + 1 := by
    rw [← hpieces, Report.pieces, Piece.bytes_cons, ByteArray.size_append]
    rfl
  rw [hp, Report.pieces] at hpieces
  cases front with
  | nil =>
    cases hpieces
    rw [Piece.bytes_nil, ByteArray.size_empty] at hcut
    dsimp only at hcut
    exact .inl ⟨rfl, by omega⟩
  | cons q front =>
    cases front with
    | nil =>
      cases hpieces
      rw [Piece.bytes_cons, Piece.bytes_nil, ByteArray.append_empty] at hfront hcut
      have hline : "\n".toUTF8.size = 1 := rfl
      dsimp only at hfront hcut
      exact .inr ⟨rfl, by omega⟩
    | cons r front =>
      have hlength := congrArg List.length hpieces
      simp only [List.length_cons, List.length_append, List.length_nil] at hlength
      omega

/-- What comes of writing a whole output `full` to a sink that has room for `n` bytes. The failure
tells in a report whether its text or only the end of its last line was cut. -/
structure CutAt (format : Format) (n : Nat) (full : ByteArray)
    (outcome : Option EmitError × Sink) : Prop where
  taken : outcome.2.taken = full.extract 0 (min n full.size)
  succeeds : outcome.1 = none ↔ full.size ≤ n
  lines : format ≠ .layout → n < full.size → outcome.1 = some .sinkFull
  json : format = .layout → n + 1 < full.size → outcome.1 = some .jsonSinkFull
  lineEnd : format = .layout → n + 1 = full.size → outcome.1 = some .sinkFull

theorem emit_cut_at (h : format.pieces u = .ok pieces) (n : Nat) :
    format.CutAt n (Piece.bytes pieces) (format.emit u (.limited n)) := by
  rw [emit, h]
  dsimp only
  by_cases hn : (Piece.bytes pieces).size ≤ n
  · rw [Sink.limited_write_all_of_room hn]
    constructor
    case taken => rw [min_eq_right hn, ByteArray.extract_zero_size]
    case succeeds => exact iff_of_true rfl hn
    all_goals intro _ hlt; omega
  · obtain ⟨front, p, behind, hp, hfront, hcut, hwrite⟩ :=
      Sink.limited_write_all_of_cut (Nat.lt_of_not_le hn)
    rw [hwrite]
    constructor
    case taken => rw [min_eq_left (by omega)]
    case succeeds => exact iff_of_false (Option.some_ne_none p.failure) hn
    case lines =>
      intro hf _
      rw [failure_of_lines h hf p (by rw [hp]; exact List.mem_append_right _ List.mem_cons_self)]
    case json =>
      rintro rfl hlt
      rcases layout_failure h hp hfront hcut with ⟨hfail, _⟩ | ⟨_, hend⟩
      · rw [hfail]
      · omega
    case lineEnd =>
      rintro rfl hend
      rcases layout_failure h hp hfront hcut with ⟨_, hlt⟩ | ⟨hfail, _⟩
      · omega
      · rw [hfail]

end Format

/-- A unit that is resolved is written whole to a sink without a limit, and to a sink with one its
output is written from the front until the sink is full. Of a unit that is not resolved nothing is
written. -/
theorem emit_leaves_front (u : CompilationUnit) (format : Format) :
    (u.resolved = false → ∀ s, format.emit u s = (some .notResolved, s)) ∧
    ∀ sources, Obtained sources u → u.resolved = true →
      ∃ text, format.text u = .ok text ∧
        format.emit u .unlimited = (none, ⟨none, text.toUTF8⟩) ∧
        ∀ n, format.CutAt n text.toUTF8 (format.emit u (.limited n)) := by
  refine ⟨fun hu s => ?_, fun sources hu hr => ?_⟩
  · rw [Format.emit, Format.pieces_of_not_resolved hu]
  · obtain ⟨pieces, hp⟩ := (hu.complete hr).exists_pieces hr format
    obtain ⟨text, htext, hfull⟩ := Format.emit_unlimited hp
    have hbytes : text.toUTF8 = Piece.bytes pieces := by
      rw [Format.text, hp] at htext
      cases htext
      rfl
    exact ⟨text, htext, hfull, fun n => hbytes ▸ Format.emit_cut_at hp n⟩

def constantUnit : CompilationUnit :=
  ⟨"a", [], [], [⟨⟨"a", 1⟩, "K", .literal ⟨"a", 1⟩ 3, false⟩], [], [(0, 3)], true⟩

theorem obtained_constant_unit : Obtained MemorySources.empty.sources constantUnit := by
  have hload : ((Loader.ofSources MemorySources.empty.sources).load
      ⟨"a", "a", "const K=3"⟩).1.toOption =
        some { constantUnit with values := [], resolved := false } := by decide +kernel
  have hresolve : constantUnit =
      (CompilationUnit.resolve { constantUnit with values := [], resolved := false }).state := by
    decide +kernel
  rw [hresolve]
  exact .resolved (.loaded (except_to_option_eq_some.mp hload))

/-- One byte less than a report has fails at the end of its last line, and one less than that in
the text. Lines fail alike wherever they are cut. -/
theorem emit_leaves_front_constant : Obtained MemorySources.empty.sources constantUnit ∧
    constantUnit.resolved = true ∧
    ∃ text, Format.layout.text constantUnit = .ok text ∧ text.toUTF8.size = 105 ∧
      (Format.layout.emit constantUnit (.limited 105)).1 = none ∧
      (Format.layout.emit constantUnit (.limited 104)).1 = some .sinkFull ∧
      (Format.layout.emit constantUnit (.limited 103)).1 = some .jsonSinkFull ∧
      (Format.layout.emit constantUnit (.limited 103)).2.taken = text.toUTF8.extract 0 103 ∧
      (Format.asm68k.emit constantUnit (.limited 20)).1 = some .sinkFull ∧
      Format.cheader.emit (.empty "a") (.limited 7) = (some .notResolved, .limited 7) := by
  obtain ⟨text, htext, _, hreport⟩ :=
    (emit_leaves_front constantUnit .layout).2 _ obtained_constant_unit rfl
  obtain ⟨lines, hlines, _, hequates⟩ :=
    (emit_leaves_front constantUnit .asm68k).2 _ obtained_constant_unit rfl
  have hsizes : ((Format.layout.text constantUnit).toOption.any (·.toUTF8.size == 105) &&
      (Format.asm68k.text constantUnit).toOption.any (20 < ·.toUTF8.size)) = true := by
    decide +kernel
  rw [htext, hlines, Bool.and_eq_true] at hsizes
  have hsize : text.toUTF8.size = 105 := beq_iff_eq.mp hsizes.1
  have hlong : 20 < lines.toUTF8.size := of_decide_eq_true hsizes.2
  refine ⟨obtained_constant_unit, rfl, text, htext, hsize, ?_, ?_, ?_, ?_, ?_, ?_⟩
  · exact (hreport 105).succeeds.mpr (by omega)
  · exact (hreport 104).lineEnd rfl (by omega)
  · exact (hreport 103).json rfl (by omega)
  · rw [(hreport 103).taken, hsize]
    rfl
  · exact (hequates 20).lines (by decide) hlong
  · exact (emit_leaves_front (.empty "a") .cheader).1 rfl _

end DataLayout
