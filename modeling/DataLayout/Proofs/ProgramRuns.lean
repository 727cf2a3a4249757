import DataLayout.CommandLine.Program
import DataLayout.Proofs.FileTrees
import DataLayout.Proofs.ReportedNumbers
import DataLayout.Proofs.Safety

/-!
# Runs of the program

A run either writes nothing, because the compilation failed, or it writes the files that were asked
for in order, up to the first that cannot be written. A file is made, written and flushed, each of
which can fail, and what was done before a failure stays.
-/

set_option autoImplicit false

namespace DataLayout

namespace Device

variable {d : Device} {t t' : FileTree} {path : String} {content : ByteArray}
  {r : Option FileError}

/-- What comes of writing a file: the tree, and the error of the step that failed, if one did. The
path may lead to no place for a file, the file may not be made, it may be written in part, or whole
but not flushed. -/
inductive Writes (d : Device) (t : FileTree) (path : String) (content : ByteArray) :
    FileTree → Option FileError → Prop
  | nowhere {e : FileError} (hplace : t.destination path = .error e) :
      Writes d t path content t (some e)
  | refused {place : Place} {e : FileError} (hplace : t.destination path = .ok place)
      (hmake : d.refusal t place = some e) : Writes d t path content t (some e)
  | short {place : Place} {taken : Nat} {e : FileError} (hplace : t.destination path = .ok place)
      (hmake : d.refusal t place = none)
      (hwrite : d.shortage (t.put place (.file .empty)) place content = some (taken, e)) :
      Writes d t path content (t.put place (.file (content.extract 0 taken))) (some e)
  | unflushed {place : Place} {e : FileError} (hplace : t.destination path = .ok place)
      (hmake : d.refusal t place = none)
      (hwrite : d.shortage (t.put place (.file .empty)) place content = none)
      (hflush : d.loss (t.put place (.file content)) place = some e) :
      Writes d t path content (t.put place (.file content)) (some e)
  | whole {place : Place} (hplace : t.destination path = .ok place)
      (hmake : d.refusal t place = none)
      (hwrite : d.shortage (t.put place (.file .empty)) place content = none)
      (hflush : d.loss (t.put place (.file content)) place = none) :
      Writes d t path content (t.put place (.file content)) none

theorem Writes.eq (h : d.Writes t path content t' r) : d.writeFile t path content = (t', r) := by
  cases h with
  | nowhere hplace => simp only [writeFile, create, hplace]
  | refused hplace hmake => simp only [writeFile, create, hplace, hmake]
  | short hplace hmake hwrite =>
    simp only [writeFile, create, hplace, hmake, writeAll, hwrite, FileTree.put_put]
  | unflushed hplace hmake hwrite hflush | whole hplace hmake hwrite hflush =>
    simp only [writeFile, create, hplace, hmake, writeAll, hwrite, FileTree.put_put, flush, hflush]

theorem exists_writes (d : Device) (t : FileTree) (path : String) (content : ByteArray) :
    ∃ t' r, d.Writes t path content t' r := by
  cases hplace : t.destination path with
  | error e => exact ⟨_, _, .nowhere hplace⟩
  | ok place =>
    cases hmake : d.refusal t place with
    | some e => exact ⟨_, _, .refused hplace hmake⟩
    | none =>
      cases hwrite : d.shortage (t.put place (.file .empty)) place content with
      | some failure => exact ⟨_, _, .short hplace hmake hwrite⟩
      | none =>
        cases hflush : d.loss (t.put place (.file content)) place with
        | some e => exact ⟨_, _, .unflushed hplace hmake hwrite hflush⟩
        | none => exact ⟨_, _, .whole hplace hmake hwrite hflush⟩

theorem Writes.eq_put (h : d.Writes t path content t' none) :
    ∃ place, t.destination path = .ok place ∧ t' = t.put place (.file content) := by
  cases h with
  | whole hplace => exact ⟨_, hplace, rfl⟩

/-- Whatever fails, no place changes but the one that the path leads to. -/
theorem Writes.lookup_eq (h : d.Writes t path content t' r) {place : Place}
    (hother : t.destination path ≠ .ok place) : t'.lookup place = t.lookup place := by
  have hput : ∀ {place'} (content' : ByteArray), t.destination path = .ok place' →
      (t.put place' (.file content')).lookup place = t.lookup place := by
    intro place' content' hplace
    have hne : place ≠ place' := by
      rintro rfl
      exact hother hplace
    rw [FileTree.lookup_put (FileTree.destination_writable hplace).ne_nil, if_neg hne]
  cases h with
  | nowhere | refused => rfl
  | short hplace | unflushed hplace | whole hplace => exact hput _ hplace

end Device

namespace CommandLine

variable {d : Device} {t t' : FileTree} {files : List OutputFile} {o : Options}
  {u : CompilationUnit}

def Apart (t : FileTree) (files : List OutputFile) : Prop :=
  files.Pairwise fun file other => ∀ place,
    ¬(t.destination file.path = .ok place ∧ t.destination other.path = .ok place)

structure Wrote (t : FileTree) (files : List OutputFile) (t' : FileTree) : Prop where
  same : t.SameButFiles t'
  /-- The path of each file leads to its text, if none was overwritten by another. -/
  read : Apart t files → ∀ file ∈ files, t'.read file.path = .ok file.text.toUTF8
  unchanged : ∀ place, (∀ file ∈ files, t.destination file.path ≠ .ok place) →
    t'.lookup place = t.lookup place

theorem wrote_nil (t : FileTree) : Wrote t [] t where
  same := ⟨rfl, fun _ => .inl rfl⟩
  read _ file hm := by cases hm
  unchanged _ _ := rfl

theorem wrote_cons {file : OutputFile} {place : Place}
    (hplace : t.destination file.path = .ok place)
    (h : Wrote (t.put place (.file file.text.toUTF8)) files t') : Wrote t (file :: files) t' where
  same := ((FileTree.destination_writable hplace).same_but_files_put _).trans h.same
  read hapart other hm := by
    have hw := FileTree.destination_writable hplace
    have hput := hw.same_but_files_put file.text.toUTF8
    obtain ⟨hfirst, hrest⟩ := List.pairwise_cons.mp hapart
    rcases List.mem_cons.mp hm with rfl | hm
    · -- none of the later files is written to the place of the first
      have hlookup := h.unchanged place fun other hother hdest =>
        hfirst other hother place ⟨hplace, hput.destination_eq_ok_iff.mp hdest⟩
      rw [FileTree.lookup_put hw.ne_nil, if_pos rfl] at hlookup
      exact FileTree.read_of_destination hlookup
        ((hput.trans h.same).destination_eq_ok_iff.mpr hplace)
    · refine h.read ?_ other hm
      rw [Apart]
      simp only [hput.destination_eq_ok_iff]
      exact hrest
  unchanged other hother := by
    have hw := FileTree.destination_writable hplace
    have hput := hw.same_but_files_put file.text.toUTF8
    obtain ⟨hfirst, hrest⟩ := List.forall_mem_cons.mp hother
    have hne : other ≠ place := by
      rintro rfl
      exact hfirst hplace
    rw [h.unchanged other fun file hm hdest => hrest file hm (hput.destination_eq_ok_iff.mp hdest),
      FileTree.lookup_put hw.ne_nil, if_neg hne]

/-- Files are written one after another, and no step of it fails. -/
inductive WritesAll (d : Device) : FileTree → List OutputFile → FileTree → Prop
  | nil (t : FileTree) : WritesAll d t [] t
  | cons {t t₁ t₂ : FileTree} {file : OutputFile} {files : List OutputFile}
      (hfile : d.Writes t file.path file.text.toUTF8 t₁ none) (hfiles : WritesAll d t₁ files t₂) :
      WritesAll d t (file :: files) t₂

theorem WritesAll.wrote (h : WritesAll d t files t') : Wrote t files t' := by
  induction h with
  | nil t => exact wrote_nil t
  | cons hfile _ ih =>
    obtain ⟨place, hplace, rfl⟩ := hfile.eq_put
    exact wrote_cons hplace ih

/-- Files are written in order, up to the first that a step fails for. -/
theorem write_files_spec (d : Device) (t : FileTree) (files : List OutputFile) :
    (WritesAll d t files (writeFiles d t files).tree ∧ (writeFiles d t files).code = .success) ∨
    ∃ done file left t₁ e, files = done ++ file :: left ∧ WritesAll d t done t₁ ∧
      d.Writes t₁ file.path file.text.toUTF8 (writeFiles d t files).tree (some e) ∧
      (writeFiles d t files).code = .writing := by
  induction files generalizing t with
  | nil => exact .inl ⟨.nil t, rfl⟩
  | cons file files ih =>
    obtain ⟨t₁, r, hfile⟩ := d.exists_writes t file.path file.text.toUTF8
    rw [writeFiles, hfile.eq]
    cases r with
    | some e => exact .inr ⟨[], file, files, t, e, rfl, .nil t, hfile, rfl⟩
    | none =>
      rcases ih t₁ with ⟨hall, hcode⟩ | ⟨done, other, left, t₂, e, rfl, hdone, hother, hcode⟩
      · exact .inl ⟨.cons hfile hall, hcode⟩
      · exact .inr ⟨file :: done, other, left, t₂, e, rfl, .cons hfile hdone, hother, hcode⟩

/-- The files that a run writes: the output file and then the report, if there is to be one. -/
def Options.outputs (o : Options) (text report : String) : List OutputFile :=
  ⟨o.output, text⟩ :: (o.emitLayout.map fun path => ⟨path, report⟩).toList

/-- How a run ends that has all its texts: every file was written, or a step of writing the output
file failed and the report was not begun, or the output file was written and a step of writing the
report failed. -/
inductive Delivers (d : Device) (t : FileTree) (o : Options) (text report : String)
    (out : Outcome) : Prop
  | written (hcode : out.code.toNat = 0) (hsteps : WritesAll d t (o.outputs text report) out.tree)
      (hwrote : Wrote t (o.outputs text report) out.tree)
  | output_failed {e : FileError} (hcode : out.code.toNat = 4)
      (hfails : d.Writes t o.output text.toUTF8 out.tree (some e))
      (hothers : ∀ place, t.destination o.output ≠ .ok place →
        out.tree.lookup place = t.lookup place)
  | report_failed {path : String} {t₁ : FileTree} {e : FileError} (hcode : out.code.toNat = 4)
      (hlayout : o.emitLayout = some path) (houtput : d.Writes t o.output text.toUTF8 t₁ none)
      (hwrote : Wrote t [⟨o.output, text⟩] t₁)
      (hfails : d.Writes t₁ path report.toUTF8 out.tree (some e))
      (hothers : ∀ place, t.destination path ≠ .ok place →
        out.tree.lookup place = t₁.lookup place)

theorem write_files_delivers (d : Device) (t : FileTree) (o : Options) (text report : String) :
    Delivers d t o text report (writeFiles d t (o.outputs text report)) := by
  have hspec := write_files_spec d t (o.outputs text report)
  generalize writeFiles d t (o.outputs text report) = out at hspec ⊢
  rcases hspec with ⟨hall, hcode⟩ | ⟨done, file, left, t₁, e, hfiles, hdone, hfile, hcode⟩
  · exact .written (by rw [hcode]; rfl) hall hall.wrote
  have hfour : out.code.toNat = 4 := by
    rw [hcode]
    rfl
  rw [Options.outputs] at hfiles
  cases hdone with
  | nil =>
    cases hfiles
    exact .output_failed hfour hfile fun _ => hfile.lookup_eq
  | @cons _ t₂ _ first rest hfirst hrest =>
    obtain ⟨rfl, hreport⟩ := List.cons_eq_cons.mp hfiles
    -- there is one file behind the output file at most, so none was written in between
    cases hlayout : o.emitLayout with
    | none => simp [hlayout] at hreport
    | some path =>
      rw [hlayout] at hreport
      cases hrest with
      | nil =>
        cases hreport
        have hwrote := (WritesAll.cons hfirst (.nil _)).wrote
        refine .report_failed hfour hlayout hfirst hwrote hfile fun place hother => ?_
        exact hfile.lookup_eq fun h => hother (hwrote.same.destination_eq_ok_iff.mp h)
      | cons => simp at hreport

theorem run_eq_write_files {text report : String}
    (hu : compile (t.sources o.includeDirs) o.input = .ok u)
    (htext : o.generator.text u = .ok text) (hreport : Format.layout.text u = .ok report) :
    run d t o = writeFiles d t (o.outputs text report) := by
  have hfiles : outputFiles (t.sources o.includeDirs) o = .ok (o.outputs text report) := by
    simp only [outputFiles, hu, outputFile, htext, hreport, Options.outputs]
    cases o.emitLayout <;> rfl
  unfold run
  rw [hfiles]

theorem exists_text {sources : Sources} {path : String} (h : compile sources path = .ok u)
    (format : Format) : ∃ text, format.text u = .ok text := by
  obtain ⟨source, u₀, _, hload, hdone⟩ := compile_eq_ok.mp h
  have hr := CompilationUnit.resolved_of_resolve hdone
  have hstate : u₀.resolve.state = u := by rw [hdone]; rfl
  have hu : Obtained sources u := hstate ▸ .resolved (.loaded hload)
  obtain ⟨pieces, hpieces⟩ := (hu.complete hr).exists_pieces hr format
  exact ⟨_, except_map_eq_ok.mpr ⟨pieces, hpieces, rfl⟩⟩

theorem check_flag_of_check_flags {m : Matches} {flags : List Flag} {flag : Flag}
    (h : m.checkFlags flags = .ok ()) (hm : flag ∈ flags) : m.checkFlag flag = .ok () := by
  induction flags with
  | nil => cases hm
  | cons first flags ih =>
    rw [Matches.checkFlags] at h
    cases hfirst : m.checkFlag first with
    | error e => simp [hfirst] at h
    | ok _ =>
      rw [hfirst] at h
      rcases List.mem_cons.mp hm with rfl | hm
      · exact hfirst
      · exact ih h hm

theorem allows_of_check_flag {m : Matches} {flag : Flag} (h : m.checkFlag flag = .ok ())
    (hgiven : flag ∈ m.given) : ∀ value ∈ m.valuesOf flag, flag.allows value = true := by
  rw [Matches.checkFlag] at h
  split_ifs at h with hmissing hempty hinvalid hrepeated
  · simp [hgiven] at hmissing
  · simpa using hinvalid

theorem generator_of_options {m : Matches} (h : m.options = .ok o) :
    o.generator = .asm68k ∨ o.generator = .cheader := by
  obtain ⟨_, hrequired, h⟩ := except_bind_eq_ok.mp h
  obtain ⟨_, _, h⟩ := except_bind_eq_ok.mp h
  obtain ⟨_, hflags, h⟩ := except_bind_eq_ok.mp h
  have hgiven : .generator ∈ m.given := by
    rw [Matches.checkRequired] at hrequired
    split_ifs at hrequired with hall
    simp only [Bool.and_eq_true, List.contains_iff_mem] at hall
    exact hall.2
  have hallows := allows_of_check_flag (check_flag_of_check_flags hflags (by decide)) hgiven
  have hoptions : m.options? = some o := by
    cases ho : m.options? with
    | none => simp [ho] at h
    | some o' =>
      rw [ho] at h
      cases h
      rfl
  rw [Matches.options?] at hoptions
  simp only [Option.bind_eq_bind, Option.bind_eq_some_iff, Option.pure_def, Option.some.injEq]
    at hoptions
  obtain ⟨_, _, _, _, generator, ⟨name, hname, hgenerator⟩, rfl⟩ := hoptions
  have hallowed := hallows name (List.mem_of_mem_head? hname)
  rw [Flag.allows, Bool.or_eq_true, beq_iff_eq, beq_iff_eq] at hallowed
  rcases hallowed with rfl | rfl <;> cases hgenerator
  · exact .inl rfl
  · exact .inr rfl

theorem generator_of_of_words {words : List String} (h : Options.ofWords words = .ok o) :
    o.generator = .asm68k ∨ o.generator = .cheader := by
  rw [Options.ofWords] at h
  cases hm : Matches.empty.words words with
  | error e => simp [hm] at h
  | ok m =>
    rw [hm] at h
    exact generator_of_options h

theorem run_of_compile_error {e : CompileError}
    (h : compile (t.sources o.includeDirs) o.input = .error e) :
    (run d t o).tree = t ∧ (run d t o).code = exitCode e := by
  have hfiles : outputFiles (t.sources o.includeDirs) o = .error ⟨e.message, exitCode e⟩ := by
    simp only [outputFiles, h]
  unfold run
  rw [hfiles]
  exact ⟨rfl, rfl⟩

/-- The program writes no file before it has compiled the input and made all its output. Its exit
code says what has failed. -/
theorem run_writes_last (d : Device) (t : FileTree) (words : List String) (o : Options)
    (h : Options.ofWords words = .ok o) :
    (∀ e, (t.sources o.includeDirs).fetch none o.input = .error e →
      (run d t o).tree = t ∧ (run d t o).code.toNat = 1) ∧
    (∀ source f, (t.sources o.includeDirs).fetch none o.input = .ok source →
      ((Loader.ofSources (t.sources o.includeDirs)).load source).1 = .error f →
      (run d t o).tree = t ∧ ((∃ e, f.value = .lexical e) → (run d t o).code.toNat = 5) ∧
        ((∀ e, f.value ≠ .lexical e) → (run d t o).code.toNat = 3)) ∧
    (∀ source u f, (t.sources o.includeDirs).fetch none o.input = .ok source →
      ((Loader.ofSources (t.sources o.includeDirs)).load source).1 = .ok u →
      u.resolve.failure = some f → (run d t o).tree = t ∧ (run d t o).code.toNat = 2) ∧
    ∀ u, compile (t.sources o.includeDirs) o.input = .ok u →
      (o.generator = .asm68k ∨ o.generator = .cheader) ∧
      ∃ text report, o.generator.text u = .ok text ∧ Format.layout.text u = .ok report ∧
        Delivers d t o text report (run d t o) := by
  refine ⟨fun e he => ?_, fun source f hs hf => ?_, fun source u f hs hl hf => ?_, fun u hu => ?_⟩
  · have hcompile : compile (t.sources o.includeDirs) o.input = .error (.source o.input e) := by
      simp only [compile, he]
    obtain ⟨htree, hcode⟩ := run_of_compile_error hcompile
    exact ⟨htree, by rw [hcode]; rfl⟩
  · have hcompile : compile (t.sources o.includeDirs) o.input = .error (.parse f) := by
      simp only [compile, hs, hf]
    obtain ⟨htree, hcode⟩ := run_of_compile_error hcompile
    refine ⟨htree, ?_, ?_⟩
    · rintro ⟨e, he⟩
      rw [hcode, exitCode, he]
      rfl
    · intro hne
      rw [hcode, exitCode]
      split
      · next e he => exact absurd he (hne e)
      · rfl
  · have hcompile : compile (t.sources o.includeDirs) o.input = .error (.resolve f) := by
      have hresolve : u.resolve = ⟨u.resolve.state, some f⟩ := by rw [← hf]
      simp only [compile, hs, hl]
      rw [hresolve]
    obtain ⟨htree, hcode⟩ := run_of_compile_error hcompile
    exact ⟨htree, by rw [hcode]; rfl⟩
  · obtain ⟨text, htext⟩ := exists_text hu o.generator
    obtain ⟨report, hreport⟩ := exists_text hu .layout
    refine ⟨generator_of_of_words h, text, report, htext, hreport, ?_⟩
    rw [run_eq_write_files hu htext hreport]
    exact write_files_delivers d t o text report

def linkedTree : FileTree :=
  ⟨[(["w"], .directory), (["w", "a"], .file "const A=1".toUTF8), (["w", "l"], .link "h")], ["w"]⟩

def linkedOptions : Options := ⟨"a", "l", .cheader, [], some "a", none⟩

/-- A device on which there is room for three bytes of the file that is the input. -/
def crampedDevice : Device :=
  ⟨fun _ _ => none,
    fun _ place _ =>
      if place = ["w", "a"] then some (3, .other "No space left on device") else none,
    fun _ _ => none⟩

/-- The header is written through the link, and then the report is written over the input, or the
first three bytes of it. -/
theorem run_writes_last_linked : ∃ o u text report,
    Options.ofWords ["a", "-o", "l", "-g", "cheader", "--emit-layout", "a"] = .ok o ∧
    compile (linkedTree.sources o.includeDirs) o.input = .ok u ∧
    Format.cheader.text u = .ok text ∧ Format.layout.text u = .ok report ∧
    (run .reliable linkedTree o).code.toNat = 0 ∧
    (run .reliable linkedTree o).tree.read "l" = .ok text.toUTF8 ∧
    (run .reliable linkedTree o).tree.read "a" = .ok report.toUTF8 ∧
    (run crampedDevice linkedTree o).code.toNat = 4 ∧
    ∃ t₁ e, crampedDevice.Writes linkedTree "l" text.toUTF8 t₁ none ∧
      crampedDevice.Writes t₁ "a" report.toUTF8 (run crampedDevice linkedTree o).tree (some e) ∧
      ((run crampedDevice linkedTree o).tree.read "a").toOption.map ByteArray.size = some 3 := by
  have hwords : Options.ofWords ["a", "-o", "l", "-g", "cheader", "--emit-layout", "a"] =
      .ok linkedOptions := by decide +kernel
  have hrun : (compile (linkedTree.sources []) "a").toOption.isSome = true := by
    decide +kernel
  obtain ⟨u, hu⟩ := Option.isSome_iff_exists.mp hrun
  have hu := except_to_option_eq_some.mp hu
  have hreliable : (run .reliable linkedTree linkedOptions).code.toNat = 0 := by decide +kernel
  have hcramped : (run crampedDevice linkedTree linkedOptions).code.toNat = 4 := by decide +kernel
  have hsize : ((run crampedDevice linkedTree linkedOptions).tree.read "a").toOption.map
      ByteArray.size = some 3 := by decide +kernel
  have houtput : linkedTree.destination "l" = .ok ["w", "h"] := by decide +kernel
  have hlayout : linkedTree.destination "a" = .ok ["w", "a"] := by decide +kernel
  obtain ⟨_, text, report, htext, hreport, h⟩ :=
    (run_writes_last .reliable linkedTree _ linkedOptions hwords).2.2.2 u hu
  obtain ⟨_, text', report', htext', hreport', h'⟩ :=
    (run_writes_last crampedDevice linkedTree _ linkedOptions hwords).2.2.2 u hu
  cases htext.symm.trans htext'
  cases hreport.symm.trans hreport'
  cases h with
  | output_failed hcode | report_failed hcode => omega
  | written _ _ hwrote =>
    have hread := hwrote.read (by simp [Apart, Options.outputs, linkedOptions, houtput, hlayout])
    simp only [Options.outputs, linkedOptions, Option.map_some, Option.toList_some,
      List.forall_mem_cons] at hread
    refine ⟨linkedOptions, u, text, report, hwords, hu, htext, hreport, hreliable, hread.1,
      hread.2.1, hcramped, ?_⟩
    cases h' with
    | written hcode => omega
    | output_failed _ hfails =>
      have hwhole : crampedDevice.Writes linkedTree "l" text.toUTF8 _ none :=
        .whole houtput rfl (by simp [crampedDevice]) rfl
      cases congrArg Prod.snd (hfails.eq.symm.trans hwhole.eq)
    | report_failed _ hpath hfirst _ hfails =>
      cases hpath
      exact ⟨_, _, hfirst, hfails, hsize⟩

end CommandLine

end DataLayout
