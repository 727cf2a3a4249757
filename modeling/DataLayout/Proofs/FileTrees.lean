import DataLayout.Proofs.PlainPaths
import DataLayout.Source.Directories

/-!
# Walks through file trees

Names lead from a directory down to the place that they spell, as long as no link is on the way.
Writing a file changes what there is at its place and nothing else, and a path that leads to some
place to write to leads there still.
-/

set_option autoImplicit false

namespace DataLayout

theorem lookup_cons_filter {α β : Type} [BEq α] [LawfulBEq α] [DecidableEq α] (key other : α)
    (value : β) (entries : List (α × β)) :
    ((key, value) :: entries.filter (·.1 != key)).lookup other =
      if other = key then some value else entries.lookup other := by
  rw [List.lookup_cons]
  by_cases h : other = key
  · simp [h]
  · rw [if_neg h, beq_eq_false_iff_ne.mpr h]
    induction entries with
    | nil => rfl
    | cons entry entries ih =>
      obtain ⟨k, v⟩ := entry
      by_cases hkey : k = key
      · subst hkey
        simpa [List.lookup_cons, beq_eq_false_iff_ne.mpr h] using ih
      · by_cases hother : other = k <;> simp [hkey, List.lookup_cons, hother, ih]

namespace FileTree

variable {t : FileTree} {here place : Place} {names : List String}

theorem lookup_put {e : Entry} (hne : place ≠ []) (other : Place) :
    (t.put place e).lookup other = if other = place then some e else t.lookup other := by
  rw [lookup, lookup, put]
  by_cases hroot : other = []
  · rw [if_pos hroot, if_pos hroot, if_neg (fun h => hne (h.symm.trans hroot))]
  · rw [if_neg hroot, if_neg hroot, lookup_cons_filter]

theorem put_put (t : FileTree) (place : Place) (e e' : Entry) :
    (t.put place e).put place e' = t.put place e' := by
  simp [put, List.filter_filter]

section Walking

variable {follow : Place → List String → Except FileError Place}

theorem exists_walk_with (t : FileTree) (links : Nat) :
    ∃ follow, ∀ here parts, t.walk links here parts = t.walkWith follow parts here := by
  cases links with
  | zero => exact ⟨_, fun _ _ => rfl⟩
  | succ links => exact ⟨_, fun _ _ => rfl⟩

theorem eq_of_walk_with (hn : ∀ n ∈ names, Path.IsName n)
    (hlinks : ∀ below ≠ [], ∀ target, t.lookup (here ++ below) ≠ some (.link target))
    (h : t.walkWith follow names here = .ok place) : place = here ++ names := by
  induction names generalizing here with
  | nil =>
    cases h
    simp
  | cons n names ih =>
    obtain ⟨⟨hempty, hdot, hdots, _⟩, hnames⟩ := List.forall_mem_cons.mp hn
    rw [walkWith, if_neg (not_or.mpr ⟨hempty, hdot⟩), if_neg hdots] at h
    have hbelow : ∀ below ≠ [], ∀ target,
        t.lookup (here ++ [n] ++ below) ≠ some (.link target) := by
      intro below _ target
      rw [List.append_assoc]
      exact hlinks ([n] ++ below) (by simp) target
    by_cases hsize : maxNameBytes < n.utf8ByteSize
    · rw [if_pos hsize] at h
      cases h
    · rw [if_neg hsize] at h
      cases hentry : t.lookup (here ++ [n]) with
      | none =>
        rw [hentry] at h
        cases h
      | some entry =>
        rw [hentry] at h
        cases entry with
        | directory => rw [ih hnames hbelow h, List.append_assoc, List.singleton_append]
        | link target => exact absurd hentry (hlinks [n] (by simp) target)
        | file content =>
          by_cases hlast : names = []
          · simp only [if_pos hlast, Except.ok.injEq] at h
            rw [← h, hlast]
          · simp [hlast] at h

theorem walk_with_of_file {content : ByteArray} (hn : ∀ n ∈ names, Path.IsName n)
    (hsize : ∀ n ∈ names, n.utf8ByteSize ≤ maxNameBytes) (hne : names ≠ [])
    (hdirs : ∀ above ≠ [], ∀ below ≠ [], above ++ below = names →
      t.lookup (here ++ above) = some .directory)
    (hfile : t.lookup (here ++ names) = some (.file content)) :
    t.walkWith follow names here = .ok (here ++ names) := by
  induction names generalizing here with
  | nil => exact absurd rfl hne
  | cons n names ih =>
    obtain ⟨⟨hempty, hdot, hdots, _⟩, hnames⟩ := List.forall_mem_cons.mp hn
    obtain ⟨hlength, hlengths⟩ := List.forall_mem_cons.mp hsize
    rw [walkWith, if_neg (not_or.mpr ⟨hempty, hdot⟩), if_neg hdots,
      if_neg (Nat.not_lt.mpr hlength)]
    by_cases hlast : names = []
    · subst hlast
      rw [hfile]
      simp
    · have hstep : here ++ n :: names = here ++ [n] ++ names := by simp
      rw [hdirs [n] (by simp) names hlast rfl, hstep]
      refine ih hnames hlengths hlast (fun above habove below hbelow heq => ?_) (hstep ▸ hfile)
      rw [List.append_assoc]
      exact hdirs ([n] ++ above) (by simp) below hbelow (by simp [← heq])

end Walking

section Writing

variable {t' : FileTree} {path : String} {content : ByteArray} {parts : List String}
  {follow follow' : Place → List String → Except FileError Place}

def Writable (t : FileTree) (place : Place) : Prop :=
  t.lookup place = none ∨ ∃ content, t.lookup place = some (.file content)

/-- The trees differ in nothing but the content of files, of which some may be new. -/
structure SameButFiles (t t' : FileTree) : Prop where
  workingDirectory : t'.workingDirectory = t.workingDirectory
  lookup : ∀ place, t'.lookup place = t.lookup place ∨
    t.Writable place ∧ ∃ content, t'.lookup place = some (.file content)

theorem Writable.ne_nil (h : t.Writable place) : place ≠ [] := by
  intro hroot
  subst hroot
  simp [Writable, lookup] at h

theorem Writable.same_but_files_put (h : t.Writable place) (content : ByteArray) :
    t.SameButFiles (t.put place (.file content)) where
  workingDirectory := rfl
  lookup other := by
    rw [lookup_put h.ne_nil]
    by_cases hother : other = place
    · rw [if_pos hother, hother]
      exact .inr ⟨h, content, rfl⟩
    · rw [if_neg hother]
      exact .inl rfl

/-- What a path to a file to write can begin with: a part that means no step, a step up, the name of
the file, the name of a directory, or the name of a link. -/
theorem create_with_cons_eq_ok {part : String} {rest : List String} :
    t.createWith follow (part :: rest) here = .ok place ↔
      ((part = "" ∨ part = ".") ∧ t.createWith follow rest here = .ok place) ∨
      (part = ".." ∧ t.createWith follow rest here.dropLast = .ok place) ∨
      ((¬(part = "" ∨ part = ".") ∧ part ≠ ".." ∧ ¬(rest ≠ [] ∧ rest.all (· == "")) ∧
          ¬maxNameBytes < part.utf8ByteSize) ∧
        ((t.Writable (here ++ [part]) ∧ rest = [] ∧ here ++ [part] = place) ∨
          (t.lookup (here ++ [part]) = some .directory ∧
            t.createWith follow rest (here ++ [part]) = .ok place) ∨
          ∃ target, t.lookup (here ++ [part]) = some (.link target) ∧
            follow (linkOrigin here target) (Path.parts target ++ rest) = .ok place)) := by
  rw [createWith]
  by_cases hvoid : part = "" ∨ part = "."
  · rw [if_pos hvoid]
    have hup : part ≠ ".." := by
      rintro rfl
      simp at hvoid
    simp [hvoid, hup]
  by_cases hup : part = ".."
  · rw [if_neg hvoid, if_pos hup]
    simp [hup]
  by_cases hslash : rest ≠ [] ∧ rest.all (· == "")
  · rw [if_neg hvoid, if_neg hup, if_pos hslash]
    simp [hvoid, hup, hslash]
  by_cases hsize : maxNameBytes < part.utf8ByteSize
  · rw [if_neg hvoid, if_neg hup, if_neg hslash, if_pos hsize]
    simp [hvoid, hup, hsize]
  rw [if_neg hvoid, if_neg hup, if_neg hslash, if_neg hsize, Writable]
  simp only [hvoid, hup, hslash, hsize, ne_eq, not_false_eq_true, true_and, false_and, false_or]
  cases hentry : t.lookup (here ++ [part]) with
  | none => by_cases hlast : rest = [] <;> simp [hlast]
  | some entry => cases entry <;> by_cases hlast : rest = [] <;> simp [hlast]

theorem create_with_writable
    (hfollow : ∀ here parts, follow here parts = .ok place → t.Writable place)
    (h : t.createWith follow parts here = .ok place) : t.Writable place := by
  induction parts generalizing here with
  | nil => cases h
  | cons part rest ih =>
    rcases create_with_cons_eq_ok.mp h with
      ⟨_, h⟩ | ⟨_, h⟩ | ⟨_, ⟨hw, _, rfl⟩ | ⟨_, h⟩ | ⟨_, _, h⟩⟩
    · exact ih h
    · exact ih h
    · exact hw
    · exact ih h
    · exact hfollow _ _ h

theorem create_writable {links : Nat} (h : t.create links here parts = .ok place) :
    t.Writable place := by
  induction links generalizing here parts with
  | zero =>
    refine create_with_writable (fun _ _ h => ?_) h
    cases h
  | succ links ih => exact create_with_writable (fun _ _ => ih) h

theorem destination_writable (h : t.destination path = .ok place) : t.Writable place := by
  unfold destination at h
  split_ifs at h
  exact create_writable h

namespace SameButFiles

theorem writable_iff (h : t.SameButFiles t') : t'.Writable place ↔ t.Writable place := by
  rcases h.lookup place with heq | ⟨hw, hfile⟩
  · rw [Writable, heq, Writable]
  · exact iff_of_true (.inr hfile) hw

theorem lookup_eq_iff (h : t.SameButFiles t') (place : Place) {e : Entry}
    (he : ∀ content, e ≠ .file content) :
    t'.lookup place = some e ↔ t.lookup place = some e := by
  rcases h.lookup place with heq | ⟨hnone | ⟨content, hfile⟩, content', hfile'⟩
  · rw [heq]
  · simp [hnone, hfile', (he content').symm]
  · simp [hfile, hfile', (he content).symm, (he content').symm]

theorem trans {t'' : FileTree} (h : t.SameButFiles t') (h' : t'.SameButFiles t'') :
    t.SameButFiles t'' where
  workingDirectory := h'.workingDirectory.trans h.workingDirectory
  lookup place := by
    rcases h'.lookup place with heq | ⟨hw, hfile⟩
    · rw [heq]
      exact h.lookup place
    · exact .inr ⟨h.writable_iff.mp hw, hfile⟩

theorem create_with_eq_ok_iff (h : t.SameButFiles t')
    (hfollow : ∀ here parts, follow' here parts = .ok place ↔ follow here parts = .ok place) :
    t'.createWith follow' parts here = .ok place ↔ t.createWith follow parts here = .ok place := by
  induction parts generalizing here with
  | nil => rfl
  | cons part rest ih =>
    have hdirectory := h.lookup_eq_iff (here ++ [part]) (e := .directory) (by simp)
    have hlink := fun target => h.lookup_eq_iff (here ++ [part]) (e := .link target) (by simp)
    simp only [create_with_cons_eq_ok, ih, hfollow, h.writable_iff, hdirectory, hlink]

theorem create_eq_ok_iff (h : t.SameButFiles t') {links : Nat} :
    t'.create links here parts = .ok place ↔ t.create links here parts = .ok place := by
  induction links generalizing here parts with
  | zero => exact h.create_with_eq_ok_iff fun _ _ => Iff.rfl
  | succ links ih => exact h.create_with_eq_ok_iff fun _ _ => ih

theorem destination_eq_ok_iff (h : t.SameButFiles t') :
    t'.destination path = .ok place ↔ t.destination path = .ok place := by
  rw [destination, destination, origin, origin, h.workingDirectory]
  split_ifs
  · rfl
  · rfl
  · exact h.create_eq_ok_iff
  · exact h.create_eq_ok_iff

end SameButFiles

theorem walk_with_of_create_with (hfile : t.lookup place = some (.file content))
    (hfollow : ∀ here parts, follow here parts = .ok place → follow' here parts = .ok place)
    (h : t.createWith follow parts here = .ok place) :
    t.walkWith follow' parts here = .ok place := by
  induction parts generalizing here with
  | nil => cases h
  | cons part rest ih =>
    rw [walkWith]
    rcases create_with_cons_eq_ok.mp h with
      ⟨hvoid, h⟩ | ⟨hup, h⟩ | ⟨⟨hvoid, hup, _, hsize⟩, hname⟩
    · rw [if_pos hvoid]
      exact ih h
    · rw [hup, if_neg (by decide), if_pos rfl]
      exact ih h
    · rw [if_neg hvoid, if_neg hup, if_neg hsize]
      rcases hname with ⟨_, hlast, rfl⟩ | ⟨hdirectory, h⟩ | ⟨target, hlink, h⟩
      · rw [hfile]
        simp [hlast]
      · rw [hdirectory]
        exact ih h
      · rw [hlink]
        exact hfollow _ _ h

theorem walk_of_create (hfile : t.lookup place = some (.file content)) {links : Nat}
    (h : t.create links here parts = .ok place) : t.walk links here parts = .ok place := by
  induction links generalizing here parts with
  | zero => exact walk_with_of_create_with hfile (fun _ _ h => by cases h) h
  | succ links ih => exact walk_with_of_create_with hfile (fun _ _ => ih) h

theorem read_of_destination (hfile : t.lookup place = some (.file content))
    (h : t.destination path = .ok place) : t.read path = .ok content := by
  have hresolve : t.resolve path = .ok place := by
    unfold destination at h
    split_ifs at h with hempty hsize
    rw [resolve, if_neg hempty, if_neg hsize]
    exact walk_of_create hfile h
  rw [read, hresolve]
  dsimp only
  rw [hfile]

end Writing

end FileTree

end DataLayout
