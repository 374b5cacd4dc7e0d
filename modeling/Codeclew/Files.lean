import Codeclew.State
import Codeclew.Triple

/-!
# Programs over directories

The steps on the files of one directory, and programs over a tree of directories of which each step
touches one. Locks are not modelled: a program runs from its start to its end without another one in
between, which is what its lock is for.
-/

namespace Codeclew

/-- The length of a text in bytes. -/
def byteLength (text : String) : ℕ := (Json.encodeUtf8 (chars text)).length

def managedIdComponent (value pre : String) : Except ClewError String :=
  match stripPrefix pre value with
  | none => .error (invalid "managed identifier has the wrong prefix")
  | some component =>
    if (chars component).length ≠ 0 ∧ (chars component).length ≤ 128 ∧
        (chars component).all (fun c ↦ c.isAlphanum || c == '-' || c == '_') then .ok component
    else .error (invalid "managed identifier is not a safe path component")

/-- A file appended to keeps the metadata it had; nothing reads that of a ledger. -/
def Directory.append (dir : Directory) (name : String) (bytes : Bytes) : Directory :=
  match dir[name]? with
  | some file => dir.insert name { file with bytes := file.bytes ++ bytes }
  | none => dir.insert name ⟨bytes, default⟩

/-- The bytes of a file, none where there is no file. -/
def Directory.bytesOf (dir : Directory) (name : String) : Bytes :=
  (dir[name]?.map File.bytes).getD []

@[simp] theorem Directory.getElem?_append_of_ne {dir : Directory} {name other : String}
    (h : other ≠ name) (bytes : Bytes) : (dir.append name bytes)[other]? = dir[other]? := by
  rw [append]
  split <;> simp [Std.ExtTreeMap.getElem?_insert, h.symm]

@[simp] theorem Directory.bytesOf_append (dir : Directory) (name : String) (bytes : Bytes) :
    (dir.append name bytes).bytesOf name = dir.bytesOf name ++ bytes := by
  rw [append, bytesOf, bytesOf]
  split <;> simp [*]

variable {maxBytes : ℕ} {name : String}

theorem Directory.readFile_eq_ok_iff {dir : Directory} {bytes : Bytes} :
    dir.readFile name maxBytes = .ok bytes ↔
      ∃ file, dir[name]? = some file ∧ file.bytes = bytes ∧ bytes.length ≤ maxBytes := by
  rw [readFile, openFile]
  rcases dir[name]? with _ | file
  · simp
  · rw [ok_bind]
    by_cases h : file.bytes.length > maxBytes
    · rw [if_pos h]
      simp only [Option.some.injEq]
      refine ⟨nofun, ?_⟩
      rintro ⟨_, rfl, rfl, hle⟩
      exact absurd hle (not_le.mpr h)
    · rw [if_neg h]
      simp only [Option.some.injEq]
      refine ⟨fun heq ↦ ⟨file, rfl, Except.ok.inj heq, ?_⟩, ?_⟩
      · rw [← Except.ok.inj heq]
        exact not_lt.mp h
      · rintro ⟨_, rfl, rfl, -⟩
        rfl

theorem Directory.readFile_of_bytesOf {d : Directory} (hne : d.bytesOf name ≠ [])
    (hsize : (d.bytesOf name).length ≤ maxBytes) :
    d.readFile name maxBytes = .ok (d.bytesOf name) := by
  rw [bytesOf] at *
  rcases hfile : d[name]? with _ | file
  · simp [hfile] at hne
  · rw [hfile] at hsize
    exact readFile_eq_ok_iff.mpr ⟨file, hfile, by simp, by simpa using hsize⟩

theorem Directory.bytesOf_of_readFile {d : Directory} {bytes : Bytes}
    (h : d.readFile name maxBytes = .ok bytes) : d.bytesOf name = bytes := by
  obtain ⟨file, hfile, rfl, -⟩ := readFile_eq_ok_iff.mp h
  rw [bytesOf, hfile]
  rfl

namespace Files

/-- A program over the files of one directory. -/
abbrev Steps (α : Type) := Program Directory ClewError α

def inspect {α : Type} (f : Directory → Except ClewError α) : Steps α := fun dir ↦ (f dir, dir)

def fileExists (name : String) : Steps Bool := inspect fun dir ↦ .ok (dir.fileExists name)

/-- `open_append`, which makes the file if it is not there: its length. -/
def openAppend (name : String) : Steps ℕ := fun dir ↦
  (.ok (dir.bytesOf name).length, dir.append name [])

/-- `write_all` to a file opened for appending. -/
def appendBytes (name : String) (bytes : Bytes) : Steps Unit :=
  Program.modify (·.append name bytes)

/-- `create_file`, which refuses a name that is taken. -/
def createFile (name : String) : Steps Unit := fun dir ↦
  match dir[name]? with
  | some _ => (.error (internal "File exists (os error 17)"), dir)
  | none => (.ok (), dir.insert name ⟨[], default⟩)

/-- `atomic_create`: whether the file was installed; if there is one with this name it stays. -/
def atomicCreate (name : String) (bytes : Bytes) : Steps Bool := fun dir ↦
  match dir[name]? with
  | some _ => (.ok false, dir)
  | none => (.ok true, dir.insert name ⟨bytes, default⟩)

/-- `d` after something was appended to one of its files. -/
structure Grown (name : String) (d d' : Directory) : Prop where
  others : ∀ other, other ≠ name → d'[other]? = d[other]?
  bytes : d.bytesOf name <+: d'.bytesOf name

namespace Grown

variable {name : String} {d d' d'' : Directory}

theorem refl (name : String) (d : Directory) : Grown name d d := ⟨fun _ _ ↦ rfl, List.prefix_rfl⟩

theorem trans (h : Grown name d d') (h' : Grown name d' d'') : Grown name d d'' :=
  ⟨fun other hne ↦ (h'.others other hne).trans (h.others other hne), h.bytes.trans h'.bytes⟩

theorem append (name : String) (d : Directory) (bytes : Bytes) :
    Grown name d (d.append name bytes) :=
  ⟨fun _ hne ↦ Directory.getElem?_append_of_ne hne bytes, by simp⟩

end Grown

open Program

variable {name : String} {d : Directory}

theorem inspect_bind_eq_ok {α β : Type} {f : Directory → Except ClewError α}
    {g : α → Steps β} {d d' : Directory} {b : β} :
    (inspect f >>= g) d = (.ok b, d') ↔ ∃ a, f d = .ok a ∧ g a d = (.ok b, d') :=
  lift_bind_eq_ok

theorem inspect_bind_of_ok {α β : Type} {f : Directory → Except ClewError α} {a : α}
    (h : f d = .ok a) (g : α → Steps β) : (inspect f >>= g) d = g a d :=
  bind_of_ok (congrArg (·, d) h) g

theorem keeps_inspect {α : Type} {I : Directory → Prop} (f : Directory → Except ClewError α) :
    Keeps I (inspect f) := by
  intro dir hI
  rw [inspect]
  rcases f dir with _ | _ <;> exact hI

theorem keeps_openAppend : Keeps (Grown name d) (openAppend name) :=
  fun d' h ↦ h.trans (.append name d' [])

theorem keeps_appendBytes (bytes : Bytes) : Keeps (Grown name d) (appendBytes name bytes) :=
  fun d' h ↦ h.trans (.append name d' bytes)

end Files

/-- Directories by their paths. One that was never made has no files. -/
abbrev FileTree := Std.ExtTreeMap String Directory compare

namespace FileTree

def files (tree : FileTree) (path : String) : Directory := tree[path]?.getD ∅

/-- A program over one directory of a tree. -/
def within {α : Type} (path : String) (m : Files.Steps α) : Program FileTree ClewError α :=
  m.zoom (fun tree ↦ FileTree.files tree path)
    fun dir tree ↦ Std.ExtTreeMap.insert tree path dir

variable {α : Type}

theorem within_apply (path : String) (m : Files.Steps α) (tree : FileTree) :
    within path m tree
      = ((m (files tree path)).1, Std.ExtTreeMap.insert tree path (m (files tree path)).2) :=
  rfl

@[simp] theorem files_within_self (path : String) (m : Files.Steps α) (tree : FileTree) :
    files (within path m tree).2 path = (m (files tree path)).2 := by
  simp [within_apply, files]

theorem files_within_of_ne {path other : String} (h : other ≠ path) (m : Files.Steps α)
    (tree : FileTree) :
    files (within path m tree).2 other = files tree other := by
  simp [within_apply, files, Std.ExtTreeMap.getElem?_insert, h.symm]

end FileTree

end Codeclew
