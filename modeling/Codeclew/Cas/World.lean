import Codeclew.Cas.Catalog

/-!
# The store's files

The directories of a store on disk, the world a handle runs in, and the steps that change a file.

A step of a file either happens or does not: `atomic_create` and `atomic_write` install a whole file
under its name, a removal or a rename is one system call. What the system chooses, the metadata of a
new file and the random part of a name, comes from a `Host`, about which nothing is assumed.
-/

namespace Codeclew.Cas

/-- The choices of the system, by the number of files written before. -/
class Host where
  metadata : ℕ → Metadata
  uuid : ℕ → String
  /-- There is more than one processor and a thread pool could be made. -/
  threadPool : Bool

/-- The directories of a store. Loose objects lie in one shard for each first byte of a digest. -/
inductive Place where
  | catalog
  | snapshots
  | records
  | packs
  | shard (first : String)
  | quarantine
  deriving DecidableEq

structure Disk where
  catalog : Directory := ∅
  snapshots : Directory := ∅
  records : Directory := ∅
  packs : Directory := ∅
  objects : Std.ExtTreeMap String Directory compare := ∅
  quarantine : Directory := ∅

namespace Disk

/-- The files of a directory. A shard that was never made has none. -/
def files (disk : Disk) : Place → Directory
  | .catalog => disk.catalog
  | .snapshots => disk.snapshots
  | .records => disk.records
  | .packs => disk.packs
  | .shard first => disk.objects[first]?.getD ∅
  | .quarantine => disk.quarantine

def setFiles (disk : Disk) (place : Place) (files : Directory) : Disk :=
  match place with
  | .catalog => { disk with catalog := files }
  | .snapshots => { disk with snapshots := files }
  | .records => { disk with records := files }
  | .packs => { disk with packs := files }
  | .shard first => { disk with objects := disk.objects.insert first files }
  | .quarantine => { disk with quarantine := files }

def put (disk : Disk) (place : Place) (name : String) (file : File) : Disk :=
  disk.setFiles place ((disk.files place).insert name file)

def erase (disk : Disk) (place : Place) (name : String) : Disk :=
  disk.setFiles place ((disk.files place).erase name)

section

variable (disk : Disk)

@[simp] theorem files_setFiles_self (place : Place) (files : Directory) :
    (disk.setFiles place files).files place = files := by
  cases place <;> simp [setFiles, Disk.files]

theorem files_setFiles_of_ne {place other : Place} (files : Directory) (h : other ≠ place) :
    (disk.setFiles place files).files other = disk.files other := by
  cases place with
  | shard first =>
    cases other with
    | shard first' =>
      have hne : first ≠ first' := fun e ↦ h (by rw [e])
      simp [setFiles, Disk.files, Std.ExtTreeMap.getElem?_insert, hne]
    | _ => rfl
  | _ => cases other <;> first | rfl | exact absurd rfl h

theorem files_setFiles (place other : Place) (files : Directory) :
    (disk.setFiles place files).files other = if other =
      place then files else disk.files other := by
  split
  · next h => rw [h, files_setFiles_self]
  · next h => exact files_setFiles_of_ne disk files h

theorem files_put (place other : Place) (name : String) (file : File) :
    (disk.put place name file).files other
      = if other = place then (disk.files place).insert name file else disk.files other :=
  files_setFiles ..

theorem files_erase (place other : Place) (name : String) :
    (disk.erase place name).files other
      = if other = place then (disk.files place).erase name else disk.files other :=
  files_setFiles ..

end

end Disk

/-- What a handle runs in: the disk, the catalog in its memory and the number of files written so
far. -/
structure World [Sha256] where
  disk : Disk
  memory : CatalogState := {}
  clock : ℕ := 0

section Steps

variable [Sha256]

abbrev Action (α : Type) := Program World ClewError α

/-! ## Reading -/

def memory : Action CatalogState := fun world ↦ (.ok world.memory, world)

/-- What the files of a directory give. -/
def inspect {α : Type} (place : Place) (f : Directory → Except ClewError α) : Action α :=
  fun world ↦ (f (world.disk.files place), world)

def fileExists (place : Place) (name : String) : Action Bool :=
  inspect place fun files ↦ .ok (files.fileExists name)

def openFile (place : Place) (name : String) : Action File := inspect place (·.openFile name)

def readFile (place : Place) (name : String) (maxBytes : ℕ) : Action Bytes :=
  inspect place (·.readFile name maxBytes)

def entries (place : Place) : Action (List String) := inspect place fun files ↦ .ok files.entries

/-! ## Changing the memory -/

/-- A program over the catalog in memory. -/
def onMemory {α : Type} (m : Program CatalogState ClewError α) : Action α :=
  m.zoom World.memory fun memory world ↦ { world with memory }

def setMemory (memory : CatalogState) : Action Unit :=
  Program.modify fun world ↦ { world with memory }

/-! ## Changing files -/

def removeFile (place : Place) (name : String) : Action Unit := fun world ↦
  match (world.disk.files place)[name]? with
  | none => (.error (internal "No such file or directory (os error 2)"), world)
  | some _ => (.ok (), { world with disk := world.disk.erase place name })

/-- Move a file. One that had the new name is replaced. -/
def renameTo (place : Place) (source : String) (destination : Place) (target : String) :
    Action Unit := fun world ↦
  match (world.disk.files place)[source]? with
  | none => (.error (internal "No such file or directory (os error 2)"), world)
  | some file =>
    (.ok (), { world with disk := (world.disk.erase place source).put destination target file })

variable [Host]

/-- A step that writes a file. -/
def World.write (world : World) (place : Place) (name : String) (bytes : Bytes) : World :=
  { world with
    disk := world.disk.put place name { bytes, metadata := Host.metadata world.clock }
    clock := world.clock + 1 }

def atomicWrite (place : Place) (name : String) (bytes : Bytes) : Action Unit := fun world ↦
  (.ok (), world.write place name bytes)

/-- Whether the file was installed; if there is one with this name it stays. -/
def atomicCreate (place : Place) (name : String) (bytes : Bytes) : Action Bool := fun world ↦
  match (world.disk.files place)[name]? with
  | none => (.ok true, world.write place name bytes)
  | some _ => (.ok false, world)

def uuid : Action String := fun world ↦ (.ok (Host.uuid world.clock), world)

end Steps

end Codeclew.Cas
