import DocShape.Command.Host

/-!
# Disks

A disk says what stands at a location: a directory, or a file with its bytes. A location without names
is always a directory. Disks host the program; they refuse a change that does not fit what stands there.
-/

namespace DocShape.Command

inductive Item
  | directory
  | file (bytes : ByteArray)

/-- What stands at each location that has a name. -/
abbrev Disk := Location → Option Item

def Location.parent (l : Location) : Location := ⟨l.root, l.names.tail⟩

namespace Disk

def item? (disk : Disk) (l : Location) : Option Item :=
  if l.names = [] then some .directory else disk l

def isDirectory (disk : Disk) (l : Location) : Bool :=
  match disk.item? l with
  | some .directory => true
  | _ => false

theorem isDirectory_iff {disk : Disk} {l : Location} :
    disk.isDirectory l ↔ disk.item? l = some .directory := by
  unfold isDirectory
  split
  · simp [*]
  · rename_i other
    simpa using other

def put (disk : Disk) (l : Location) (item : Item) : Disk :=
  fun l' => if l' = l then some item else disk l'

def bytes? (disk : Disk) (l : Location) : Option ByteArray :=
  match disk.item? l with
  | some (.file bytes) => some bytes
  | _ => none

end Disk

/-- Why a disk refuses a change. -/
inductive Refusal
  | isDirectory
  | isFile
  | noFile
  | noDirectory
  deriving DecidableEq, Repr

/-- What the program does to a disk. -/
abbrev OnDisk := EStateM Refusal Disk

def makeDirectoryOn (l : Location) : OnDisk Unit := fun disk =>
  match disk.item? l with
  | some .directory => .ok () disk
  | some (.file _) => .error .isFile disk
  | none =>
    if disk.isDirectory l.parent then .ok () (disk.put l .directory)
    else .error .noDirectory disk

def clearOn (l : Location) : OnDisk Unit := fun disk =>
  if disk.isDirectory l then .error .isDirectory disk
  else if disk.isDirectory l.parent then
    .ok () (disk.put l (.file ByteArray.empty))
  else .error .noDirectory disk

def appendOn (l : Location) (bytes : ByteArray) : OnDisk Unit := fun disk =>
  match disk.item? l with
  | some (.file old) => .ok () (disk.put l (.file (old ++ bytes)))
  | _ => .error .noFile disk

instance : Host OnDisk where
  bytes? l := fun disk => .ok (disk.bytes? l) disk
  makeDirectory := makeDirectoryOn
  clear := clearOn
  append := appendOn
  report _ := pure ()

end DocShape.Command
