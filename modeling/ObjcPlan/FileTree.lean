import ObjcPlan.Path.Basic

/-!
A snapshot of some directories and files, in which paths are looked up the way an operating system
does: segment by segment, where every segment but the last has to lead through a directory and `..`
leads to the directory above. New directories and files are found on the same way, so that a file
written under another spelling of its path replaces what was there.
-/

namespace ObjcPlan

inductive FileEntry
  | directory
  | file (content : String)
  deriving DecidableEq

/-- Why a path leads to nothing that can be used. -/
inductive LookupFault
  /-- Something on the way does not exist. -/
  | absent
  /-- What is there cannot be used as asked. -/
  | refused
  deriving DecidableEq

/-- A snapshot: the entries below the working directory, by the names that lead to them; of two with
the same names the first counts. Everything else does not exist, but the root and the directories
above the working directory do. -/
structure FileTree where
  entries : List (List String × FileEntry)

namespace FileTree

def empty : FileTree := ⟨[]⟩

/-- The greatest size of a name, in bytes. -/
def nameLimit : Nat := 255

/-- The greatest size of a whole path, in bytes. -/
def pathLimit : Nat := 4095

/-- A place on the way through a path: the names below the working directory, last first, or how
many directories above it. -/
inductive Place
  | below (names : List String)
  | above (levels : Nat)
  | atRoot
  deriving DecidableEq

def find? (t : FileTree) : Place → Option FileEntry
  | .below [] | .above _ | .atRoot => some .directory
  | .below names => t.entries.lookup names.reverse

/-- The place that a segment leads to from a place that is a directory. -/
def step (t : FileTree) (place : Place) (segment : String) : Except LookupFault Place :=
  match t.find? place with
  | none => .error .absent
  | some (.file _) => .error .refused
  | some .directory =>
    if segment = "" ∨ segment = "." then .ok place
    else if segment = ".." then
      match place with
      | .below (_ :: names) => .ok (.below names)
      | .below [] => .ok (.above 1)
      | .above levels => .ok (.above (levels + 1))
      | .atRoot => .ok .atRoot
    else if segment.utf8ByteSize > nameLimit then .error .refused
    else
      match place with
      | .below names =>
        if (t.find? (.below (segment :: names))).isSome then .ok (.below (segment :: names))
        else .error .absent
      | _ => .error .absent

/-- Where a path starts. A path that is too long as a whole is refused before any of its segments is
looked at. -/
def start (p : Path) : Except LookupFault Place := do
  if p.text = "" then throw .absent
  if p.text.toList.any fun c => c.toNat = 0 then throw .refused
  if p.text.utf8ByteSize > pathLimit then throw .refused
  return if p.isRooted then .atRoot else .below []

/-- What a path leads to. -/
def lookup (t : FileTree) (p : Path) : Except LookupFault FileEntry := do
  let place ← p.segments.foldlM t.step (← start p)
  match t.find? place with
  | some found => return found
  | none => throw .absent

/-- Whether a path leads to a file or directory. -/
def contains (t : FileTree) (p : Path) : Bool :=
  (t.lookup p).isOk

/-- The content of the file at a path. -/
def read (t : FileTree) (p : Path) : Except LookupFault String := do
  match ← t.lookup p with
  | .file content => return content
  | .directory => throw .refused

/-- The tree with an entry at the place that some names lead to, last first. -/
def set (t : FileTree) (names : List String) (entry : FileEntry) : FileTree :=
  ⟨(names.reverse, entry) :: t.entries⟩

/-- The place that a segment leads to, as in `step`, where a name that leads nowhere gets the entry
`fresh`. -/
def enter (fresh : FileEntry) (state : FileTree × Place) (segment : String) :
    Except LookupFault (FileTree × Place) :=
  let (t, place) := state
  match t.step place segment, place with
  | .ok next, _ => .ok (t, next)
  | .error .absent, .below names =>
    .ok (t.set (segment :: names) fresh, .below (segment :: names))
  | .error fault, _ => .error fault

/-- The tree with a directory at a path and with directories on the way to it. -/
def makeDirectories (t : FileTree) (p : Path) : Except LookupFault FileTree := do
  let (t, place) ← p.segments.foldlM (enter .directory) (t, ← start p)
  match t.find? place with
  | some .directory => return t
  | _ => throw .refused

/-- The tree with a file at a path, in place of any file that was there, and with directories on the
way to it. -/
def write (t : FileTree) (p : Path) (content : String) : Except LookupFault FileTree := do
  let reached ← p.segments.dropLast.foldlM (enter .directory) (t, ← start p)
  let (t, place) ← enter (.file content) reached (p.segments.getLastD "")
  match t.find? place, place with
  | some (.file _), .below names => return t.set names (.file content)
  | _, _ => throw .refused

end FileTree

end ObjcPlan
