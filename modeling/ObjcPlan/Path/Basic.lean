import ObjcPlan.Text.Split

/-!
File paths. A path keeps its text as it was written; the operations read it as segments between
slashes, and two paths name the same file when their components agree, whatever their spelling.
`Path.lexical` resolves `.` and `..` without looking at any file.
-/

namespace ObjcPlan

structure Path where
  text : String
  deriving DecidableEq

namespace Path

instance : Coe String Path := ⟨mk⟩

/-- What a path is made of, once slashes and idle segments are gone. -/
inductive Component
  /-- The slash that a rooted path starts with. -/
  | root
  /-- A leading `.`. -/
  | current
  /-- A `..`, anywhere. -/
  | parent
  | name (text : String)
  deriving DecidableEq

/-- The component that a segment stands for; empty segments and `.` are idle. -/
def Component.ofSegment? (segment : String) : Option Component :=
  if segment = "" ∨ segment = "." then none
  else if segment = ".." then some .parent
  else some (.name segment)

def Component.name? : Component → Option String
  | .name text => some text
  | _ => none

/-- The text of a component inside a path. -/
def Component.text : Component → String
  | .root => "/"
  | .current => "."
  | .parent => ".."
  | .name text => text

def segments (p : Path) : List String :=
  Text.split '/' p.text

/-- The components. A `.` counts only as the first segment of a path that is not rooted. -/
def components (p : Path) : List Component :=
  match p.segments with
  | "" :: first :: rest => .root :: (first :: rest).filterMap Component.ofSegment?
  | "." :: rest => .current :: rest.filterMap Component.ofSegment?
  | segments => segments.filterMap Component.ofSegment?

def isRooted (p : Path) : Bool :=
  p.text.toList.head? = some '/'

/-- The path `q` seen from the directory `p`: `q` itself when it is rooted, else the two texts with
one slash between them unless `p` is empty or ends with one. -/
def join (p q : Path) : Path :=
  if q.isRooted then q
  else if p.text = "" ∨ p.text.toList.getLast? = some '/' then ⟨p.text ++ q.text⟩
  else ⟨p.text ++ "/" ++ q.text⟩

instance : HDiv Path Path Path := ⟨join⟩
instance : HDiv Path String Path := ⟨fun p text => p.join ⟨text⟩⟩

/-- The path with the given components. -/
def ofComponents (components : List Component) : Path :=
  components.foldl (fun p component => p / component.text) ""

/-- Whether a segment stands for no component. -/
def isIdle (segment : String) : Bool :=
  (Component.ofSegment? segment).isNone

/-- The segments, last first, from the last one that is not idle on. -/
def backwards (segments : List String) : List String :=
  segments.reverse.dropWhile isIdle

/-- The segments before the last one that is not idle, without the idle ones at their end. -/
def dropLastSegment? (segments : List String) : Option (List String) :=
  match backwards segments with
  | [] => none
  | _ :: before => some (before.dropWhile isIdle).reverse

/-- The directory that holds the path: its text up to the component before the last. The empty path
and the root have none. -/
def parent? (p : Path) : Option Path :=
  match p.segments with
  | "" :: first :: rest =>
    (dropLastSegment? (first :: rest)).map fun kept => ⟨"/" ++ "/".intercalate kept⟩
  | "." :: rest =>
    match dropLastSegment? rest with
    | some kept => some ⟨"/".intercalate ("." :: kept)⟩
    | none => some ⟨""⟩
  | segments => (dropLastSegment? segments).map fun kept => ⟨"/".intercalate kept⟩

/-- The last component, if it is a name. -/
def fileName? (p : Path) : Option String :=
  p.components.getLast?.bind Component.name?

/-- A file name cut at its last dot into stem and extension. A dot that starts the name cuts
nothing. -/
def cutExtension (name : String) : String × Option String :=
  match name.toList.reverse.dropWhile (· ≠ '.') with
  | [] | [_] => (name, none)
  | _ :: stem =>
    (String.ofList stem.reverse,
      some (String.ofList (name.toList.reverse.takeWhile (· ≠ '.')).reverse))

def stem? (p : Path) : Option String :=
  p.fileName?.map fun name => (cutExtension name).1

/-- What follows the last dot of the file name. -/
def extension? (p : Path) : Option String :=
  p.fileName?.bind fun name => (cutExtension name).2

/-- A file name with its extension replaced. The old extension goes first, and where that leaves
`..`, which is no file name, no other is given. -/
def replaceExtension (name extension : String) : String :=
  let stem := (cutExtension name).1
  if stem = "." then ".." else stem ++ "." ++ extension

/-- The path with the extension of its file name replaced. -/
def withExtension (p : Path) (extension : String) : Path :=
  match p.fileName? with
  | none => p
  | some name =>
    let before := (backwards p.segments).drop 1
    ⟨"/".intercalate (before.reverse ++ [replaceExtension name extension])⟩

/-- The components kept so far, last first, after one more: `.` is dropped and `..` cancels a
name. -/
def resolveStep (kept : List Component) : Component → List Component
  | .current => kept
  | .parent =>
    match kept with
    | .name _ :: rest => rest
    | _ => .parent :: kept
  | component => component :: kept

/-- The path with `.` dropped and `x/..` cancelled. -/
def lexical (p : Path) : Path :=
  ofComponents (p.components.foldl resolveStep []).reverse

/-- The innermost directory above the path whose name ends with one of `suffixes`, as the names
that lead to it. -/
def container? (suffixes : List String) (p : Path) : Option Path := do
  let directory ← p.parent?
  let names := directory.components.filterMap Component.name?
  let fits (name : String) := suffixes.any fun suffix => suffix.toList.isSuffixOf name.toList
  match names.reverse.dropWhile (fun name => !fits name) with
  | [] => none
  | kept => some (ofComponents (kept.reverse.map .name))

end Path

end ObjcPlan
