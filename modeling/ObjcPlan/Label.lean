import ObjcPlan.Json.Codec
import ObjcPlan.Sha256
import ObjcPlan.Text.Blank

/-!
Labels, the names of targets. A label is written `//package/path:name`; `//package/path` alone is
short for the target named like the last directory of the package. Every label in hand has passed
the checks of `Label.packageFault?` and `Label.nameFault?`.
-/

namespace ObjcPlan

namespace Label

/-- What is wrong with the text of a label. -/
inductive Fault
  | relative
  | malformedPackage
  | dotInPackage
  | packageCharacter
  | emptyName
  | nameCharacter
  | unnamedRoot
  deriving DecidableEq

def Fault.message : Fault → String
  | .relative => "labels must start with '//'"
  | .malformedPackage => "malformed package path"
  | .dotInPackage => "package path may not contain '.' or '..'"
  | .packageCharacter => "invalid character in package"
  | .emptyName => "target name cannot be empty"
  | .nameCharacter => "invalid character in target name"
  | .unnamedRoot => "the root package needs an explicit target name"

/-- Whether a character is kept out of packages and names: white space and the colon. -/
def isForbidden (c : Char) : Bool :=
  Text.isBlank c || c = ':'

/-- The first thing wrong with a package: an empty directory, a dot directory, a forbidden
character. The empty package is the root and has no fault. -/
def packageFault? (package : String) : Option Fault :=
  let directories := Text.split '/' package
  if package ≠ "" ∧ directories.any (· = "") then some .malformedPackage
  else if directories.any fun d => d = "." ∨ d = ".." then some .dotInPackage
  else if package.toList.any isForbidden then some .packageCharacter
  else none

/-- The first thing wrong with a target name. -/
def nameFault? (name : String) : Option Fault :=
  if name = "" then some .emptyName
  else if name.toList.any isForbidden then some .nameCharacter
  else none

end Label

/-- A target's identity. -/
structure Label where
  package : String
  name : String
  package_ok : Label.packageFault? package = none
  name_ok : Label.nameFault? name = none
  deriving DecidableEq

namespace Label

theorem ext {a b : Label} (package : a.package = b.package) (name : a.name = b.name) : a = b := by
  cases a; cases b; cases package; cases name; rfl

theorem name_ne_empty (l : Label) : l.name ≠ "" := by
  intro empty
  have ok := l.name_ok
  simp [nameFault?, empty] at ok

/-- A package and a name written as a label in full. -/
def fullText (package name : String) : String :=
  "//" ++ package ++ ":" ++ name

def text (l : Label) : String :=
  fullText l.package l.name

instance : Identity Label := .ofKey id

/-- Labels are ordered by package and then by name. -/
instance : Ord Label := ⟨compareLex (compareOn package) (compareOn name)⟩

instance : Std.TransOrd Label :=
  inferInstanceAs (Std.TransCmp (compareLex (compareOn package) (compareOn name)))

instance : Std.LawfulEqOrd Label where
  compare_self := Std.ReflOrd.compare_self
  eq_of_compare {a b} h := by
    have ⟨package, name⟩ := Ordering.then_eq_eq.mp h
    exact ext (Std.LawfulEqOrd.eq_of_compare package) (Std.LawfulEqOrd.eq_of_compare name)

/-- The label of a package and a name, or the first fault of the package and then the name. -/
def checked (package name : String) : Except Fault Label :=
  match package_ok : packageFault? package with
  | some fault => .error fault
  | none =>
    match name_ok : nameFault? name with
    | some fault => .error fault
    | none => .ok ⟨package, name, package_ok, name_ok⟩

/-- The label that a text names in full or in short, or the first fault of the text. -/
def read (text : String) : Except Fault Label :=
  match Text.dropStart? ['/', '/'] text.toList with
  | none => .error .relative
  | some rest =>
    let rest := String.ofList rest
    match Text.splitOnce? ':' rest with
    | some (package, name) => checked package name
    | none =>
      match packageFault? rest with
      | some fault => .error fault
      | none =>
        let name := (Text.split '/' rest).getLastD ""
        if name = "" then .error .unnamedRoot else checked rest name

/-- Why a label was refused, with the text that was meant to be one. -/
structure Rejection where
  text : String
  fault : Fault
  deriving DecidableEq

/-- The label of a package and a name, which are refused as the text that they make in full. -/
def ofParts (package name : String) : Except Rejection Label :=
  (checked package name).mapError (⟨fullText package name, ·⟩)

def parse (text : String) : Except Rejection Label :=
  (read text).mapError (⟨text, ·⟩)

/-- The label that a text names, possibly as `:name` in the package of `base`. A refused relative
text is reported as the full label that it stands for. -/
def resolve (base : Label) (text : String) : Except Rejection Label :=
  match Text.dropStart? [':'] text.toList with
  | some name => ofParts base.package (String.ofList name)
  | none => parse text

/-- The directory of the package. -/
def packagePath (l : Label) : Path :=
  l.package

/-- A file of the package as seen from the workspace root. -/
def execPath (l : Label) (file : Path) : Path :=
  l.packagePath / file

/-- A file of the package as a label text. -/
def fileLabel (l : Label) (file : Path) : String :=
  "//" ++ l.package ++ ":" ++ file.text

/-- Whether a character may stand in an identifier without change. -/
def isPlain (c : Char) : Bool :=
  c.isAlphanum

/-- How many hexadecimal digits of the digest tell two changed names apart. -/
def digestLength : Nat := 16

/-- The module name of a target: package and name joined by `_`, with every character that is not
an ASCII letter or digit turned into `_`. Unless package and name were plain before, the front of
the label's digest follows, since that change alone could make two labels meet. -/
def moduleName (l : Label) : String :=
  let joined := if l.package = "" then l.name else l.package ++ "_" ++ l.name
  let readable := String.ofList (joined.toList.map fun c => if isPlain c then c else '_')
  if l.package.toList.all isPlain && l.name.toList.all isPlain then readable
  else
    readable ++ "_" ++ String.ofList ((Sha256.hexDigest l.text).toList.take digestLength)

instance : Coded Label where
  encode l := .string l.text
  decode
    | .string text => (parse text).toOption
    | _ => none

end Label

end ObjcPlan
