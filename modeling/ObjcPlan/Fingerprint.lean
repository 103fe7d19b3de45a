import ObjcPlan.Facts
import ObjcPlan.Json.Printer
import ObjcPlan.Provider.Merge

/-!
Digests of what an analysis depends on. Values are written as JSON without spaces, and a zero byte
closes each of them; such a byte never stands inside, since JSON escapes it.
-/

namespace ObjcPlan

/-- A value as it goes into a digest. -/
def hashed {α : Type} [Coded α] (value : α) : String :=
  (Coded.encode value).compact ++ "\x00"

structure Fingerprint where
  digest : String
  deriving DecidableEq

namespace Fingerprint

/-- What is hashed for a configuration: its facts and then the identity of its toolchain. -/
def message (facts : Facts) (identity : String) : String :=
  hashed facts ++ identity

def ofFacts (facts : Facts) (identity : String) : Fingerprint :=
  ⟨Sha256.hexDigest (message facts identity)⟩

end Fingerprint

/-- What is hashed for a dependency: a library's label and what it offers, or the whole description
of a foreign library. -/
def Dependency.message : Dependency → String
  | .library label providers => hashed label ++ hashed providers
  | .foreign info => hashed info

namespace Library

/-- What is hashed for an analysis, apart from the configuration: the declaration and the direct
dependencies in order. -/
def inputsMessage (t : Library) (dependencies : List Dependency) : String :=
  hashed t ++ String.join (dependencies.map Dependency.message)

/-- The digest of all that an analysis reads besides the configuration, where it can be written. -/
def inputsDigest (t : Library) (dependencies : List Dependency) : String :=
  Sha256.hexDigest (t.inputsMessage dependencies)

end Library

namespace Writer

/-- The fault of a dependency. What an analyzed library offers can be written: it is made of labels
and options, of paths that its own declaration lists and of what its dependencies offer, and these
were written for its own digest. -/
def dependencyFault? (w : Writer) : Dependency → Option String
  | .library _ _ => none
  | .foreign info => w.foreignFault? info

/-- The first fault among the inputs of an analysis. -/
def fault? (w : Writer) (t : Library) (dependencies : List Dependency) : Option String :=
  (w.libraryFault? t).or (dependencies.findSome? w.dependencyFault?)

/-- The digest of the inputs of an analysis, or the fault that keeps them from being written. -/
def inputsDigest (w : Writer) (t : Library) (dependencies : List Dependency) :
    Except String String :=
  match w.fault? t dependencies with
  | some fault => .error fault
  | none => .ok (t.inputsDigest dependencies)

end Writer

end ObjcPlan
