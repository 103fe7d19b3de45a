import ObjcPlan.FileTree
import ObjcPlan.Options.Fields
import ObjcPlan.Path.Parent
import ObjcPlan.Toml.Document

/-!
Loading options in layers: the defaults, over them the nearest `mortar.toml`, over that the
environment. Whatever is loaded has been validated as a whole.
-/

namespace ObjcPlan

/-- The environment variables that override options, each set to a text or unset. -/
structure Environment where
  cpu : Option String := none
  compilationMode : Option String := none
  xcodeVersion : Option String := none
  appleBitcode : Option String := none
  deriving DecidableEq

/-- The environment in which `value?` tells the value of each variable that is set. -/
def Environment.ofVariables (value? : String → Option String) : Environment where
  cpu := value? "MORTAR_CPU"
  compilationMode := value? "MORTAR_COMPILATION_MODE"
  xcodeVersion := value? "MORTAR_XCODE_VERSION"
  appleBitcode := value? "MORTAR_APPLE_BITCODE"

namespace Toml

/-- The member of an enumeration that a value names, as a string or as the only key of a table whose
value is empty. -/
def member? {α : Type} (members : List α) (name : α → String) : Value → Option α
  | .text text | .table [(text, .table [])] | .table [(text, .array [])] =>
    members.find? fun member => name member = text
  | _ => none

def Value.text? : Value → Option String
  | .text value => some value
  | _ => none

instance : OptionValue Value where
  text? := Value.text?
  optionalText? value := value.text?.map some
  flag?
    | .flag value => some value
    | _ => none
  texts?
    | .array items => items.mapM Value.text?
    | _ => none
  member? := member?

end Toml

namespace Options

def fileName : String := "mortar.toml"

def ofToml? (text : String) : Option Options :=
  (Toml.parse text).bind ofFields?

/-- The valid options of a file, of which `decode` reads the text. -/
def ofFile (tree : FileTree) (file : Path) (decode : String → Option Options := ofToml?) :
    Except OptionsError Options := do
  match tree.read file with
  | .error .absent => throw (.notFound file)
  | .error .refused => throw (.unreadable file)
  | .ok text =>
    match decode text with
    | none => throw (.malformed file)
    | some options =>
      options.validate
      return options

/-- The options with the environment over them. The cpu is taken as it is; the other variables have
to be acceptable for their options. -/
def overlay (o : Options) (environment : Environment) : Except OptionsError Options := do
  let o := match environment.cpu with
    | some cpu => { o with cpu }
    | none => o
  let o ← (environment.compilationMode).elim (pure o) (o.assign .compilationMode)
  let o ← (environment.xcodeVersion).elim (pure o) (o.assign .xcodeVersion)
  (environment.appleBitcode).elim (pure o) (o.assign .appleBitcode)

/-- The path of the options file in a directory or in the nearest one above it that has one, as far
as `present` can tell. -/
def findFile? (present : Path → Bool) (start : Path) : Option Path :=
  let candidate := start / fileName
  if present candidate then some candidate
  else
    match _found : start.parent? with
    | some above => findFile? present above
    | none => none
termination_by start.text.length
decreasing_by exact Path.length_parent? _found

/-- A way to load options: from `tree`, with `environment` over what it holds unless the environment
is ignored. -/
structure Loader where
  tree : FileTree
  environment : Option Environment

namespace Loader

/-- The last layer and the check of the whole. -/
def finish (loader : Loader) (o : Options) : Except OptionsError Options := do
  let o ← loader.environment.elim (pure o) o.overlay
  o.validate
  return o

/-- Options from a given file. -/
def fromFile (loader : Loader) (file : Path) (decode : String → Option Options := ofToml?) :
    Except OptionsError Options := do
  loader.finish (← ofFile loader.tree file decode)

/-- Options from the file nearest to a directory, or the defaults where there is none. -/
def fromDirectory (loader : Loader) (start : Path) (decode : String → Option Options := ofToml?) :
    Except OptionsError Options :=
  match findFile? loader.tree.contains start with
  | some file => loader.fromFile file decode
  | none => loader.finish {}

end Loader

end Options

end ObjcPlan
