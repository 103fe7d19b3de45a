import ObjcPlan.Label

/-!
The keys under which targets offer facts to their dependents, the values that each key holds, and
the order in which a target's own values and those of its dependencies are listed.
-/

namespace ObjcPlan

/-- A directory in which headers are searched, and how. -/
inductive IncludePath
  | angle (path : Path)
  | quote (path : Path)
  | system (path : Path)
  deriving DecidableEq

namespace IncludePath

def path : IncludePath → Path
  | angle path | quote path | system path => path

def kind : IncludePath → String
  | angle _ => "angle"
  | quote _ => "quote"
  | system _ => "system"

/-- The compiler options for the directory. -/
def arguments : IncludePath → List String
  | angle path => ["-I" ++ path.text]
  | quote path => ["-iquote", path.text]
  | system path => ["-isystem", path.text]

/-- The ways to search a directory, by name. -/
def kinds : List (String × (Path → IncludePath)) :=
  [("angle", angle), ("quote", quote), ("system", system)]

instance : Identity IncludePath := .ofKey fun i => (i.kind, i.path.components)

/-- The way to search that a part names. An object may name it like any member of an enumeration,
but an array only as a string. -/
def ofKind? (positional : Bool) : Json → Option (Path → IncludePath)
  | .string text => kinds.lookup text
  | value => if positional then none else (Json.member? kinds (·.1) value).map (·.2)

open Coded in
instance : Coded IncludePath where
  encode i := .object [("kind", .string i.kind), ("path", encode i.path)]
  decode value := do
    let r ← Json.Record.ofJson? ["kind", "path"] value
    let make ← ofKind? r.positional (← r.parts.lookup "kind")
    return make (← r.required "path")

end IncludePath

/-- The compiler options that one target declares. -/
structure CoptGroup where
  owner : Label
  flags : List String
  deriving DecidableEq

namespace CoptGroup

instance : Identity CoptGroup := .ofKey id

open Coded in
instance : Coded CoptGroup where
  encode g := .object [("owner", encode g.owner), ("flags", encode g.flags)]
  decode value := do
    let r ← Json.Record.ofJson? ["owner", "flags"] value
    return { owner := ← r.required "owner", flags := ← r.required "flags" }

end CoptGroup

inductive ProviderKey
  | header
  | library
  | ccLibrary
  | sdkFramework
  | weakSdkFramework
  | sdkDylib
  | define
  | includePath
  | copt
  | moduleMap
  | assetCatalog
  | xcassetsDir
  | xcdatamodel
  | storyboard
  | strings
  | xib
  | generalResourceFile
  deriving DecidableEq

/-- Where a target's own values stand among those of its dependencies. -/
inductive MergeOrder
  /-- First, before the dependencies in the order of their declaration. -/
  | link
  /-- Last. -/
  | build
  deriving DecidableEq

namespace ProviderKey

def all : List ProviderKey :=
  [header, library, ccLibrary, sdkFramework, weakSdkFramework, sdkDylib, define, includePath, copt,
    moduleMap, assetCatalog, xcassetsDir, xcdatamodel, storyboard, strings, xib,
    generalResourceFile]

def name : ProviderKey → String
  | header => "HEADER"
  | library => "LIBRARY"
  | ccLibrary => "CC_LIBRARY"
  | sdkFramework => "SDK_FRAMEWORK"
  | weakSdkFramework => "WEAK_SDK_FRAMEWORK"
  | sdkDylib => "SDK_DYLIB"
  | define => "DEFINE"
  | includePath => "INCLUDE"
  | copt => "COPT"
  | moduleMap => "MODULE_MAP"
  | assetCatalog => "ASSET_CATALOG"
  | xcassetsDir => "XCASSETS_DIR"
  | xcdatamodel => "XCDATAMODEL"
  | storyboard => "STORYBOARD"
  | strings => "STRINGS"
  | xib => "XIB"
  | generalResourceFile => "GENERAL_RESOURCE_FILE"

/-- The name of the field that holds the key's values. -/
def field : ProviderKey → String
  | header => "header"
  | library => "library"
  | ccLibrary => "cc_library"
  | sdkFramework => "sdk_framework"
  | weakSdkFramework => "weak_sdk_framework"
  | sdkDylib => "sdk_dylib"
  | define => "define"
  | includePath => "include"
  | copt => "copt"
  | moduleMap => "module_map"
  | assetCatalog => "asset_catalog"
  | xcassetsDir => "xcassets_dir"
  | xcdatamodel => "xcdatamodel"
  | storyboard => "storyboard"
  | strings => "strings"
  | xib => "xib"
  | generalResourceFile => "general_resource_file"

/-- What is searched or linked in order lists a target's own values first; all else lists what it
builds on first. -/
def order : ProviderKey → MergeOrder
  | library | ccLibrary | define | includePath | copt => .link
  | _ => .build

/-- The type of the values under a key. -/
@[reducible] def Value : ProviderKey → Type
  | header | library | ccLibrary => Path
  | sdkFramework | weakSdkFramework | sdkDylib | define => String
  | includePath => IncludePath
  | copt => CoptGroup
  | moduleMap | assetCatalog | xcassetsDir | xcdatamodel | storyboard | strings | xib
  | generalResourceFile => Path

@[reducible] instance instIdentityValue (key : ProviderKey) : Identity key.Value :=
  match key with
  | header | library | ccLibrary => inferInstanceAs (Identity Path)
  | sdkFramework | weakSdkFramework | sdkDylib | define => inferInstanceAs (Identity String)
  | includePath => inferInstanceAs (Identity IncludePath)
  | copt => inferInstanceAs (Identity CoptGroup)
  | moduleMap | assetCatalog | xcassetsDir | xcdatamodel | storyboard | strings | xib
  | generalResourceFile => inferInstanceAs (Identity Path)

@[reducible] instance instCodedValue (key : ProviderKey) : Coded key.Value :=
  match key with
  | header | library | ccLibrary => inferInstanceAs (Coded Path)
  | sdkFramework | weakSdkFramework | sdkDylib | define => inferInstanceAs (Coded String)
  | includePath => inferInstanceAs (Coded IncludePath)
  | copt => inferInstanceAs (Coded CoptGroup)
  | moduleMap | assetCatalog | xcassetsDir | xcdatamodel | storyboard | strings | xib
  | generalResourceFile => inferInstanceAs (Coded Path)

/-- The texts that a value under a key is shown as. -/
def render : (key : ProviderKey) → key.Value → List String
  | header, p | library, p | ccLibrary, p | moduleMap, p | assetCatalog, p | xcassetsDir, p
  | xcdatamodel, p | storyboard, p | strings, p | xib, p | generalResourceFile, p => [p.text]
  | sdkFramework, s | weakSdkFramework, s | sdkDylib, s | define, s => [s]
  | includePath, i => [" ".intercalate i.arguments]
  | copt, g => g.flags

instance : Coded ProviderKey := Json.enumeration all name

end ProviderKey

end ObjcPlan
