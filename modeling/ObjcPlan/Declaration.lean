import ObjcPlan.FileKind
import ObjcPlan.Label

/-!
Declared targets: Objective-C libraries, which are planned, and foreign libraries, which are built
elsewhere and only described.
-/

namespace ObjcPlan

/-- The resource attributes of a library. An attribute that is set to nothing is still set. -/
structure ResourceAttributes where
  assetCatalogs : Option (List Path) := none
  datamodels : Option (List Path) := none
  storyboards : Option (List Path) := none
  strings : Option (List Path) := none
  xibs : Option (List Path) := none
  structuredResources : Option (List Path) := none
  resources : Option (List Path) := none
  deriving DecidableEq

namespace ResourceAttributes

/-- All attributes by name. -/
def attributes (r : ResourceAttributes) : List (String × Option (List Path)) :=
  [("asset_catalogs", r.assetCatalogs), ("datamodels", r.datamodels),
    ("storyboards", r.storyboards), ("strings", r.strings), ("xibs", r.xibs),
    ("structured_resources", r.structuredResources), ("resources", r.resources)]

/-- The attributes that are set, with their files. -/
def setAttributes (r : ResourceAttributes) : List (String × List Path) :=
  r.attributes.filterMap fun (name, files) => files.map (name, ·)

open Coded in
instance : Coded ResourceAttributes where
  encode r := .object (r.attributes.map fun (name, files) => (name, encode files))
  decode value := do
    let names := (attributes {}).map (·.1)
    let r ← Json.Record.ofJson? names value
    return {
      assetCatalogs := ← r.withDefault "asset_catalogs" none
      datamodels := ← r.withDefault "datamodels" none
      storyboards := ← r.withDefault "storyboards" none
      strings := ← r.withDefault "strings" none
      xibs := ← r.withDefault "xibs" none
      structuredResources := ← r.withDefault "structured_resources" none
      resources := ← r.withDefault "resources" none }

end ResourceAttributes

/-- The declaration of an Objective-C library. Files are given relative to its package. -/
structure Library where
  label : Label
  /-- Sources with automatic reference counting, private headers and objects. -/
  srcs : List Path := []
  /-- Sources without automatic reference counting. -/
  nonArcSrcs : List Path := []
  hdrs : List Path := []
  /-- Directories in which dependents search for headers. -/
  includes : List Path := []
  /-- Definitions, `KEY` or `KEY=VALUE`. -/
  defines : List String := []
  copts : List String := []
  sdkFrameworks : List String := []
  weakSdkFrameworks : List String := []
  sdkDylibs : List String := []
  /-- The header that every source includes first. -/
  pch : Option Path := none
  moduleName : Option String := none
  /-- A module map to use instead of a generated one. -/
  moduleMap : Option Path := none
  resources : ResourceAttributes := {}
  deps : List Label := []
  deriving DecidableEq

namespace Library

/-- A file to compile, with or without automatic reference counting. -/
structure Source where
  file : Path
  arc : Bool
  deriving DecidableEq

/-- The files to compile: those of `srcs` and then those of `nonArcSrcs`, in order. -/
def compiledSources (t : Library) : List Source :=
  let compiled (file : Path) := (FileKind.ofPath file).language?.isSome
  (t.srcs.filter compiled).map (⟨·, true⟩) ++ (t.nonArcSrcs.filter compiled).map (⟨·, false⟩)

/-- The headers and textual files among `srcs`. -/
def privateHeaders (t : Library) : List Path :=
  t.srcs.filter fun file =>
    FileKind.ofPath file = .header ∨ FileKind.ofPath file = .textual

/-- The objects among `srcs`. -/
def precompiledObjects (t : Library) : List Path :=
  t.srcs.filter fun file => FileKind.ofPath file = .object

/-- Whether the library has anything to archive. -/
def hasObjects (t : Library) : Bool :=
  !t.compiledSources.isEmpty || !t.precompiledObjects.isEmpty

def partNames : List String :=
  ["label", "srcs", "non_arc_srcs", "hdrs", "includes", "defines", "copts", "sdk_frameworks",
    "weak_sdk_frameworks", "sdk_dylibs", "pch", "module_name", "module_map", "resources", "deps"]

open Coded in
instance : Coded Library where
  encode t := .object [
    ("label", encode t.label),
    ("srcs", encode t.srcs),
    ("non_arc_srcs", encode t.nonArcSrcs),
    ("hdrs", encode t.hdrs),
    ("includes", encode t.includes),
    ("defines", encode t.defines),
    ("copts", encode t.copts),
    ("sdk_frameworks", encode t.sdkFrameworks),
    ("weak_sdk_frameworks", encode t.weakSdkFrameworks),
    ("sdk_dylibs", encode t.sdkDylibs),
    ("pch", encode t.pch),
    ("module_name", encode t.moduleName),
    ("module_map", encode t.moduleMap),
    ("resources", encode t.resources),
    ("deps", encode t.deps)]
  decode value := do
    let r ← Json.Record.ofJson? partNames value
    return {
      label := ← r.required "label"
      srcs := ← r.withDefault "srcs" []
      nonArcSrcs := ← r.withDefault "non_arc_srcs" []
      hdrs := ← r.withDefault "hdrs" []
      includes := ← r.withDefault "includes" []
      defines := ← r.withDefault "defines" []
      copts := ← r.withDefault "copts" []
      sdkFrameworks := ← r.withDefault "sdk_frameworks" []
      weakSdkFrameworks := ← r.withDefault "weak_sdk_frameworks" []
      sdkDylibs := ← r.withDefault "sdk_dylibs" []
      pch := ← r.withDefault "pch" none
      moduleName := ← r.withDefault "module_name" none
      moduleMap := ← r.withDefault "module_map" none
      resources := ← r.withDefault "resources" {}
      deps := ← r.withDefault "deps" [] }

end Library

/-- What a library that is built elsewhere offers to its dependents. Paths are given as seen from
the workspace root. -/
structure ForeignLibrary where
  label : Label
  /-- Archives, in link order. -/
  libraries : List Path := []
  headers : List Path := []
  systemIncludes : List Path := []
  quoteIncludes : List Path := []
  defines : List String := []
  deriving DecidableEq

namespace ForeignLibrary

def partNames : List String :=
  ["label", "libraries", "headers", "system_includes", "quote_includes", "defines"]

open Coded in
instance : Coded ForeignLibrary where
  encode t := .object [
    ("label", encode t.label),
    ("libraries", encode t.libraries),
    ("headers", encode t.headers),
    ("system_includes", encode t.systemIncludes),
    ("quote_includes", encode t.quoteIncludes),
    ("defines", encode t.defines)]
  decode value := do
    let r ← Json.Record.ofJson? partNames value
    return {
      label := ← r.required "label"
      libraries := ← r.withDefault "libraries" []
      headers := ← r.withDefault "headers" []
      systemIncludes := ← r.withDefault "system_includes" []
      quoteIncludes := ← r.withDefault "quote_includes" []
      defines := ← r.withDefault "defines" [] }

end ForeignLibrary

end ObjcPlan
