import ObjcPlan.Archive

/-!
The analysis of one library, given its direct dependencies: it is checked, its own values are
merged with what the dependencies offer, and its actions are planned.
-/

namespace ObjcPlan

/-- Everything that is planned for one library. -/
structure AnalyzedLibrary where
  label : Label
  /-- What the library offers to its dependents. -/
  providers : ProviderSet
  moduleMap : ModuleMap
  compiles : List CompileEntry
  archive : Option ArchivePlan
  fullyLinked : Option FullyLinkedPlan
  warnings : List Diagnostic
  deriving DecidableEq

namespace AnalyzedLibrary

def asDependency (l : AnalyzedLibrary) : Dependency :=
  .library l.label l.providers

/-- All actions, in the order in which they can run. -/
def actions (l : AnalyzedLibrary) : List Action :=
  l.compiles.map CompileEntry.action ++ l.archive.toList.map ArchivePlan.action ++
    l.fullyLinked.toList.map FullyLinkedPlan.action

def fileWrites (l : AnalyzedLibrary) : List FileWrite :=
  l.moduleMap.write?.toList ++ l.archive.toList.map ArchivePlan.objlist

/-- The first compilation whose object has a given file name. -/
def compileFor? (l : AnalyzedLibrary) (objectName : String) : Option CompileEntry :=
  l.compiles.find? fun entry => entry.object.fileName? = some objectName

def partNames : List String :=
  ["label", "providers", "module_map", "compiles", "archive", "fully_linked", "warnings"]

open Coded in
instance : Coded AnalyzedLibrary where
  encode l := .object [
    ("label", encode l.label),
    ("providers", encode l.providers),
    ("module_map", encode l.moduleMap),
    ("compiles", encode l.compiles),
    ("archive", encode l.archive),
    ("fully_linked", encode l.fullyLinked),
    ("warnings", encode l.warnings)]
  decode value := do
    let r ← Json.Record.ofJson? partNames value
    return {
      label := ← r.required "label"
      providers := ← r.required "providers"
      moduleMap := ← r.required "module_map"
      compiles := ← r.required "compiles"
      archive := ← r.optional "archive"
      fullyLinked := ← r.optional "fully_linked"
      warnings := ← r.required "warnings" }

end AnalyzedLibrary

/-- The directories of the given kinds that hold the files, each once. -/
def containers (suffixes : List String) (files : List Path) : OrderedSet Path :=
  .ofList (files.filterMap (Path.container? suffixes))

namespace Library

/-- The two places of an include directory: among the sources and among the generated files. -/
def includePaths (t : Library) (facts : Facts) (directory : Path) : List IncludePath :=
  let rooted := (t.label.execPath directory).lexical
  [.angle rooted, .angle (facts.genfilesDir / rooted)]

/-- The library's own values under every key. -/
def contribution (t : Library) (ownArchive : Option Path) (moduleMap : ModuleMap)
    (facts : Facts) : ProviderSet :=
  let exec (files : List Path) := files.map t.label.execPath
  let resource (files : Option (List Path)) := exec (files.getD [])
  let assetCatalogs := resource t.resources.assetCatalogs
  { header := .ofList (exec t.hdrs)
    library := .ofList ownArchive.toList
    ccLibrary := .empty
    sdkFramework := .ofList t.sdkFrameworks
    weakSdkFramework := .ofList t.weakSdkFrameworks
    sdkDylib := .ofList t.sdkDylibs
    define := .ofList (t.defines.map (expandMakeVariables · facts.cpu))
    includePath := .ofList (t.includes.flatMap (t.includePaths facts))
    copt := .ofList (if t.copts = [] then [] else [⟨t.label, t.copts⟩])
    moduleMap := .ofList [moduleMap.path]
    assetCatalog := .ofList assetCatalogs
    xcassetsDir := containers Validation.assetCatalogSuffixes assetCatalogs
    xcdatamodel := .ofList (resource t.resources.datamodels)
    storyboard := .ofList (resource t.resources.storyboards)
    strings := .ofList (resource t.resources.strings)
    xib := .ofList (resource t.resources.xibs)
    generalResourceFile := .ofList <|
      resource t.resources.resources ++ resource t.resources.structuredResources }

/-- The analysis of the library with its direct dependencies, in order. -/
def analyze (t : Library) (dependencies : List Dependency) (facts : Facts) :
    Except PlanError AnalyzedLibrary := do
  let warnings ← Validation.check ⟨facts.disableResources⟩ t
  let moduleMap := ModuleMap.generate t facts.genfilesDir
  let ownArchive := if t.hasObjects then some (Archive.path t.label facts) else none
  let providers := (t.contribution ownArchive moduleMap facts).merge dependencies
  let compilation : Compilation :=
    { library := t
      providers
      facts
      moduleMap := if facts.enableModuleMaps then some moduleMap else none }
  let compiles := compilation.plan
  return {
    label := t.label
    providers
    moduleMap
    compiles
    archive := Archive.plan? t compiles facts
    fullyLinked := Archive.planFullyLinked? t.label ownArchive providers facts
    warnings }

end Library

end ObjcPlan
