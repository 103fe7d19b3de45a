import ObjcPlan.DepFile.Discovery
import ObjcPlan.ModuleMap
import ObjcPlan.Profile
import ObjcPlan.Provider.Merge
import ObjcPlan.Validation

/-!
Compile actions, one for each source. The order of the arguments is fixed: what the configuration
wants of every compilation, where things are searched, module maps, coverage and bitcode, then
definitions and user options from the most general to the library's own, reference counting, and
last the files.
-/

namespace ObjcPlan

/-- The variable that definitions and user options may hold for the configured cpu. -/
def targetCpuVariable : String := "$(TARGET_CPU)"

/-- A text with the configured cpu in place of its variable. -/
def expandMakeVariables (value cpu : String) : String :=
  String.ofList (Text.replaceAll targetCpuVariable.toList cpu.toList value.toList)

/-- The paths of a library's objects, in the order of its sources. An object is named like its
source and lies in a directory for its way of reference counting. Sources of one such directory
that have the same stem get numbered directories of their own, counted from zero. -/
def objectPaths (t : Library) (binDir : Path) : List Path :=
  let root := binDir / t.label.packagePath / "_objs" / t.label.name
  let places := t.compiledSources.map fun source => (source.arc, source.file.stem?.getD "")
  places.zipIdx.map fun ((arc, stem), index) =>
    let directory := root / (if arc then "arc" else "non_arc")
    let directory :=
      if places.count (arc, stem) > 1 then
        directory / toString ((places.take index).count (arc, stem))
      else directory
    directory / (stem ++ ".o")

/-- The planned compilation of one source. -/
structure CompileEntry where
  source : Path
  language : Language
  arc : Bool
  object : Path
  /-- Where the compiler reports what it read. -/
  depFile : Path
  action : Action
  discovery : Discovery
  deriving DecidableEq

namespace CompileEntry

/-- The action with its inputs narrowed by the contents of its dependency file. -/
def refine (entry : CompileEntry) (contents : String) : Except PlanError Action :=
  entry.discovery.refine entry.action entry.source contents

def partNames : List String :=
  ["source", "language", "arc", "object", "dotd", "action", "discovery"]

open Coded in
instance : Coded CompileEntry where
  encode e := .object [
    ("source", encode e.source),
    ("language", encode e.language),
    ("arc", encode e.arc),
    ("object", encode e.object),
    ("dotd", encode e.depFile),
    ("action", encode e.action),
    ("discovery", encode e.discovery)]
  decode value := do
    let r ← Json.Record.ofJson? partNames value
    return {
      source := ← r.required "source"
      language := ← r.required "language"
      arc := ← r.required "arc"
      object := ← r.required "object"
      depFile := ← r.required "dotd"
      action := ← r.required "action"
      discovery := ← r.required "discovery" }

end CompileEntry

/-- What the compilations of one library have in common. -/
structure Compilation where
  library : Library
  /-- What the library offers, merged with its dependencies. -/
  providers : ProviderSet
  facts : Facts
  /-- The module map to compile with, if module maps are to be used. -/
  moduleMap : Option ModuleMap

namespace Compilation

def mnemonic : String := "ObjcCompile"

/-- The directory below the generated files that all compilations cache modules in. -/
def modulesCacheDir : String := "_objc_module_cache"

def expand (c : Compilation) (value : String) : String :=
  expandMakeVariables value c.facts.cpu

/-- User options as they are passed on, without those that plans set themselves. -/
def userCopts (c : Compilation) (copts : List String) : List String :=
  (copts.filter fun copt => !Validation.setsModulesCache copt).map c.expand

/-- The arguments about what the target of the compilation is and where it finds its files. -/
def searchArguments (c : Compilation) : List String :=
  [c.facts.minimumOsFlag, "-arch", c.facts.arch, "-isysroot", c.facts.sdkRoot] ++
    c.facts.frameworkRoots.map ("-F" ++ ·) ++
    c.providers.includePath.toList.flatMap IncludePath.arguments ++
    ["-iquote", c.facts.genfilesDir.text] ++
    (c.library.pch.toList.flatMap fun pch => ["-include", (c.library.label.execPath pch).text])

/-- The arguments about module maps. -/
def moduleArguments (c : Compilation) : List String :=
  if c.facts.enableModuleMaps then c.moduleMap.toList.flatMap ModuleMap.compileFlags else []

/-- The arguments that definitions and user options make. -/
def userArguments (c : Compilation) : List String :=
  c.providers.define.toList.map (fun define => "-D" ++ c.expand define) ++
    c.facts.objccopts.map c.expand ++
    (c.providers.dependencyCopts c.library.label).flatMap (fun group => c.userCopts group.flags) ++
    c.userCopts c.library.copts ++
    (if "-fmodules" ∈ c.library.copts then
      [Validation.modulesCacheOption ++ "=" ++ (c.facts.genfilesDir / modulesCacheDir).text]
    else [])

/-- The arguments of the compilation of one source. -/
def arguments (c : Compilation) (source : Path) (language : Language) (arc : Bool)
    (object depFile : Path) : List String :=
  Profile.baseFlags c.facts language ++
    c.searchArguments ++
    c.moduleArguments ++
    c.facts.coverage.toList.flatMap CoverageMode.compileFlags ++
    c.facts.bitcode.compileFlag?.toList ++
    c.userArguments ++
    (if language.usesArc then [if arc then "-fobjc-arc" else "-fno-objc-arc"] else []) ++
    ["-c", source.text, "-o", object.text, "-MD", "-MF", depFile.text]

/-- The declared inputs of the compilation of one source: the source, the headers of all
dependencies, private headers, and what every source includes first; with module maps, the maps. -/
def inputs (c : Compilation) (source : Path) : OrderedSet Path :=
  let label := c.library.label
  OrderedSet.ofList <|
    source :: c.providers.header.toList ++
      c.library.privateHeaders.map label.execPath ++
      c.library.pch.toList.map label.execPath ++
      (if c.facts.enableModuleMaps then
        c.moduleMap.toList.map ModuleMap.path ++ c.providers.moduleMap.toList
      else [])

/-- The planned compilation of a source file with a given object. -/
def entry (c : Compilation) (file : Path) (arc : Bool) (language : Language) (object : Path) :
    CompileEntry :=
  let source := c.library.label.execPath file
  let depFile := object.withExtension "d"
  { source
    language
    arc
    object
    depFile
    action :=
      { Action.new mnemonic c.facts.compiler with
        arguments := c.arguments source language arc object depFile
        inputs := c.inputs source
        outputs := [object, depFile]
        env := c.facts.compileEnv }
    discovery := ⟨c.facts.useDotdPruning⟩ }

/-- The planned compilations of all sources, in order. -/
def plan (c : Compilation) : List CompileEntry :=
  (c.library.compiledSources.zip (objectPaths c.library c.facts.binDir)).filterMap
    fun (source, object) =>
      (FileKind.ofPath source.file).language?.map fun language =>
        c.entry source.file source.arc language object

end Compilation

end ObjcPlan
