import ObjcPlan.Compile

/-!
Archives: the static library of one target, and the fully linked archive that also holds the
libraries of everything it depends on. A target without objects has no archive of its own.
-/

namespace ObjcPlan

/-- The static library of one target. -/
structure ArchivePlan where
  archive : Path
  /-- The objects, those of compiled sources first. -/
  inputs : List Path
  /-- The list of the inputs, one a line, that the archiver reads. -/
  objlist : FileWrite
  action : Action
  deriving DecidableEq

/-- The archive of a target together with the libraries of its dependencies. -/
structure FullyLinkedPlan where
  archive : Path
  inputs : List Path
  action : Action
  deriving DecidableEq

namespace Archive

def mnemonic : String := "ObjcArchive"

def fullyLinkMnemonic : String := "ObjcFullyLink"

def path (label : Label) (facts : Facts) : Path :=
  facts.binDir / label.packagePath / ("lib" ++ label.name ++ ".a")

def objlistPath (label : Label) (facts : Facts) : Path :=
  facts.binDir / label.packagePath / (label.name ++ "-archive.objlist")

def fullyLinkedPath (label : Label) (facts : Facts) : Path :=
  facts.binDir / label.packagePath / (label.name ++ "_fully_linked.a")

/-- The arguments about the target of the archive. -/
def targetArguments (facts : Facts) (archive : Path) : List String :=
  ["-arch_only", facts.arch, "-syslibroot", facts.sdkRoot, "-o", archive.text]

/-- The plan for the archive of a target, if it has objects. -/
def plan? (t : Library) (compiles : List CompileEntry) (facts : Facts) : Option ArchivePlan :=
  let inputs := compiles.map CompileEntry.object ++ t.precompiledObjects.map t.label.execPath
  if inputs = [] then none
  else
    let archive := path t.label facts
    let objlist := objlistPath t.label facts
    some {
      archive
      inputs
      objlist := ⟨objlist, String.join (inputs.map fun input => input.text ++ "\n")⟩
      action :=
        { Action.new mnemonic facts.archiver with
          arguments := ["-static", "-filelist", objlist.text] ++ targetArguments facts archive
          inputs := .ofList (inputs ++ [objlist])
          outputs := [archive] } }

/-- The plan for the fully linked archive of a target, if there is anything to link: its own
archive and the libraries among its providers, each once. -/
def planFullyLinked? (label : Label) (ownArchive : Option Path) (providers : ProviderSet)
    (facts : Facts) : Option FullyLinkedPlan :=
  let inputs := OrderedSet.ofList (ownArchive.toList ++ providers.library.toList)
  if inputs.isEmpty then none
  else
    let archive := fullyLinkedPath label facts
    some {
      archive
      inputs := inputs.toList
      action :=
        { Action.new fullyLinkMnemonic facts.archiver with
          arguments :=
            "-static" :: targetArguments facts archive ++ inputs.toList.map Path.text
          inputs
          outputs := [archive] } }

end Archive

open Coded in
instance : Coded ArchivePlan where
  encode p := .object [
    ("archive", encode p.archive),
    ("inputs", encode p.inputs),
    ("objlist", encode p.objlist),
    ("action", encode p.action)]
  decode value := do
    let r ← Json.Record.ofJson? ["archive", "inputs", "objlist", "action"] value
    return {
      archive := ← r.required "archive"
      inputs := ← r.required "inputs"
      objlist := ← r.required "objlist"
      action := ← r.required "action" }

open Coded in
instance : Coded FullyLinkedPlan where
  encode p := .object [
    ("archive", encode p.archive),
    ("inputs", encode p.inputs),
    ("action", encode p.action)]
  decode value := do
    let r ← Json.Record.ofJson? ["archive", "inputs", "action"] value
    return {
      archive := ← r.required "archive"
      inputs := ← r.required "inputs"
      action := ← r.required "action" }

end ObjcPlan
