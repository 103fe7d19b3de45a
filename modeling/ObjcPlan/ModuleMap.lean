import ObjcPlan.Action
import ObjcPlan.Declaration

/-!
Module maps, which tell the compiler what headers make up a module. A library brings its own map or
gets one that lists its public headers; headers among its sources are not part of the module.
-/

namespace ObjcPlan

structure ModuleMap where
  name : Option String
  path : Path
  publicHeaders : List Path
  privateHeaders : List Path
  /-- Whether the plan writes the map. -/
  generated : Bool
  deriving DecidableEq

namespace ModuleMap

/-- The compiler options that use the map. -/
def compileFlags (m : ModuleMap) : List String :=
  ["-fmodule-maps", "-fmodule-map-file=" ++ m.path.text] ++
    m.name.toList.map ("-fmodule-name=" ++ ·)

/-- The steps from the directory of the map up to the directory that its path starts from. -/
def ascent (m : ModuleMap) : String :=
  let directory := m.path.parent?.getD ""
  String.join ((directory.components.filterMap Path.Component.name?).map fun _ => "../")

/-- The text of the map. Headers are given relative to its directory. -/
def content (m : ModuleMap) : String :=
  "module \"" ++ m.name.getD "" ++ "\" \x7b\n  export *\n" ++
    String.join (m.publicHeaders.map fun header =>
      "  header \"" ++ m.ascent ++ header.text ++ "\"\n") ++
    String.join (m.privateHeaders.map fun header =>
      "  private header \"" ++ m.ascent ++ header.text ++ "\"\n") ++
    "\x7d\n"

/-- The writing of a map that is generated. -/
def write? (m : ModuleMap) : Option FileWrite :=
  if m.generated then some ⟨m.path, m.content⟩ else none

def generate (t : Library) (genfilesDir : Path) : ModuleMap :=
  match t.moduleMap with
  | some own =>
    { name := none
      path := t.label.execPath own
      publicHeaders := []
      privateHeaders := []
      generated := false }
  | none =>
    { name := some (t.moduleName.getD t.label.moduleName)
      path := genfilesDir / t.label.packagePath / (t.label.name ++ ".modulemaps") /
        "module.modulemap"
      publicHeaders :=
        (t.hdrs.filter fun file => FileKind.ofPath file = .header).map t.label.execPath
      privateHeaders := []
      generated := true }

def partNames : List String :=
  ["name", "path", "public_headers", "private_headers", "generated"]

open Coded in
instance : Coded ModuleMap where
  encode m := .object [
    ("name", encode m.name),
    ("path", encode m.path),
    ("public_headers", encode m.publicHeaders),
    ("private_headers", encode m.privateHeaders),
    ("generated", encode m.generated)]
  decode value := do
    let r ← Json.Record.ofJson? partNames value
    return {
      name := ← r.optional "name"
      path := ← r.required "path"
      publicHeaders := ← r.required "public_headers"
      privateHeaders := ← r.required "private_headers"
      generated := ← r.required "generated" }

end ModuleMap

end ObjcPlan
