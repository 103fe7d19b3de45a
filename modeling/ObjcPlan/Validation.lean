import ObjcPlan.Declaration
import ObjcPlan.Error

/-!
The checks that a declaration has to pass before it is planned. All findings are collected, in the
order of the checks; errors refuse the declaration and warnings go along with it.
-/

namespace ObjcPlan

namespace Validation

/-- What depends on the configuration in accepting declarations. -/
structure Policy where
  /-- Refuse resource attributes. -/
  disableResources : Bool := false
  deriving DecidableEq

/-- The directories that may hold an entry of an asset catalog, by the ends of their names. -/
def assetCatalogSuffixes : List String := [".xcassets"]

/-- The directories that may hold a data model, by the ends of their names. -/
def datamodelSuffixes : List String := [".xcdatamodel", ".xcdatamodeld"]

/-- The compiler option that plans set themselves. -/
def modulesCacheOption : String := "-fmodules-cache-path"

def error (place message : String) : Diagnostic := ⟨.error, place, message⟩

def warning (place message : String) : Diagnostic := ⟨.warning, place, message⟩

/-- Files of a kind that their attribute does not take. -/
def kindFindings (t : Library) (a : SourceAttribute) (files : List Path) : List Diagnostic :=
  files.filterMap fun file =>
    if a.allows (FileKind.ofPath file) then none
    else some <| error a.name <|
      "'" ++ t.label.fileLabel file ++ "' does not produce any objc_library " ++ a.name ++
        " files (expected " ++ a.expected ++ ")"

/-- Sources that are in both source attributes. -/
def sourceOverlaps (t : Library) : List Diagnostic :=
  (Identity.common t.srcs t.nonArcSrcs).map fun file =>
    error "srcs" <|
      "File '" ++ (t.label.execPath file).text ++
        "' is present in both srcs and non_arc_srcs which is forbidden."

/-- Sources that are public headers as well. -/
def headerOverlaps (t : Library) : List Diagnostic :=
  (Identity.common (t.srcs ++ t.nonArcSrcs) t.hdrs).map fun file =>
    warning "srcs" <|
      "File '" ++ (t.label.execPath file).text ++ "' is in both srcs and hdrs."

/-- A module name beside a module map. -/
def moduleFindings (t : Library) : List Diagnostic :=
  if t.moduleName.isSome && t.moduleMap.isSome then
    [error "module_name"
      "Specifying both module_name and module_map is invalid, please remove one of them."]
  else []

/-- Include directories that start at the root. -/
def includeFindings (t : Library) : List Diagnostic :=
  (t.includes.filter Path.isRooted).map fun directory =>
    error "includes" <|
      "The path '" ++ directory.text ++ "' is absolute, but only relative paths are allowed."

/-- Resource attributes that are set where they are not allowed. -/
def disabledResources (policy : Policy) (t : Library) : List Diagnostic :=
  if policy.disableResources then
    t.resources.setAttributes.map fun (name, _) =>
      error name <|
        "objc_library resource attributes are not allowed. " ++
          "Please use the 'data' attribute instead."
  else []

/-- Files of a resource attribute that no directory of the right type holds. -/
def strayResources (t : Library) (name : String) (files : Option (List Path))
    (suffixes : List String) : List Diagnostic :=
  ((files.getD []).filter fun file => (file.container? suffixes).isNone).map fun file =>
    error name <|
      "File '" ++ (t.label.execPath file).text ++
        "' is not in a directory of one of these type(s): [" ++ ", ".intercalate suffixes ++ "]"

/-- Whether a text starts with the option that plans set themselves. -/
def setsModulesCache (copt : String) : Bool :=
  modulesCacheOption.toList.isPrefixOf copt.toList

theorem setsModulesCache_iff {copt : String} :
    setsModulesCache copt = true ↔ modulesCacheOption.toList <+: copt.toList :=
  List.isPrefixOf_iff_prefix

/-- Compiler options that will be dropped; one finding for all of them. -/
def coptFindings (t : Library) : List Diagnostic :=
  if t.copts.any setsModulesCache then
    [warning "copts" ("setting '" ++ modulesCacheOption ++ "' manually in copts is unsupported")]
  else []

def findings (policy : Policy) (t : Library) : List Diagnostic :=
  kindFindings t .srcs t.srcs ++
    kindFindings t .nonArcSrcs t.nonArcSrcs ++
    sourceOverlaps t ++
    headerOverlaps t ++
    moduleFindings t ++
    includeFindings t ++
    disabledResources policy t ++
    strayResources t "asset_catalogs" t.resources.assetCatalogs assetCatalogSuffixes ++
    strayResources t "datamodels" t.resources.datamodels datamodelSuffixes ++
    coptFindings t

/-- The warnings about a declaration, or all its errors. -/
def check (policy : Policy) (t : Library) : Except PlanError (List Diagnostic) :=
  let errors := (findings policy t).filter Diagnostic.isError
  if errors = [] then .ok ((findings policy t).filter fun finding => !finding.isError)
  else .error (.invalidDeclaration t.label errors)

end Validation

end ObjcPlan
