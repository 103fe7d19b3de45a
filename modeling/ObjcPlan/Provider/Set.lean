import ObjcPlan.Provider.Key

/-!
Provider sets: what a target offers to its dependents, one ordered set of values for each key.
-/

namespace ObjcPlan

structure ProviderSet where
  header : OrderedSet Path
  library : OrderedSet Path
  ccLibrary : OrderedSet Path
  sdkFramework : OrderedSet String
  weakSdkFramework : OrderedSet String
  sdkDylib : OrderedSet String
  define : OrderedSet String
  includePath : OrderedSet IncludePath
  copt : OrderedSet CoptGroup
  moduleMap : OrderedSet Path
  assetCatalog : OrderedSet Path
  xcassetsDir : OrderedSet Path
  xcdatamodel : OrderedSet Path
  storyboard : OrderedSet Path
  strings : OrderedSet Path
  xib : OrderedSet Path
  generalResourceFile : OrderedSet Path
  deriving DecidableEq

namespace ProviderSet

def get (s : ProviderSet) : (key : ProviderKey) → OrderedSet key.Value
  | .header => s.header
  | .library => s.library
  | .ccLibrary => s.ccLibrary
  | .sdkFramework => s.sdkFramework
  | .weakSdkFramework => s.weakSdkFramework
  | .sdkDylib => s.sdkDylib
  | .define => s.define
  | .includePath => s.includePath
  | .copt => s.copt
  | .moduleMap => s.moduleMap
  | .assetCatalog => s.assetCatalog
  | .xcassetsDir => s.xcassetsDir
  | .xcdatamodel => s.xcdatamodel
  | .storyboard => s.storyboard
  | .strings => s.strings
  | .xib => s.xib
  | .generalResourceFile => s.generalResourceFile

def ofFn (values : (key : ProviderKey) → OrderedSet key.Value) : ProviderSet where
  header := values .header
  library := values .library
  ccLibrary := values .ccLibrary
  sdkFramework := values .sdkFramework
  weakSdkFramework := values .weakSdkFramework
  sdkDylib := values .sdkDylib
  define := values .define
  includePath := values .includePath
  copt := values .copt
  moduleMap := values .moduleMap
  assetCatalog := values .assetCatalog
  xcassetsDir := values .xcassetsDir
  xcdatamodel := values .xcdatamodel
  storyboard := values .storyboard
  strings := values .strings
  xib := values .xib
  generalResourceFile := values .generalResourceFile

@[simp] theorem get_ofFn (values : (key : ProviderKey) → OrderedSet key.Value)
    (key : ProviderKey) : (ofFn values).get key = values key := by
  cases key <;> rfl

theorem ext_get {s t : ProviderSet} (h : ∀ key, s.get key = t.get key) : s = t := by
  have := h .header; have := h .library; have := h .ccLibrary; have := h .sdkFramework
  have := h .weakSdkFramework; have := h .sdkDylib; have := h .define; have := h .includePath
  have := h .copt; have := h .moduleMap; have := h .assetCatalog; have := h .xcassetsDir
  have := h .xcdatamodel; have := h .storyboard; have := h .strings; have := h .xib
  have := h .generalResourceFile
  cases s; cases t
  simp_all only [get]

def empty : ProviderSet :=
  ofFn fun _ => .empty

/-- The values under a key as texts. -/
def values (s : ProviderSet) (key : ProviderKey) : List String :=
  (s.get key).toList.flatMap key.render

/-- The groups of compiler options that other targets than `owner` declare. -/
def dependencyCopts (s : ProviderSet) (owner : Label) : List CoptGroup :=
  s.copt.toList.filter fun group => group.owner ≠ owner

open Coded in
instance : Coded ProviderSet where
  encode s := .object (ProviderKey.all.map fun key => (key.field, encode (s.get key)))
  decode value := do
    let r ← Json.Record.ofJson? (ProviderKey.all.map ProviderKey.field) value
    return {
      header := ← r.required "header"
      library := ← r.required "library"
      ccLibrary := ← r.required "cc_library"
      sdkFramework := ← r.required "sdk_framework"
      weakSdkFramework := ← r.required "weak_sdk_framework"
      sdkDylib := ← r.required "sdk_dylib"
      define := ← r.required "define"
      includePath := ← r.required "include"
      copt := ← r.required "copt"
      moduleMap := ← r.required "module_map"
      assetCatalog := ← r.required "asset_catalog"
      xcassetsDir := ← r.required "xcassets_dir"
      xcdatamodel := ← r.required "xcdatamodel"
      storyboard := ← r.required "storyboard"
      strings := ← r.required "strings"
      xib := ← r.required "xib"
      generalResourceFile := ← r.required "general_resource_file" }

end ProviderSet

end ObjcPlan
