import ObjcPlan.Options.Basic
import ObjcPlan.Toolchain

/-!
What a configuration comes to: options and a toolchain resolved into the values that plans are made
of. Options that validate can still fail here, when the number in front of an iOS SDK version does
not fit in 32 bits.
-/

namespace ObjcPlan

structure Facts where
  cpu : String
  arch : String
  platform : Platform
  minimumOs : String
  sdkVersion : String
  /-- The Xcode version as `major.minor`. -/
  xcodeVersion : Option String
  /-- The bitcode mode in effect, which is none on simulators. -/
  bitcode : BitcodeMode
  compilationMode : CompilationMode
  generateDsym : Bool
  coverage : Option CoverageMode
  compiler : Path
  archiver : Path
  sdkRoot : String
  /-- Where frameworks are searched, the system's place first. -/
  frameworkRoots : List String
  binDir : Path
  genfilesDir : Path
  objccopts : List String
  enableModuleMaps : Bool
  useDotdPruning : Bool
  disableResources : Bool
  deriving DecidableEq

namespace Facts

/-- The option that sets the least version of the operating system. -/
def minimumOsFlag (f : Facts) : String :=
  f.platform.minimumOsOption ++ f.minimumOs

/-- The names of the features that the configuration turns on. -/
def features (f : Facts) : List String :=
  f.xcodeVersion.toList.map ("xcode_" ++ ·)

/-- The environment of compile actions. -/
def compileEnv (f : Facts) : SortedMap String String :=
  SortedMap.ofList <|
    [("APPLE_SDK_PLATFORM", f.platform.bundleName),
      ("APPLE_SDK_VERSION_OVERRIDE", f.sdkVersion)] ++
    f.xcodeVersion.toList.map (("XCODE_VERSION_OVERRIDE", ·))

/-- An Xcode version cut or filled up to `major.minor`; what comes after does not matter. -/
def normalizeXcodeVersion (raw : String) : Except OptionsError String :=
  if raw = "" then .error (.invalidValue "xcode_version" .emptyVersion)
  else
    let parts := Text.split '.' raw
    let major := parts.headD ""
    let minor := parts.tail.headD "0"
    if Version.isNumber major && Version.isNumber minor then .ok (major ++ "." ++ minor)
    else .error (.invalidValue "xcode_version" (.malformedVersion raw))

/-- The number in front of a version, if there is one below `2 ^ 32`. -/
def versionMajor? (version : String) : Option Nat :=
  let front := (Text.split '.' version).headD ""
  if Version.isNumber front then
    let number := front.toList.foldl (fun n c => 10 * n + (c.toNat - 48)) 0
    if number < UInt32.size then some number else none
  else none

/-- The place of the system's frameworks: iOS SDKs before version 9 keep them apart. -/
def systemFrameworks (platform : Platform) (sdkVersion sdkRoot : String) :
    Except OptionsError String :=
  let usual := sdkRoot ++ "/System/Library/Frameworks"
  if platform.family = .ios then
    match versionMajor? sdkVersion with
    | none => .error (.invalidValue "sdk_version" (.malformedVersion sdkVersion))
    | some major =>
      .ok (if major < 9 then sdkRoot ++ "/Developer/Library/Frameworks" else usual)
  else .ok usual

/-- The facts of valid options with a toolchain. -/
def resolve (o : Options) (toolchain : Toolchain) : Except OptionsError Facts := do
  o.validate
  let (family, arch) ← o.target
  let platform := Platform.ofArch family arch
  let sdkVersion := o.sdkVersionFor family
  let xcodeVersion ← o.xcodeVersion.mapM normalizeXcodeVersion
  let sdkRoot := toolchain.sdkRoot platform
  let system ← systemFrameworks platform sdkVersion sdkRoot
  let developer := toolchain.developerDir ++ "/Platforms/" ++ platform.bundleName ++
    ".platform/Developer/Library/Frameworks"
  return {
    cpu := o.cpu
    arch
    platform
    minimumOs := o.minimumOsFor family
    sdkVersion
    xcodeVersion
    bitcode := if platform.isSimulator then .none else o.appleBitcode
    compilationMode := o.compilationMode
    generateDsym := o.generateDsym
    coverage := o.coverageMode?
    compiler := toolchain.compiler platform
    archiver := toolchain.archiver platform
    sdkRoot
    frameworkRoots := (OrderedSet.ofList [system, developer]).toList
    binDir := o.binDir
    genfilesDir := o.genfilesDir
    objccopts := o.objccopts
    enableModuleMaps := o.enableModuleMaps
    useDotdPruning := o.useDotdPruning
    disableResources := o.disableResources }

def partNames : List String :=
  ["cpu", "arch", "platform", "minimum_os", "sdk_version", "xcode_version", "bitcode",
    "compilation_mode", "generate_dsym", "coverage", "compiler", "archiver", "sdk_root",
    "framework_roots", "bin_dir", "genfiles_dir", "objccopts", "enable_module_maps",
    "use_dotd_pruning", "disable_resources"]

open Coded in
instance : Coded Facts where
  encode f := .object [
    ("cpu", encode f.cpu),
    ("arch", encode f.arch),
    ("platform", encode f.platform),
    ("minimum_os", encode f.minimumOs),
    ("sdk_version", encode f.sdkVersion),
    ("xcode_version", encode f.xcodeVersion),
    ("bitcode", encode f.bitcode),
    ("compilation_mode", encode f.compilationMode),
    ("generate_dsym", encode f.generateDsym),
    ("coverage", encode f.coverage),
    ("compiler", encode f.compiler),
    ("archiver", encode f.archiver),
    ("sdk_root", encode f.sdkRoot),
    ("framework_roots", encode f.frameworkRoots),
    ("bin_dir", encode f.binDir),
    ("genfiles_dir", encode f.genfilesDir),
    ("objccopts", encode f.objccopts),
    ("enable_module_maps", encode f.enableModuleMaps),
    ("use_dotd_pruning", encode f.useDotdPruning),
    ("disable_resources", encode f.disableResources)]
  decode value := do
    let r ← Json.Record.ofJson? partNames value
    return {
      cpu := ← r.required "cpu"
      arch := ← r.required "arch"
      platform := ← r.required "platform"
      minimumOs := ← r.required "minimum_os"
      sdkVersion := ← r.required "sdk_version"
      xcodeVersion := ← r.optional "xcode_version"
      bitcode := ← r.required "bitcode"
      compilationMode := ← r.required "compilation_mode"
      generateDsym := ← r.required "generate_dsym"
      coverage := ← r.optional "coverage"
      compiler := ← r.required "compiler"
      archiver := ← r.required "archiver"
      sdkRoot := ← r.required "sdk_root"
      frameworkRoots := ← r.required "framework_roots"
      binDir := ← r.required "bin_dir"
      genfilesDir := ← r.required "genfiles_dir"
      objccopts := ← r.required "objccopts"
      enableModuleMaps := ← r.required "enable_module_maps"
      useDotdPruning := ← r.required "use_dotd_pruning"
      disableResources := ← r.required "disable_resources" }

end Facts

end ObjcPlan
