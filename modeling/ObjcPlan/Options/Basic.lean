import ObjcPlan.Options.Modes
import ObjcPlan.Platform

/-!
The options of one configuration: their defaults, what makes them valid, and what follows from them
directly, such as the platform family of the cpu and the output directories.
-/

namespace ObjcPlan

structure Options where
  /-- The target cpu, written `<family>_<arch>`. -/
  cpu : String := "ios_x86_64"
  compilationMode : CompilationMode := .fastbuild
  minimumOs : PerFamily (Option String) := ⟨none, none, none, none⟩
  sdkVersion : PerFamily (Option String) := ⟨none, none, none, none⟩
  xcodeVersion : Option String := none
  /-- The bitcode mode that is wanted; simulators get none. -/
  appleBitcode : BitcodeMode := .none
  collectCodeCoverage : Bool := false
  /-- Collect coverage by source regions instead of by counters in the objects. -/
  useLlvmCovmap : Bool := false
  /-- Options for every Objective-C compilation. -/
  objccopts : List String := []
  enableModuleMaps : Bool := false
  /-- Narrow the inputs of compile actions to what the compiler reports. -/
  useDotdPruning : Bool := false
  /-- Refuse resource attributes on libraries. -/
  disableResources : Bool := false
  /-- Keep debug information in optimized builds. -/
  generateDsym : Bool := false
  /-- The root of all output directories. -/
  outputBase : String := "mortar-out"
  deriving DecidableEq

namespace Options

instance : Inhabited Options := ⟨{}⟩

/-- The family that the front of a cpu names; macOS goes by `darwin`. -/
def familyOf? : String → Option Family
  | "ios" => some .ios
  | "tvos" => some .tvos
  | "watchos" => some .watchos
  | "darwin" => some .macos
  | _ => none

/-- Family and architecture of a cpu: the parts around its first underscore, the second one not
empty. Plain `darwin` is short for `darwin_x86_64`. -/
def splitCpu? (cpu : String) : Option (Family × String) :=
  if cpu = "darwin" then some (.macos, "x86_64")
  else
    match Text.splitOnce? '_' cpu with
    | some (front, arch) => if arch = "" then none else (familyOf? front).map (·, arch)
    | none => none

def target (o : Options) : Except OptionsError (Family × String) :=
  match splitCpu? o.cpu with
  | some target => .ok target
  | none => .error (.unsupportedCpu o.cpu)

def family (o : Options) : Except OptionsError Family :=
  o.target.map (·.1)

def arch (o : Options) : Except OptionsError String :=
  o.target.map (·.2)

/-- The name of a family's least version of the operating system, as a field. -/
def minimumOsField (family : Family) : String :=
  family.name ++ "_minimum_os"

def sdkVersionField (family : Family) : String :=
  family.name ++ "_sdk_version"

/-- The fields that hold versions, with their values, in the order in which they are checked. -/
def versions (o : Options) : List (String × Option String) :=
  Family.all.map (fun family => (minimumOsField family, o.minimumOs.get family)) ++
    Family.all.map (fun family => (sdkVersionField family, o.sdkVersion.get family)) ++
    [("xcode_version", o.xcodeVersion)]

/-- Accepts options with a supported cpu, well-formed versions and an output base. -/
def validate (o : Options) : Except OptionsError Unit := do
  let _ ← o.target
  o.versions.forM fun (field, version) => version.forM (Version.check field)
  if o.outputBase = "" then
    throw (.invalidValue "output_base" .emptyOutputBase)

def sdkVersionFor (o : Options) (family : Family) : String :=
  (o.sdkVersion.get family).getD family.defaultSdkVersion

/-- The least version of the operating system for a family, which is the SDK version unless it is
configured. -/
def minimumOsFor (o : Options) (family : Family) : String :=
  (o.minimumOs.get family).getD (o.sdkVersionFor family)

/-- The coverage to collect, if any. -/
def coverageMode? (o : Options) : Option CoverageMode :=
  if o.collectCodeCoverage then some (if o.useLlvmCovmap then .llvmCovmap else .gcov) else none

def outputDirName (o : Options) : String :=
  o.cpu ++ "-" ++ o.compilationMode.name

/-- The directory for compiled outputs. -/
def binDir (o : Options) : Path :=
  (⟨o.outputBase⟩ : Path) / o.outputDirName / "bin"

/-- The directory for generated sources. -/
def genfilesDir (o : Options) : Path :=
  (⟨o.outputBase⟩ : Path) / o.outputDirName / "genfiles"

end Options

end ObjcPlan
