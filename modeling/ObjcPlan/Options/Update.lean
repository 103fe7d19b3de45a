import ObjcPlan.Options.Basic

/-!
Overriding one option by a text, the way a flag on a command line would. An override that is refused
leaves the options as they were, except that a refused cpu stays in place.
-/

namespace ObjcPlan

/-- The options that have a name of their own. -/
inductive OptionKey
  | cpu
  | compilationMode
  | minimumOs (family : Family)
  | sdkVersion (family : Family)
  | xcodeVersion
  | appleBitcode
  | collectCodeCoverage
  | useLlvmCovmap
  | objccopts
  | enableModuleMaps
  | useDotdPruning
  | disableResources
  | generateDsym
  | outputBase
  deriving DecidableEq

namespace OptionKey

def all : List OptionKey :=
  [cpu, compilationMode] ++ Family.all.map minimumOs ++ Family.all.map sdkVersion ++
    [xcodeVersion, appleBitcode, collectCodeCoverage, useLlvmCovmap, objccopts, enableModuleMaps,
      useDotdPruning, disableResources, generateDsym, outputBase]

def name : OptionKey → String
  | cpu => "cpu"
  | compilationMode => "compilation_mode"
  | minimumOs family => Options.minimumOsField family
  | sdkVersion family => Options.sdkVersionField family
  | xcodeVersion => "xcode_version"
  | appleBitcode => "apple_bitcode"
  | collectCodeCoverage => "collect_code_coverage"
  | useLlvmCovmap => "use_llvm_covmap"
  | objccopts => "objccopts"
  | enableModuleMaps => "enable_module_maps"
  | useDotdPruning => "use_dotd_pruning"
  | disableResources => "disable_objc_library_resources"
  | generateDsym => "generate_dsym"
  | outputBase => "output_base"

/-- The key with a given name. -/
def ofName? (name : String) : Option OptionKey :=
  all.find? fun key => key.name = name

/-- The key that an override names; the repeatable option also goes by its singular. -/
def ofOverride? (text : String) : Option OptionKey :=
  if text = "objccopt" then some objccopts else ofName? text

end OptionKey

namespace Options

/-- The options with one of them taken from a text. -/
def assign (o : Options) (key : OptionKey) (value : String) : Except OptionsError Options :=
  match key with
  | .cpu => .ok { o with cpu := value }
  | .compilationMode => (CompilationMode.parse value).map ({ o with compilationMode := · })
  | .minimumOs family => (Version.check key.name value).map fun _ =>
      { o with minimumOs := o.minimumOs.set family (some value) }
  | .sdkVersion family => (Version.check key.name value).map fun _ =>
      { o with sdkVersion := o.sdkVersion.set family (some value) }
  | .xcodeVersion => (Version.check key.name value).map fun _ =>
      { o with xcodeVersion := some value }
  | .appleBitcode => (BitcodeMode.parse value).map ({ o with appleBitcode := · })
  | .collectCodeCoverage => (parseFlag key.name value).map ({ o with collectCodeCoverage := · })
  | .useLlvmCovmap => (parseFlag key.name value).map ({ o with useLlvmCovmap := · })
  | .objccopts => .ok { o with objccopts := o.objccopts ++ [value] }
  | .enableModuleMaps => (parseFlag key.name value).map ({ o with enableModuleMaps := · })
  | .useDotdPruning => (parseFlag key.name value).map ({ o with useDotdPruning := · })
  | .disableResources => (parseFlag key.name value).map ({ o with disableResources := · })
  | .generateDsym => (parseFlag key.name value).map ({ o with generateDsym := · })
  | .outputBase => .ok { o with outputBase := value }

/-- The options after an override, and why it was refused if it was. The value of `cpu` is put in
place before it is judged; `objccopts` grows by the value; all other options are replaced. -/
def set (o : Options) (key value : String) : Options × Except OptionsError Unit :=
  match OptionKey.ofOverride? key with
  | none => (o, .error (.unknownOption key))
  | some known =>
    match o.assign known value with
    | .error error => (o, .error error)
    | .ok changed =>
      if known = .cpu then (changed, changed.target.map fun _ => ()) else (changed, .ok ())

end Options

end ObjcPlan
