import ObjcPlan.Options.Update

/-!
Options as named fields of a data format. Reading starts from the defaults and puts in the fields
that are given; an unknown field or a value of the wrong kind refuses the whole.
-/

namespace ObjcPlan

/-- What a data format has to say about a value for it to become an option. -/
class OptionValue (σ : Type) where
  text? : σ → Option String
  /-- A text that the format may give as explicitly missing. -/
  optionalText? : σ → Option (Option String)
  flag? : σ → Option Bool
  texts? : σ → Option (List String)
  /-- The member of an enumeration that the value names. -/
  member? : {α : Type} → List α → (α → String) → σ → Option α

namespace Options

open OptionValue

variable {σ : Type} [OptionValue σ]

/-- The options with one of them taken from a value of the format. -/
def put (o : Options) (key : OptionKey) (value : σ) : Option Options :=
  match key with
  | .cpu => (text? value).map ({ o with cpu := · })
  | .compilationMode =>
    (member? CompilationMode.all CompilationMode.name value).map ({ o with compilationMode := · })
  | .minimumOs family =>
    (optionalText? value).map fun version =>
      { o with minimumOs := o.minimumOs.set family version }
  | .sdkVersion family =>
    (optionalText? value).map fun version =>
      { o with sdkVersion := o.sdkVersion.set family version }
  | .xcodeVersion => (optionalText? value).map ({ o with xcodeVersion := · })
  | .appleBitcode =>
    (member? BitcodeMode.all BitcodeMode.name value).map ({ o with appleBitcode := · })
  | .collectCodeCoverage => (flag? value).map ({ o with collectCodeCoverage := · })
  | .useLlvmCovmap => (flag? value).map ({ o with useLlvmCovmap := · })
  | .objccopts => (texts? value).map ({ o with objccopts := · })
  | .enableModuleMaps => (flag? value).map ({ o with enableModuleMaps := · })
  | .useDotdPruning => (flag? value).map ({ o with useDotdPruning := · })
  | .disableResources => (flag? value).map ({ o with disableResources := · })
  | .generateDsym => (flag? value).map ({ o with generateDsym := · })
  | .outputBase => (text? value).map ({ o with outputBase := · })

/-- The options with all the given fields put in. -/
def ofFields? (fields : List (String × σ)) : Option Options :=
  fields.foldlM (fun o field => (OptionKey.ofName? field.1).bind (o.put · field.2)) {}

instance : OptionValue Json where
  text? := Coded.decode
  optionalText? := Coded.decode
  flag? := Coded.decode
  texts? := Coded.decode
  member? := Json.member?

/-- The field of an option; versions that are not configured have none. -/
def field? (o : Options) (key : OptionKey) : Option Json :=
  match key with
  | .cpu => some o.cpu
  | .compilationMode => some (Coded.encode o.compilationMode)
  | .minimumOs family => (o.minimumOs.get family).map .string
  | .sdkVersion family => (o.sdkVersion.get family).map .string
  | .xcodeVersion => o.xcodeVersion.map .string
  | .appleBitcode => some (Coded.encode o.appleBitcode)
  | .collectCodeCoverage => some o.collectCodeCoverage
  | .useLlvmCovmap => some o.useLlvmCovmap
  | .objccopts => some (Coded.encode o.objccopts)
  | .enableModuleMaps => some o.enableModuleMaps
  | .useDotdPruning => some o.useDotdPruning
  | .disableResources => some o.disableResources
  | .generateDsym => some o.generateDsym
  | .outputBase => some o.outputBase

instance : Coded Options where
  encode o :=
    .object (OptionKey.all.filterMap fun key => (o.field? key).map (key.name, ·))
  decode value :=
    (Json.Record.ofJson? (OptionKey.all.map OptionKey.name) value).bind (ofFields? ·.parts)

end Options

end ObjcPlan
