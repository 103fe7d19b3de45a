import ObjcPlan.Path.Basic

/-!
Why options are refused, as causes, with the text of each in one place.
-/

namespace ObjcPlan

/-- What is wrong with the value of an option. -/
inductive ValueFault
  | unknownMode (value : String)
  | unknownBitcode (value : String)
  | emptyVersion
  | malformedVersion (value : String)
  | notBoolean (value : String)
  | emptyOutputBase
  deriving DecidableEq

def ValueFault.message : ValueFault → String
  | unknownMode value => "'" ++ value ++ "' is not one of dbg, fastbuild, opt"
  | unknownBitcode value => "'" ++ value ++ "' is not one of none, embedded_markers, embedded"
  | emptyVersion => "version cannot be empty"
  | malformedVersion value => "'" ++ value ++ "' is not a dotted version"
  | notBoolean value => "'" ++ value ++ "' is not a boolean"
  | emptyOutputBase => "output base cannot be empty"

inductive OptionsError
  | notFound (file : Path)
  | unreadable (file : Path)
  | malformed (file : Path)
  | invalidValue (field : String) (fault : ValueFault)
  | unknownOption (key : String)
  | unsupportedCpu (cpu : String)
  deriving DecidableEq

def OptionsError.message : OptionsError → String
  | notFound file => "Configuration file not found: " ++ file.text
  | unreadable file => "Failed to read configuration file: " ++ file.text
  | malformed file => "Invalid TOML syntax in " ++ file.text
  | invalidValue field fault => "Invalid value for '" ++ field ++ "': " ++ fault.message
  | unknownOption key => "Unknown option '" ++ key ++ "'"
  | unsupportedCpu cpu =>
    "Unsupported cpu '" ++ cpu ++
      "': expected ios_<arch>, tvos_<arch>, watchos_<arch> or darwin[_<arch>]"

end ObjcPlan
