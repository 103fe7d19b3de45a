import ObjcPlan.Json.Codec
import ObjcPlan.Options.Error
import ObjcPlan.Text.Lower

/-!
The options that choose among a few modes, and the reading of versions and flags from texts.
-/

namespace ObjcPlan

inductive CompilationMode
  | dbg
  | fastbuild
  | opt
  deriving DecidableEq

namespace CompilationMode

def all : List CompilationMode := [dbg, fastbuild, opt]

def name : CompilationMode → String
  | dbg => "dbg"
  | fastbuild => "fastbuild"
  | opt => "opt"

/-- The mode that a text names in any case; a refused text is reported in lower case. -/
def parse (text : String) : Except OptionsError CompilationMode :=
  match all.find? fun mode => mode.name = Text.lower text with
  | some mode => .ok mode
  | none => .error (.invalidValue "compilation_mode" (.unknownMode (Text.lower text)))

instance : Coded CompilationMode := Json.enumeration all name

end CompilationMode

inductive BitcodeMode
  | none
  | embeddedMarkers
  | embedded
  deriving DecidableEq

namespace BitcodeMode

def all : List BitcodeMode := [none, embeddedMarkers, embedded]

def name : BitcodeMode → String
  | none => "none"
  | embeddedMarkers => "embedded_markers"
  | embedded => "embedded"

/-- The mode that a text names exactly. -/
def parse (text : String) : Except OptionsError BitcodeMode :=
  match all.find? fun mode => mode.name = text with
  | some mode => .ok mode
  | .none => .error (.invalidValue "apple_bitcode" (.unknownBitcode text))

def compileFlag? : BitcodeMode → Option String
  | none => .none
  | embeddedMarkers => some "-fembed-bitcode-marker"
  | embedded => some "-fembed-bitcode"

instance : Coded BitcodeMode := Json.enumeration all name

end BitcodeMode

inductive CoverageMode
  | gcov
  | llvmCovmap
  deriving DecidableEq

namespace CoverageMode

def all : List CoverageMode := [gcov, llvmCovmap]

def name : CoverageMode → String
  | gcov => "Gcov"
  | llvmCovmap => "LlvmCovmap"

def compileFlags : CoverageMode → List String
  | gcov => ["-fprofile-arcs", "-ftest-coverage"]
  | llvmCovmap => ["-fprofile-instr-generate", "-fcoverage-mapping"]

instance : Coded CoverageMode := Json.enumeration all name

end CoverageMode

namespace Version

/-- Whether a text is a number: at least one digit and nothing else. -/
def isNumber (text : String) : Bool :=
  text ≠ "" && text.toList.all Char.isDigit

/-- What keeps a text from being a version, that is, numbers with dots between them. -/
def fault? (text : String) : Option ValueFault :=
  if text = "" then some .emptyVersion
  else if (Text.split '.' text).all isNumber then none
  else some (.malformedVersion text)

/-- Accepts the versions among the values of a field. -/
def check (field text : String) : Except OptionsError Unit :=
  match fault? text with
  | some fault => .error (.invalidValue field fault)
  | none => .ok ()

end Version

/-- The truth value that a text names in any case; a refused text is reported in lower case. -/
def parseFlag (field text : String) : Except OptionsError Bool :=
  let lowered := Text.lower text
  if lowered ∈ ["true", "1", "yes"] then .ok true
  else if lowered ∈ ["false", "0", "no"] then .ok false
  else .error (.invalidValue field (.notBoolean lowered))

end ObjcPlan
