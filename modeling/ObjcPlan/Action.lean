import ObjcPlan.Json.Codec

/-!
What a plan consists of: tool invocations and files with known contents.
-/

namespace ObjcPlan

/-- A tool invocation. -/
structure Action where
  mnemonic : String
  executable : Path
  arguments : List String
  inputs : OrderedSet Path
  outputs : List Path
  env : SortedMap String String
  executionRequirements : SortedSet String
  deriving DecidableEq

namespace Action

/-- Every tool runs on a Darwin host only. -/
def darwinRequirement : String := "requires-darwin"

/-- An action of which nothing but the tool is known yet. -/
def new (mnemonic : String) (executable : Path) : Action where
  mnemonic
  executable
  arguments := []
  inputs := .empty
  outputs := []
  env := .empty
  executionRequirements := SortedSet.ofList [darwinRequirement]

/-- The action with further inputs. -/
def addInputs (a : Action) (inputs : List Path) : Action :=
  { a with inputs := a.inputs.extend inputs }

/-- The command line, the tool first. -/
def argv (a : Action) : List String :=
  a.executable.text :: a.arguments

def partNames : List String :=
  ["mnemonic", "executable", "arguments", "inputs", "outputs", "env", "execution_requirements"]

open Coded in
instance : Coded Action where
  encode a := .object <|
    [("mnemonic", encode a.mnemonic),
      ("executable", encode a.executable),
      ("arguments", encode a.arguments),
      ("inputs", encode a.inputs),
      ("outputs", encode a.outputs)] ++
    (if a.env.isEmpty then [] else [("env", encode a.env)]) ++
    (if a.executionRequirements.isEmpty then []
      else [("execution_requirements", encode a.executionRequirements)])
  decode value := do
    let r ← Json.Record.ofJson? partNames value
    return {
      mnemonic := ← r.required "mnemonic"
      executable := ← r.required "executable"
      arguments := ← r.required "arguments"
      inputs := ← r.required "inputs"
      outputs := ← r.required "outputs"
      env := ← r.withDefault "env" .empty
      executionRequirements := ← r.withDefault "execution_requirements" SortedMap.empty }

end Action

/-- A file to be written. -/
structure FileWrite where
  output : Path
  content : String
  deriving DecidableEq

open Coded in
instance : Coded FileWrite where
  encode w := .object [("output", encode w.output), ("content", encode w.content)]
  decode value := do
    let r ← Json.Record.ofJson? ["output", "content"] value
    return { output := ← r.required "output", content := ← r.required "content" }

end ObjcPlan
