import ObjcPlan.DepFile.Basic
import ObjcPlan.Diagnostic
import ObjcPlan.Label
import ObjcPlan.Options.Error

/-!
Why planning fails, as causes, with the text of each in one place.
-/

namespace ObjcPlan

inductive PlanError
  | invalidDeclaration (label : Label) (diagnostics : List Diagnostic)
  | configuration (error : OptionsError)
  | actionExecution (mnemonic : String) (fault : DepFile.Fault)
  | dependencyNotFound (target dependency : Label)
  | dependencyFailed (target dependency : Label)
  /-- The libraries along a cycle, the first one again at the end. -/
  | circularDependency (cycle : List Label)
  | duplicateTarget (label : Label)
  | invalidLabel (rejection : Label.Rejection)
  deriving DecidableEq

namespace PlanError

def cycleText : List Label → String
  | [] => "unknown cycle"
  | cycle => " -> ".intercalate (cycle.map Label.text)

def message : PlanError → String
  | invalidDeclaration label diagnostics =>
    "Invalid declaration for " ++ label.text ++ ": " ++
      "; ".intercalate (diagnostics.map (·.message))
  | configuration error => "Configuration error: " ++ error.message
  | actionExecution mnemonic fault => "Action '" ++ mnemonic ++ "' failed: " ++ fault.message
  | dependencyNotFound target dependency =>
    "in deps attribute of objc_library rule " ++ target.text ++ ": rule '" ++ dependency.text ++
      "' does not exist"
  | dependencyFailed target dependency =>
    "Dependency '" ++ dependency.text ++ "' of " ++ target.text ++ " failed analysis"
  | circularDependency cycle => "Circular dependency detected: " ++ cycleText cycle
  | duplicateTarget label => "Target declared twice: " ++ label.text
  | invalidLabel rejection =>
    "Invalid label '" ++ rejection.text ++ "': " ++ rejection.fault.message

def diagnostics : PlanError → List Diagnostic
  | invalidDeclaration _ diagnostics => diagnostics
  | _ => []

end PlanError

/-- Why a library of a plan failed. -/
inductive Failure
  | planning (error : PlanError)
  /-- The inputs of the analysis have no digest, since the writer reports a fault. -/
  | cache (fault : String)
  deriving DecidableEq

namespace Failure

def message : Failure → String
  | planning error => error.message
  | cache fault => "Analysis cache error: " ++ fault

def diagnostics : Failure → List Diagnostic
  | planning error => error.diagnostics
  | cache _ => []

end Failure

end ObjcPlan
