import ObjcPlan.Action
import ObjcPlan.Error

/-!
Narrowing the inputs of a compile action, once it has run, to what its dependency file says was
read. Only declared inputs are kept, in their declared order and spelling, and the source always is.
-/

namespace ObjcPlan

/-- Whether inputs are narrowed at all. -/
structure Discovery where
  enabled : Bool
  deriving DecidableEq

namespace Discovery

/-- The declared inputs that were read. When discovery is off this is the empty set, which stands
for no narrowing, and the file is not looked at. -/
def inputs (d : Discovery) (contents : String) (declared : OrderedSet Path) (source : Path) :
    Except DepFile.Fault (OrderedSet Path) := do
  if !d.enabled then return .empty
  let rules ← DepFile.parse contents
  return declared.restrict (source :: rules.flatMap Rule.dependencies)

/-- The action with its inputs narrowed. A malformed dependency file fails the action. -/
def refine (d : Discovery) (action : Action) (source : Path) (contents : String) :
    Except PlanError Action :=
  match d.inputs contents action.inputs source with
  | .error fault => .error (.actionExecution action.mnemonic fault)
  | .ok inputs => .ok (if d.enabled then { action with inputs } else action)

open Coded in
instance : Coded Discovery where
  encode d := .object [("enabled", encode d.enabled)]
  decode value := do
    let r ← Json.Record.ofJson? ["enabled"] value
    return { enabled := ← r.required "enabled" }

end Discovery

end ObjcPlan
