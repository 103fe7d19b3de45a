import ObjcPlan.Json.Codec

/-!
Findings about a declaration, each attached to the attribute that it is about.
-/

namespace ObjcPlan

inductive Severity
  | error
  | warning
  deriving DecidableEq

namespace Severity

def all : List Severity := [error, warning]

def name : Severity → String
  | error => "error"
  | warning => "warning"

instance : Coded Severity := Json.enumeration all name

end Severity

structure Diagnostic where
  severity : Severity
  /-- The name of the attribute. -/
  place : String
  message : String
  deriving DecidableEq

namespace Diagnostic

def isError (d : Diagnostic) : Bool :=
  d.severity = .error

def text (d : Diagnostic) : String :=
  d.severity.name ++ " in " ++ d.place ++ ": " ++ d.message

open Coded in
instance : Coded Diagnostic where
  encode d := .object [
    ("severity", encode d.severity),
    ("attribute", encode d.place),
    ("message", encode d.message)]
  decode value := do
    let r ← Json.Record.ofJson? ["severity", "attribute", "message"] value
    return {
      severity := ← r.required "severity"
      place := ← r.required "attribute"
      message := ← r.required "message" }

end Diagnostic

end ObjcPlan
