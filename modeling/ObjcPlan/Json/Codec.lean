import ObjcPlan.Json.Basic
import ObjcPlan.OrderedSet
import ObjcPlan.SortedMap

/-!
Types with a JSON form. `encode` writes a value and `decode` reads one back or refuses it. Records
are objects with one field for each part; they may also be given as arrays with the parts in order.
Enumerations are the names of their members.
-/

namespace ObjcPlan

class Coded (α : Type) where
  encode : α → Json
  decode : Json → Option α

namespace Json

open Coded

instance : Coded String where
  encode := string
  decode
    | string value => some value
    | _ => none

instance : Coded Bool where
  encode := bool
  decode
    | bool value => some value
    | _ => none

instance : Coded Path where
  encode p := string p.text
  decode
    | string text => some ⟨text⟩
    | _ => none

/-- A missing value is `null`. -/
instance {α : Type} [Coded α] : Coded (Option α) where
  encode
    | none => null
    | some a => encode a
  decode
    | null => some none
    | value => (decode value).map some

instance {α : Type} [Coded α] : Coded (List α) where
  encode values := array (values.map encode)
  decode
    | array items => items.mapM decode
    | _ => none

instance {α : Type} [Identity α] [Coded α] : Coded (OrderedSet α) where
  encode s := encode s.toList
  decode value := (decode value).map OrderedSet.ofList

instance : Coded (SortedSet String) where
  encode s := encode s.keys
  decode value := (decode value).map SortedSet.ofList

instance {α : Type} [Coded α] : Coded (SortedMap String α) where
  encode m := object (m.entries.map fun entry => (entry.1, encode entry.2))
  decode
    | object fields =>
      (fields.mapM fun field => (decode field.2).map (field.1, ·)).map SortedMap.ofList
    | _ => none

/-- The member of an enumeration that a value names, as a string or as the only field of an object
whose value is `null`. -/
def member? {α : Type} (members : List α) (name : α → String) : Json → Option α
  | string text => members.find? fun member => name member = text
  | object [(text, null)] => members.find? fun member => name member = text
  | _ => none

/-- The JSON form of an enumeration, given its members and their names. -/
@[reducible] def enumeration {α : Type} (members : List α) (name : α → String) : Coded α where
  encode member := string (name member)
  decode := member? members name

/-- The parts of a record while it is read: given by name, or by position in an array. -/
structure Record where
  parts : List (String × Json)
  positional : Bool

namespace Record

/-- The parts of a value that is to be a record with parts of the given names. Objects may have
further fields, arrays may end early but not late. -/
def ofJson? (names : List String) : Json → Option Record
  | object fields => some ⟨fields, false⟩
  | array items => if items.length ≤ names.length then some ⟨names.zip items, true⟩ else none
  | _ => none

/-- A part that has to be there. -/
def required {α : Type} [Coded α] (r : Record) (name : String) : Option α :=
  (r.parts.lookup name).bind decode

/-- A part that stands for `value` when it is missing. -/
def withDefault {α : Type} [Coded α] (r : Record) (name : String) (value : α) : Option α :=
  match r.parts.lookup name with
  | some part => decode part
  | none => some value

/-- A part that is nothing when an object misses it; an array has to reach it. -/
def optional {α : Type} [Coded α] (r : Record) (name : String) : Option (Option α) :=
  match r.parts.lookup name with
  | some part => decode part
  | none => if r.positional then none else some none

end Record

end Json

end ObjcPlan
