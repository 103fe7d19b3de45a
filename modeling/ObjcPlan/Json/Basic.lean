/-!
JSON values. An object keeps its fields in the order in which they were given, because the digests
are taken of texts and a text shows that order.
-/

namespace ObjcPlan

inductive Json
  | null
  | bool (value : Bool)
  /-- The number `mantissa / 10 ^ decimals`. -/
  | number (mantissa : Int) (decimals : Nat)
  | string (value : String)
  | array (items : List Json)
  | object (fields : List (String × Json))

namespace Json

instance : Inhabited Json := ⟨null⟩

instance : Coe String Json := ⟨string⟩
instance : Coe Bool Json := ⟨bool⟩
instance : Coe Nat Json := ⟨fun n => number n 0⟩

/-- The value of the first field with a given name. -/
def field? (name : String) : Json → Option Json
  | object fields => fields.lookup name
  | _ => none

end Json

end ObjcPlan
