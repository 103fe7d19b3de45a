import ObjcPlan.Json.Basic
import ObjcPlan.Text.Split

/-!
The two written forms of a JSON value: `Json.compact` without any blank, which is what digests are
taken of, and `Json.pretty` with one item a line, two more blanks for each level.
-/

namespace ObjcPlan.Json

/-- A character inside a quoted string. Only quotes, backslashes and control characters are
escaped, with a short form where there is one. -/
def escape (c : Char) : List Char :=
  if c = '"' then ['\\', '"']
  else if c = '\\' then ['\\', '\\']
  else if c.toNat = 0x08 then ['\\', 'b']
  else if c.toNat = 0x0C then ['\\', 'f']
  else if c = '\n' then ['\\', 'n']
  else if c = '\r' then ['\\', 'r']
  else if c = '\t' then ['\\', 't']
  else if c.toNat < 0x20 then '\\' :: 'u' :: Text.hex 4 c.toNat
  else [c]

/-- A text between quotes. -/
def quote (s : String) : String :=
  "\"" ++ String.ofList (s.toList.flatMap escape) ++ "\""

/-- The decimal numeral of `mantissa / 10 ^ decimals`, with exactly `decimals` digits after the
point. -/
def numeral (mantissa : Int) (decimals : Nat) : String :=
  let sign := if mantissa < 0 then "-" else ""
  let size := mantissa.natAbs
  if decimals = 0 then sign ++ toString size
  else
    let unit := Nat.pow 10 decimals
    let digits := toString (size % unit)
    sign ++ toString (size / unit) ++ "." ++
      String.ofList (List.replicate (decimals - digits.length) '0') ++ digits

mutual

def compact : Json → String
  | null => "null"
  | bool value => if value then "true" else "false"
  | number mantissa decimals => numeral mantissa decimals
  | string value => quote value
  | array items => "[" ++ ",".intercalate (compactItems items) ++ "]"
  | object fields => "\x7b" ++ ",".intercalate (compactFields fields) ++ "\x7d"

def compactItems : List Json → List String
  | [] => []
  | item :: rest => item.compact :: compactItems rest

def compactFields : List (String × Json) → List String
  | [] => []
  | (name, value) :: rest => (quote name ++ ":" ++ value.compact) :: compactFields rest

end

/-- A line break and the blanks that open a line at a given depth. -/
def lineBreak (depth : Nat) : String :=
  String.ofList ('\n' :: List.replicate (2 * depth) ' ')

/-- Items between brackets, each on a line of its own; nothing stands between the brackets when
there are no items. -/
def bracketed (left right : String) (depth : Nat) (items : List String) : String :=
  if items.isEmpty then left ++ right
  else
    left ++ lineBreak (depth + 1) ++ ("," ++ lineBreak (depth + 1)).intercalate items ++
      lineBreak depth ++ right

mutual

/-- The value over several lines, as it reads at a given depth. -/
def prettyAt (depth : Nat) : Json → String
  | null => "null"
  | bool value => if value then "true" else "false"
  | number mantissa decimals => numeral mantissa decimals
  | string value => quote value
  | array items => bracketed "[" "]" depth (prettyItems (depth + 1) items)
  | object fields => bracketed "\x7b" "\x7d" depth (prettyFields (depth + 1) fields)

def prettyItems (depth : Nat) : List Json → List String
  | [] => []
  | item :: rest => item.prettyAt depth :: prettyItems depth rest

def prettyFields (depth : Nat) : List (String × Json) → List String
  | [] => []
  | (name, value) :: rest => (quote name ++ ": " ++ value.prettyAt depth) :: prettyFields depth rest

end

def pretty (j : Json) : String :=
  j.prettyAt 0

end ObjcPlan.Json
