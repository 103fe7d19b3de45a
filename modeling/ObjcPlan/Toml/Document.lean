import ObjcPlan.Toml.Quoted
import ObjcPlan.Toml.Table

/-!
Reading TOML documents: `Toml.parse` answers the top-level table of a well-formed document. The
readers of nested syntax are bounded by the length of the text, which no reading exhausts.
-/

namespace ObjcPlan.Toml

def isBareKey (c : Char) : Bool :=
  c.isAlphanum || c = '-' || c = '_'

/-- One part of a key: bare, or quoted on one line. -/
def keyPart? : List Char → Option (String × List Char)
  | '"' :: rest => (basic rest).map fun (text, rest) => (String.ofList text, rest)
  | '\'' :: rest => (literal rest).map fun (text, rest) => (String.ofList text, rest)
  | cs =>
    match cs.takeWhile isBareKey with
    | [] => none
    | key => some (String.ofList key, cs.dropWhile isBareKey)

/-- The parts of a dotted key, with white space around its dots. -/
def key? : Nat → List Char → Option (List String × List Char)
  | 0, _ => none
  | fuel + 1, cs => do
    let (part, rest) ← keyPart? cs
    match rest.dropWhile isSpace with
    | '.' :: rest =>
      let (parts, rest) ← key? fuel (rest.dropWhile isSpace)
      some (part :: parts, rest)
    | rest => some ([part], rest)

/-- What follows white space, line ends and comments inside brackets. -/
def skipLines (inComment : Bool) : List Char → Option (List Char)
  | [] => some []
  | '\n' :: rest => skipLines false rest
  | '\r' :: '\n' :: rest => skipLines false rest
  | c :: rest =>
    if inComment then if isOrdinary c then skipLines true rest else none
    else if isSpace c then skipLines false rest
    else if c = '#' then skipLines true rest
    else some (c :: rest)

mutual

/-- A value: a string, a flag, an array or an inline table. -/
def value? : Nat → List Char → Option (Value × List Char)
  | 0, _ => none
  | _ + 1, 't' :: 'r' :: 'u' :: 'e' :: rest => some (.flag true, rest)
  | _ + 1, 'f' :: 'a' :: 'l' :: 's' :: 'e' :: rest => some (.flag false, rest)
  | fuel + 1, '[' :: rest => do
    let (items, rest) ← items? fuel (← skipLines false rest)
    some (.array items, rest)
  | fuel + 1, '{' :: rest =>
    match rest.dropWhile isSpace with
    | '}' :: rest => some (.table [], rest)
    | rest => do
      let (entries, rest) ← fields? fuel [] rest
      some (.table (Node.toEntries entries), rest)
  | _ + 1, cs => (quoted? cs).map fun (text, rest) => (.text text, rest)

/-- The items of an array up to its closing bracket; a comma may follow the last one. -/
def items? : Nat → List Char → Option (List Value × List Char)
  | 0, _ => none
  | _ + 1, ']' :: rest => some ([], rest)
  | fuel + 1, cs => do
    let (item, rest) ← value? fuel cs
    match ← skipLines false rest with
    | ',' :: rest =>
      let (items, rest) ← items? fuel (← skipLines false rest)
      some (item :: items, rest)
    | ']' :: rest => some ([item], rest)
    | _ => none

/-- The fields of an inline table up to its closing brace, added to those before. -/
def fields? : Nat → Entries → List Char → Option (Entries × List Char)
  | 0, _, _ => none
  | fuel + 1, entries, cs => do
    let (path, v, rest) ← pair? fuel cs
    let entries ← entries.add path v
    match rest.dropWhile isSpace with
    | ',' :: rest => fields? fuel entries (rest.dropWhile isSpace)
    | '}' :: rest => some (entries, rest)
    | _ => none

/-- One `key = value`. -/
def pair? : Nat → List Char → Option (List String × Value × List Char)
  | 0, _ => none
  | fuel + 1, cs => do
    let (path, rest) ← key? (fuel + 1) cs
    match rest with
    | '=' :: rest =>
      let (v, rest) ← value? fuel (rest.dropWhile isSpace)
      some (path, v, rest)
    | _ => none

end

/-- What follows the end of the current line, where only white space and a comment may stand before
the line end. -/
def endLine? (cs : List Char) : Option (List Char) :=
  let rest :=
    match cs.dropWhile isSpace with
    | '#' :: rest => rest.dropWhile isOrdinary
    | rest => rest
  if rest = [] then some [] else dropLineEnd? rest

/-- What follows `closing` and the rest of its line. -/
def closeHeader? : List Char → List Char → Option (List Char)
  | [], cs => endLine? cs
  | c :: closing, d :: cs => if c = d then closeHeader? closing cs else none
  | _ :: _, [] => none

/-- The top-level entries of a document, of which `root` has been read and the last header is at
`header`. -/
def read? : Nat → List String → Entries → List Char → Option Entries
  | 0, _, _, _ => none
  | fuel + 1, header, root, cs =>
    match cs.dropWhile isSpace with
    | [] => some root
    | '[' :: '[' :: rest => do
      let (path, rest) ← key? (rest.length + 1) (rest.dropWhile isSpace)
      read? fuel path (← root.openElement path) (← closeHeader? [']', ']'] rest)
    | '[' :: rest => do
      let (path, rest) ← key? (rest.length + 1) (rest.dropWhile isSpace)
      read? fuel path (← root.openTable path) (← closeHeader? [']'] rest)
    | c :: rest =>
      if c = '#' ∨ c = '\n' ∨ c = '\r' then do read? fuel header root (← endLine? (c :: rest))
      else do
        let (path, v, rest) ← pair? (2 * rest.length + 4) (c :: rest)
        let root ← root.descend none (·.add path v) header
        read? fuel header root (← endLine? rest)

/-- The top-level table of a document, which may start with a byte order mark. -/
def parse (text : String) : Option (List (String × Value)) :=
  let cs :=
    match text.toList with
    | c :: rest => if c.toNat = 0xFEFF then rest else c :: rest
    | [] => []
  (read? (cs.length + 1) [] [] cs).map Node.toEntries

end ObjcPlan.Toml
