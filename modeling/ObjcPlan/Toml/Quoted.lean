/-!
Quoted strings of TOML, in their four forms: basic and literal, each on one line or over several. A
basic string has escapes, a literal string has none. Each reader starts behind the opening quotes
and answers the string's characters and what follows the closing quotes.
-/

namespace ObjcPlan.Toml

/-- Whether a character may stand in a comment or string as it is: no control character but tab. -/
def isOrdinary (c : Char) : Bool :=
  c = '\t' || (0x20 ≤ c.toNat && c.toNat ≠ 0x7F)

def isSpace (c : Char) : Bool :=
  c = ' ' || c = '\t'

/-- What follows a line end, if the text starts with one. -/
def dropLineEnd? : List Char → Option (List Char)
  | '\n' :: rest => some rest
  | '\r' :: '\n' :: rest => some rest
  | _ => none

/-- The character that a one-letter escape stands for. -/
def shortEscape? : Char → Option Char
  | '"' => some '"'
  | '\\' => some '\\'
  | 'b' => some (Char.ofNat 0x08)
  | 'f' => some (Char.ofNat 0x0C)
  | 'n' => some '\n'
  | 'r' => some '\r'
  | 't' => some '\t'
  | _ => none

def hexValue? (c : Char) : Option Nat :=
  if c.isDigit then some (c.toNat - 48)
  else if 'a' ≤ c ∧ c ≤ 'f' then some (c.toNat - 87)
  else if 'A' ≤ c ∧ c ≤ 'F' then some (c.toNat - 55)
  else none

/-- The character with the code point that hexadecimal digits give. -/
def character? (digits : List Char) : Option Char := do
  let code ← digits.foldlM (fun code c => (hexValue? c).map (16 * code + ·)) 0
  if code.isValidChar then some (Char.ofNat code) else none

/-- A read text with one more character in front. -/
def push (c : Char) (read : Option (List Char × List Char)) : Option (List Char × List Char) :=
  read.map fun (text, rest) => (c :: text, rest)

/-- A basic string on one line. -/
def basic : List Char → Option (List Char × List Char)
  | [] => none
  | '"' :: rest => some ([], rest)
  | '\\' :: 'u' :: a :: b :: c :: d :: rest => do
    push (← character? [a, b, c, d]) (basic rest)
  | '\\' :: 'U' :: a :: b :: c :: d :: e :: f :: g :: h :: rest => do
    push (← character? [a, b, c, d, e, f, g, h]) (basic rest)
  | '\\' :: c :: rest => do push (← shortEscape? c) (basic rest)
  | c :: rest => if isOrdinary c && c ≠ '\\' then push c (basic rest) else none

/-- A literal string on one line. -/
def literal : List Char → Option (List Char × List Char)
  | [] => none
  | '\'' :: rest => some ([], rest)
  | c :: rest => if isOrdinary c then push c (literal rest) else none

/-- A basic string over several lines. Up to two quotes may stand before the closing three. A
backslash at the end of a line drops the line end and all white space that follows: `skipping` is
set while that happens. -/
def longBasic (skipping : Bool) : List Char → Option (List Char × List Char)
  | [] => none
  | '"' :: '"' :: '"' :: '"' :: '"' :: rest => some (['"', '"'], rest)
  | '"' :: '"' :: '"' :: '"' :: rest => some (['"'], rest)
  | '"' :: '"' :: '"' :: rest => some ([], rest)
  | '\n' :: rest => if skipping then longBasic true rest else push '\n' (longBasic false rest)
  | '\r' :: '\n' :: rest =>
    if skipping then longBasic true rest else push '\n' (longBasic false rest)
  | '\\' :: 'u' :: a :: b :: c :: d :: rest => do
    push (← character? [a, b, c, d]) (longBasic false rest)
  | '\\' :: 'U' :: a :: b :: c :: d :: e :: f :: g :: h :: rest => do
    push (← character? [a, b, c, d, e, f, g, h]) (longBasic false rest)
  | '\\' :: c :: rest =>
    if (dropLineEnd? ((c :: rest).dropWhile isSpace)).isSome then longBasic true (c :: rest)
    else do push (← shortEscape? c) (longBasic false rest)
  | c :: rest =>
    if skipping && isSpace c then longBasic true rest
    else if isOrdinary c && c ≠ '\\' then push c (longBasic false rest)
    else none

/-- A literal string over several lines. -/
def longLiteral : List Char → Option (List Char × List Char)
  | [] => none
  | '\'' :: '\'' :: '\'' :: '\'' :: '\'' :: rest => some (['\'', '\''], rest)
  | '\'' :: '\'' :: '\'' :: '\'' :: rest => some (['\''], rest)
  | '\'' :: '\'' :: '\'' :: rest => some ([], rest)
  | '\n' :: rest => push '\n' (longLiteral rest)
  | '\r' :: '\n' :: rest => push '\n' (longLiteral rest)
  | c :: rest => if isOrdinary c then push c (longLiteral rest) else none

/-- The text without a line end at its start, which the long forms do not count. -/
def skipLineEnd (cs : List Char) : List Char :=
  (dropLineEnd? cs).getD cs

/-- A string in any of the four forms, with its opening quotes. -/
def quoted? : List Char → Option (String × List Char)
  | '"' :: '"' :: '"' :: rest => finish (longBasic false (skipLineEnd rest))
  | '"' :: rest => finish (basic rest)
  | '\'' :: '\'' :: '\'' :: rest => finish (longLiteral (skipLineEnd rest))
  | '\'' :: rest => finish (literal rest)
  | _ => none
where
  finish (read : Option (List Char × List Char)) : Option (String × List Char) :=
    read.map fun (text, rest) => (String.ofList text, rest)

end ObjcPlan.Toml
