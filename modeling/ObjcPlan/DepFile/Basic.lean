import ObjcPlan.Path.Basic
import ObjcPlan.Text.Blank

/-!
Dependency files, in which a compiler reports what it read: rules `target: dependency …`, continued
over lines by a backslash at the end, with `\ ` for a space inside a path. `DepFile.parse` reads a
whole file or says which line is the first that is no rule.
-/

namespace ObjcPlan

/-- One rule of a dependency file. -/
structure Rule where
  target : Path
  dependencies : List Path
  deriving DecidableEq

namespace DepFile

/-- Why a file is no dependency file. Lines count from one. -/
inductive Fault
  | empty
  | noSeparator (line : Nat)
  | noTarget (line : Nat)
  | unterminated
  deriving DecidableEq

def Fault.message (fault : Fault) : String :=
  "error while parsing .d file: " ++
    match fault with
    | .empty => "file is empty"
    | .noSeparator line => "line " ++ toString line ++ " has no target separator"
    | .noTarget line => "rule on line " ++ toString line ++ " has no target"
    | .unterminated => "unterminated line continuation"

/-- A line with its continuations, and the number of the first of them. -/
structure LogicalLine where
  number : Nat
  text : List Char
  deriving DecidableEq

/-- The logical lines of physical lines that are numbered from `number`, and whether a last one is
left out because its continuation is missing. A blank takes the place of each backslash and line
end. -/
def logicalLines (number : Nat) : List (List Char) → List LogicalLine × Bool
  | [] => ([], false)
  | line :: rest =>
    let (more, unterminated) := logicalLines (number + 1) rest
    if line.getLast? = some '\\' then
      match more with
      | next :: more => (⟨number, line.dropLast ++ ' ' :: next.text⟩ :: more, unterminated)
      | [] => ([], true)
    else (⟨number, line⟩ :: more, unterminated)

/-- A word from its characters in reverse, if it has any. -/
def finishWord (reversed : List Char) : List (List Char) :=
  if reversed = [] then [] else [reversed.reverse]

/-- The words of a text, of which the first has begun with the reverse of `begun`. White space ends
a word, unless it is a space behind a backslash. -/
def words (begun : List Char) : List Char → List (List Char)
  | [] => finishWord begun
  | '\\' :: ' ' :: rest => words (' ' :: begun) rest
  | c :: rest =>
    if Text.isBlank c then finishWord begun ++ words [] rest else words (c :: begun) rest

/-- Whether a word ends with a colon that is not escaped. -/
def isSeparator (word : List Char) : Bool :=
  match word.reverse with
  | ':' :: '\\' :: _ => false
  | ':' :: _ => true
  | _ => false

/-- The rule on a logical line, if it has a word. Its target is the first word that ends with a
colon, without the colons; the words after it are the dependencies. -/
def LogicalLine.rule? (line : LogicalLine) : Except Fault (Option Rule) :=
  match words [] line.text with
  | [] => .ok none
  | found =>
    match found.dropWhile fun word => !isSeparator word with
    | [] => .error (.noSeparator line.number)
    | target :: dependencies =>
      let target := (target.reverse.dropWhile (· = ':')).reverse
      if target = [] then .error (.noTarget line.number)
      else
        .ok (some ⟨⟨String.ofList target⟩, dependencies.map fun word => ⟨String.ofList word⟩⟩)

/-- The rules of a file. The first bad line counts before a missing continuation at the end, and
that before there being no rule. -/
def parse (contents : String) : Except Fault (List Rule) := do
  let (lines, unterminated) := logicalLines 1 (Text.lines contents)
  let rules ← lines.mapM LogicalLine.rule?
  if unterminated then throw .unterminated
  let rules := rules.filterMap id
  if rules = [] then throw .empty
  return rules

end DepFile

end ObjcPlan
