/-!
Cutting and joining texts: physical lines, replacement of a fixed piece, hexadecimal numerals.
All of it works on lists of characters, so that each rule is an equation on them.
-/

namespace ObjcPlan.Text

/-- The pieces of a text between the occurrences of `separator`; there is always at least one. -/
def split (separator : Char) (s : String) : List String :=
  (s.toList.splitOn separator).map String.ofList

/-- The text before the first occurrence of `separator` and the text after it, if there is one. -/
def splitOnce? (separator : Char) (s : String) : Option (String × String) :=
  match s.toList.dropWhile (· ≠ separator) with
  | [] => none
  | _ :: after => some (String.ofList (s.toList.takeWhile (· ≠ separator)), String.ofList after)

/-- What follows `start` in a text that begins with it. -/
def dropStart? : List Char → List Char → Option (List Char)
  | [], cs => some cs
  | _ :: _, [] => none
  | p :: ps, c :: cs => if p = c then dropStart? ps cs else none

theorem dropStart?_eq_some_iff {start cs rest : List Char} :
    dropStart? start cs = some rest ↔ cs = start ++ rest := by
  induction start generalizing cs with
  | nil => simp [dropStart?]
  | cons p ps ih =>
    cases cs with
    | nil => simp [dropStart?]
    | cons c cs =>
      by_cases h : p = c
      · simp [dropStart?, h, ih]
      · simp [dropStart?, h, Ne.symm h]

/-- Every occurrence of `piece` replaced by `value`, from left to right and without overlaps; an
empty `piece` is found nowhere. -/
def replaceAll (piece value cs : List Char) : List Char :=
  match cs with
  | [] => []
  | c :: rest =>
    if piece = [] then c :: rest else
      match _found : dropStart? piece (c :: rest) with
      | some after => value ++ replaceAll piece value after
      | none => c :: replaceAll piece value rest
termination_by cs.length
decreasing_by
  · have := congrArg List.length (dropStart?_eq_some_iff.mp _found)
    have : 0 < piece.length := List.length_pos_iff.mpr ‹_›
    simp only [List.length_append, List.length_cons] at *
    omega
  · simp

/-- A line without the carriage return that closes it. -/
def dropReturn (line : List Char) : List Char :=
  if line.getLast? = some '\r' then line.dropLast else line

/-- The physical lines of a text. A line ends at a line feed, before which one carriage return is
dropped; text after the last line feed is a line as it stands, unless it is empty. -/
def lines (s : String) : List (List Char) :=
  let pieces := s.toList.splitOn '\n'
  pieces.dropLast.map dropReturn ++ (pieces.getLast?.filter (· ≠ [])).toList

theorem lines_empty : lines "" = [] := by decide

theorem dropReturn_eq_self {line : List Char} (unclosed : line.getLast? ≠ some '\r') :
    dropReturn line = line :=
  if_neg unclosed

theorem dropReturn_append (line : List Char) : dropReturn (line ++ ['\r']) = line := by
  simp [dropReturn]

/-- What stands before the first line feed is the first line. -/
theorem lines_append_feed {line : List Char} (flat : '\n' ∉ line) (rest : List Char) :
    lines (String.ofList (line ++ '\n' :: rest)) =
      dropReturn line :: lines (String.ofList rest) := by
  have cut : (line ++ '\n' :: rest).splitOn '\n' = line :: rest.splitOn '\n' := by
    rw [List.splitOn_eq_splitOnP, List.splitOnP_append_cons (p := (· == '\n')) _ _ rfl,
      ← List.splitOn_eq_splitOnP, ← List.splitOn_eq_splitOnP, List.splitOn_eq_singleton flat]
    rfl
  obtain ⟨piece, pieces, same⟩ := List.exists_cons_of_ne_nil (List.splitOn_ne_nil '\n' rest)
  simp only [lines, String.toList_ofList, cut, same, List.dropLast_cons_cons, List.map_cons,
    List.getLast?_cons_cons, List.cons_append]

/-- The digit of a number below sixteen. -/
def hexDigit (n : Nat) : Char :=
  if n < 10 then Char.ofNat (48 + n) else Char.ofNat (87 + n)

/-- The last `width` digits of a number in base sixteen, in lower case. -/
def hex : Nat → Nat → List Char
  | 0, _ => []
  | width + 1, n => hex width (n / 16) ++ [hexDigit (n % 16)]

end ObjcPlan.Text
