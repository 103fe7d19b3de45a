import ObjcPlan.Text.Blank
import ObjcPlan.Text.CaseTable
import ObjcPlan.Text.LowerTable

/-!
Lower case for whole texts, by the full mapping of Unicode 17. It is letter by letter except for the
capital sigma, which becomes a final sigma at the end of a word: after a cased letter and not
before one, where case-ignorable characters in between do not count.
-/

namespace ObjcPlan.Text

/-- The lower-case form of one character out of context. -/
def lowerChar (c : Char) : List Char :=
  if c.toNat = 0x130 then ['i', Char.ofNat 0x307] else
    match lowerRows.find? fun (first, last, step, _) =>
        first ≤ c.toNat && c.toNat ≤ last && (c.toNat - first) % step == 0 with
    | some (_, _, _, shift) => [Char.ofNat (c.toNat + shift).toNat]
    | none => [c]

/-- Whether the first character that is not case-ignorable is cased. -/
def meetsCased (cs : List Char) : Bool :=
  match cs.dropWhile (covered caseIgnorableRanges) with
  | c :: _ => covered casedRanges c
  | [] => false

/-- Lower case of the text `after`, which follows the characters `before`, given last first. -/
def lowerFrom (before : List Char) : List Char → List Char
  | [] => []
  | c :: after =>
    let lowered :=
      if c.toNat = 0x3A3 then
        if meetsCased before && !meetsCased after then [Char.ofNat 0x3C2] else [Char.ofNat 0x3C3]
      else lowerChar c
    lowered ++ lowerFrom (c :: before) after

def lower (s : String) : String :=
  String.ofList (lowerFrom [] s.toList)

end ObjcPlan.Text
