/-!
White space, as the Unicode property `White_Space`: the 25 characters that end a word and that no
label may hold.
-/

namespace ObjcPlan.Text

/-- The code point ranges of `White_Space`, ends included. -/
def blankRanges : List (Nat × Nat) := [
  (0x0009, 0x000D), (0x0020, 0x0020), (0x0085, 0x0085), (0x00A0, 0x00A0), (0x1680, 0x1680),
  (0x2000, 0x200A), (0x2028, 0x2029), (0x202F, 0x202F), (0x205F, 0x205F), (0x3000, 0x3000)]

/-- Whether one of `ranges` covers the character. -/
def covered (ranges : List (Nat × Nat)) (c : Char) : Bool :=
  ranges.any fun (first, last) => first ≤ c.toNat && c.toNat ≤ last

def isBlank (c : Char) : Bool :=
  covered blankRanges c

end ObjcPlan.Text
