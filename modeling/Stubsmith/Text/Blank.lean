import Stubsmith.Text.Edges

namespace Stubsmith.Text

/-- A character with the Unicode property `White_Space`. -/
def isBlank (c : Char) : Bool :=
  let n := c.toNat
  (9 ≤ n && n ≤ 13) || n == 0x20 || n == 0x85 || n == 0xA0 || n == 0x1680 ||
    (0x2000 ≤ n && n ≤ 0x200A) || n == 0x2028 || n == 0x2029 || n == 0x202F ||
    n == 0x205F || n == 0x3000

def trim (s : String) : String :=
  String.ofList (stripBoth isBlank s.toList)

def firstWord? (s : String) : Option String :=
  match (s.toList.dropWhile isBlank).takeWhile (!isBlank ·) with
  | [] => none
  | word => some (String.ofList word)

end Stubsmith.Text
