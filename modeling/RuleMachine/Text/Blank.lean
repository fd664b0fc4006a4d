/-!
# Blanks

The characters that count as white space in the Unicode property of that name. They may stand between the parts of a written time.
-/

namespace RuleMachine

def isBlank (c : Char) : Bool :=
  let n := c.toNat
  (0x9 ≤ n && n ≤ 0xd) || n = 0x20 || n = 0x85 || n = 0xa0 || n = 0x1680 || (0x2000 ≤ n && n ≤ 0x200a) ||
    n = 0x2028 || n = 0x2029 || n = 0x202f || n = 0x205f || n = 0x3000

def skipBlanks (s : List Char) : List Char := s.dropWhile isBlank

end RuleMachine
