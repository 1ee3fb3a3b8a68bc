/-! # Blank characters

White space of the query syntax: the separators and the space-like controls of Unicode, 29
characters in all. Blanks may stand between any two tokens and around the items of a list. -/

namespace RecordFilter.Text

/-- White space: the ASCII controls 9 to 13 and 28 to 31, the space, the next-line control, and the
Unicode space, line and paragraph separators. -/
def isBlank (c : Char) : Bool :=
  let code := c.toNat
  (9 ≤ code && code ≤ 13) || (0x1C ≤ code && code ≤ 0x20) || code == 0x85 || code == 0xA0
    || code == 0x1680 || (0x2000 ≤ code && code ≤ 0x200A) || code == 0x2028 || code == 0x2029
    || code == 0x202F || code == 0x205F || code == 0x3000

def allBlank (cs : List Char) : Bool := cs.all isBlank

/-- `cs` without the characters at its start that satisfy `p`. -/
def trimStart (p : Char → Bool) (cs : List Char) : List Char := cs.dropWhile p

/-- `cs` without the characters at its end that satisfy `p`. -/
def trimEnd (p : Char → Bool) (cs : List Char) : List Char := (cs.reverse.dropWhile p).reverse

/-- `cs` without the characters at either end that satisfy `p`. -/
def trim (p : Char → Bool) (cs : List Char) : List Char := trimEnd p (trimStart p cs)

end RecordFilter.Text
