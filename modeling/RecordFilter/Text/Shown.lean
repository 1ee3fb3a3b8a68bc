import RecordFilter.Text.Printable
import RecordFilter.Text.Quoted

/-! # Text and bytes in messages

Text in a message stands in quotes. What does not print is written by its code, with as few of two,
four or eight hexadecimal digits as it needs. -/

namespace RecordFilter.Text

/-- The last `width` hexadecimal digits of a code, most significant first. -/
def hexDigits (width code : Nat) : List Char :=
  (List.range width).reverse.map fun place => Nat.digitChar (code / Nat.pow 16 place % 16)

def hexEscape (code : Nat) : List Char :=
  if code < 0x100 then backslash :: 'x' :: hexDigits 2 code
  else if code < 0x10000 then backslash :: 'u' :: hexDigits 4 code
  else backslash :: 'U' :: hexDigits 8 code

/-- A character between quotes of the kind `mark`, given which characters print. -/
def shownChar (mark : Char) (prints : Char → Bool) (c : Char) : List Char :=
  if c = mark ∨ c = backslash then [backslash, c]
  else if c = '\n' then [backslash, 'n']
  else if c = '\r' then [backslash, 'r']
  else if c = '\t' then [backslash, 't']
  else if prints c then [c]
  else hexEscape c.toNat

/-- Characters in single quotes, or in double ones if there are single quotes alone among them. -/
def shownChars (prints : Char → Bool) (cs : List Char) : List Char :=
  let mark := if quoteMark ∈ cs ∧ '"' ∉ cs then '"' else quoteMark
  mark :: cs.flatMap (shownChar mark prints) ++ [mark]

def shownText (s : String) : String := String.ofList (shownChars isPrintable s.toList)

/-- Bytes in a message: of the codes only those of ASCII print. -/
def shownBytes (codes : List Nat) : String :=
  let prints := fun (c : Char) => isPrintable c && c.toNat < 0x80
  String.ofList ('b' :: shownChars prints (codes.map Char.ofNat))

end RecordFilter.Text
