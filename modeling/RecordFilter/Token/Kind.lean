import RecordFilter.Operator
import RecordFilter.Text.Digit

/-! # Kinds of tokens

Keywords are words of their own kind, but a keyword may also name a field, so every word can stand
where an identifier is wanted. -/

namespace RecordFilter

inductive TokenKind where
  | identifier
  | number
  | quoted
  | boolean
  | null
  /-- A list literal, kept whole. -/
  | list
  | equal
  | notEqual
  | less
  | greater
  | lessOrEqual
  | greaterOrEqual
  | memberOf
  | contains
  /-- Stands only before `contains`. -/
  | not
  | and
  | or
  | openParen
  | closeParen
  | finish
  deriving DecidableEq

namespace TokenKind

def name : TokenKind → String
  | identifier => "IDENTIFIER"
  | number => "NUMBER"
  | quoted => "STRING"
  | boolean => "BOOLEAN"
  | null => "NULL"
  | list => "LIST"
  | equal => "EQ"
  | notEqual => "NEQ"
  | less => "LT"
  | greater => "GT"
  | lessOrEqual => "LTE"
  | greaterOrEqual => "GTE"
  | memberOf => "IN"
  | contains => "CONTAINS"
  | not => "NOT"
  | and => "AND"
  | or => "OR"
  | openParen => "LPAREN"
  | closeParen => "RPAREN"
  | finish => "EOF"

def all : List TokenKind :=
  [identifier, number, quoted, boolean, null, list, equal, notEqual, less, greater, lessOrEqual,
   greaterOrEqual, memberOf, contains, not, and, or, openParen, closeParen, finish]

def ofName? (s : String) : Option TokenKind := all.find? (·.name == s)

/-- The keywords, in lower case, with their kinds. -/
def keywords : List (String × TokenKind) :=
  [("and", and), ("or", or), ("in", memberOf), ("contains", contains), ("not", not),
   ("true", boolean), ("false", boolean), ("nil", null), ("null", null)]

/-- The kind of a word: that of a keyword in any case, or an identifier. -/
def ofWord (word : String) : TokenKind := (keywords.lookup (Text.lower word)).getD identifier

/-- Words can name a field. -/
def isWord : TokenKind → Bool
  | identifier | and | or | memberOf | contains | not | boolean | null => true
  | _ => false

/-- Literals can stand on the right of a comparison. -/
def isLiteral : TokenKind → Bool
  | number | quoted | boolean | null | list => true
  | _ => false

/-- The comparison that a token of this kind spells alone. -/
def comparison? : TokenKind → Option Comparison
  | equal => some .equal
  | notEqual => some .notEqual
  | greater => some .greater
  | greaterOrEqual => some .greaterOrEqual
  | less => some .less
  | lessOrEqual => some .lessOrEqual
  | memberOf => some .memberOf
  | contains => some .contains
  | _ => none

/-- The connective that a token of this kind spells. -/
def connective? : TokenKind → Option Connective
  | and => some .and
  | or => some .or
  | _ => none

end TokenKind
end RecordFilter
