import RecordFilter.Failure

/-! # Tokens -/

namespace RecordFilter

/-- A piece of query text. -/
structure Token where
  kind : TokenKind
  /-- The characters of the piece; of quoted text what is between the quotes, without escapes. The
  end of the text has none. -/
  text : Option String
  position : Int
  /-- The name after the `::` of quoted text. -/
  cast : Option String
  deriving DecidableEq

namespace Token

def finish (position : Int) : Token := ⟨.finish, none, position, none⟩

/-- A token whose text is written as it stands. -/
def plain (kind : TokenKind) (position : Int) (cs : List Char) : Token :=
  ⟨kind, some (String.ofList cs), position, none⟩

/-- The text where one is wanted; a token without one reads as `None`. -/
def content (t : Token) : String := t.text.getD "None"

end Token
end RecordFilter
