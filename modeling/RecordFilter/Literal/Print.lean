import RecordFilter.Literal.Basic
import RecordFilter.Text.Quoted

/-! # Literals in query text -/

namespace RecordFilter

namespace Literal

mutual

def queryText : Literal → Except Failure String
  | null => .ok "nil"
  | bool b => .ok (if b then "true" else "false")
  | number n => n.number.queryText
  | text s => .ok (Text.quote s)
  | date d => .ok ("'" ++ d.text ++ "'::DATE")
  | misdated clock zone => .ok ("'" ++ clock.text zone ++ "'::DATE")
  | datetime z => .ok ("'" ++ z.shortText ++ "'::DATETIME")
  | list items => do return "[" ++ ", ".intercalate (← queryTexts items) ++ "]"
  | blank => .error .noValue
  | foreign v => .error (v.callFailure "to_python")

/-- The texts of literals in a query; the first that fails decides. -/
def queryTexts : List Literal → Except Failure (List String)
  | [] => .ok []
  | l :: rest => do
    let first ← queryText l
    return first :: (← queryTexts rest)

end

end Literal
end RecordFilter
