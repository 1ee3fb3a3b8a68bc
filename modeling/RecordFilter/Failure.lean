import RecordFilter.Token.Kind

/-! # Failures

Every way in which an operation can fail, as a cause with what it is about. The wording of all of
them is in this module. -/

namespace RecordFilter

/-- Why a text is no sequence of tokens. -/
inductive LexicalFault where
  /-- A single `=`. -/
  | loneEquals
  /-- A `!` without `=` after it. -/
  | loneExclamation
  | invalidCharacter (c : Char)
  | missingCastName
  | openQuote
  | openList
  deriving DecidableEq

/-- Why a dotted identifier names no path. -/
inductive IdentifierFault where
  | emptySegment (identifier : String)
  /-- The segment does not have the form of a name. -/
  | badSegment (identifier segment : String)
  deriving DecidableEq

/-- Why predicates do not form a level. -/
inductive ChainFault where
  | emptyLevel
  /-- A predicate other than the last is not linked onward. -/
  | missingConnective
  | danglingConnective (text : String)
  deriving DecidableEq

/-- What is wrong in a tree of predicates. -/
inductive Defect where
  | chain (fault : ChainFault)
  | unknownNode (typeName : String)
  | identifier (fault : IdentifierFault)
  /-- A path ends in the name of a computed property. -/
  | reservedSuffix (identifier suffix : String)
  | unknownLiteral (typeName : String)
  deriving DecidableEq

inductive QueryFault where
  | lexical (fault : LexicalFault)
  | notText (typeName : String)
  | emptyQuery
  | unmatchedClose
  | unmatchedOpen
  | trailingToken (text : String)
  | emptyGroup
  | tooDeep (limit : Int)
  | expectedIdentifier (found : TokenKind)
  | identifier (fault : IdentifierFault)
  | unsupportedNotIn
  | expectedContains
  | unknownOperator (word : String)
  | expectedComparison (found : TokenKind)
  | expectedLiteral (found : TokenKind)
  | unexpectedConnective (connective : Connective)
  /-- A connective that has no predicate to link. -/
  | unprecededConnective (connective : Connective)
  | unsupportedOperator (text : String)
  | chain (fault : ChainFault)
  | defects (found : List Defect)
  deriving DecidableEq

/-- Why a literal cannot be made. -/
inductive CastFault where
  | unsupportedType (typeName : String)
  | notNumber (shown : String)
  | notFinite (shown : String)
  | missingOffset (text : String)
  | badDate (text : String)
  | impossibleDate (text : String)
  | badDateTime (text : String)
  | impossibleDateTime (text : String)
  | unsupportedCast (name : String)
  | badNumber (text : String)
  | numberOutOfRange (text : String)
  | emptyItem
  | listTooDeep
  | badItem (text : String) (reason : Option LexicalFault)
  deriving DecidableEq

/-- Why a value does not suit a field of the settings. -/
inductive SettingProblem where
  | notAllowed
  /-- A text or a number that is no truth value. -/
  | notTruthValue
  /-- Neither a truth value nor a text or a number. -/
  | notTruthType
  | notWholeText
  | notWhole
  | notNumeric
  | outOfBounds
  deriving DecidableEq

/-- A field of the settings and what is wrong with its value. -/
structure SettingFault where
  field : String
  problem : SettingProblem
  deriving DecidableEq

/-- Why an operation has no result. Positions count characters from the start of the query. -/
inductive Failure where
  | query (fault : QueryFault) (position : Option Int)
  | cast (fault : CastFault) (position : Option Int)
  /-- Evaluation met a node that is neither a condition nor a group. -/
  | unknownNode (typeName : String)
  | settings (faults : List SettingFault)
  | signalingNaN
  | fractionTooLarge
  | tooManyDigits
  | missingAttribute
  | refused
  | notCallable
  /-- The blank literal has no value. -/
  | noValue
  /-- A list has no such element. -/
  | outOfRange
  /-- What a lookup raises that is none of these, by its kind. -/
  | raised (kind : String)
  /-- What a lookup raises to tell that there is nothing more, by its kind. -/
  | stopped (kind : String)
  /-- A generator was left by a failure that tells that there is nothing more. -/
  | generatorStopped (kind : String)
  deriving DecidableEq

namespace LexicalFault

def reason : LexicalFault → String
  | loneEquals => "Unexpected character '='. Did you mean '=='?"
  | loneExclamation => "Unexpected character '!'. Did you mean '!='?"
  | invalidCharacter c => "Invalid character '" ++ c.toString ++ "'"
  | missingCastName => "Expected cast type after '::'"
  | openQuote => "Unterminated string literal"
  | openList => "Unterminated list literal"

end LexicalFault

namespace IdentifierFault

def reason : IdentifierFault → String
  | emptySegment identifier => "Invalid identifier '" ++ identifier ++ "': empty path segment"
  | badSegment identifier segment =>
    "Invalid identifier '" ++ identifier ++ "': segment '" ++ segment
      ++ "' must not start with a digit"

end IdentifierFault

namespace ChainFault

def reason : ChainFault → String
  | emptyLevel => "Empty predicate group"
  | missingConnective => "Missing logical operator between predicates"
  | danglingConnective text => "Dangling logical operator '" ++ text ++ "'"

end ChainFault

namespace Defect

def reason : Defect → String
  | chain fault => fault.reason
  | unknownNode typeName => "Unknown node type: " ++ typeName
  | identifier fault => fault.reason
  | reservedSuffix path suffix =>
    "Identifier '" ++ path ++ "' uses reserved suffix '" ++ suffix ++ "'"
  | unknownLiteral typeName => "Unknown literal type: " ++ typeName

end Defect

namespace QueryFault

def reason : QueryFault → String
  | lexical fault => fault.reason
  | notText typeName => "Query must be a string, got " ++ typeName
  | emptyQuery => "Empty query"
  | unmatchedClose => "Unmatched ')'"
  | unmatchedOpen => "Unmatched '('"
  | trailingToken text => "Unexpected token '" ++ text ++ "' after expression"
  | emptyGroup => "Empty group '()'"
  | tooDeep limit => "Maximum nesting depth of " ++ toString limit ++ " exceeded"
  | expectedIdentifier found => "Expected identifier, found " ++ found.name
  | identifier fault => fault.reason
  | unsupportedNotIn => "Unsupported operator 'not in'"
  | expectedContains => "Expected 'contains' after 'not'"
  | unknownOperator word => "Unknown operator '" ++ word ++ "'"
  | expectedComparison found => "Expected comparison operator, found " ++ found.name
  | expectedLiteral found => "Expected literal value, found " ++ found.name
  | unexpectedConnective connective => "Unexpected logical operator '" ++ connective.text ++ "'"
  | unprecededConnective connective =>
    "Logical operator '" ++ connective.text ++ "' without a preceding predicate"
  | unsupportedOperator text => "Unsupported operator '" ++ text ++ "'"
  | chain fault => fault.reason
  | defects found => "; ".intercalate (found.map Defect.reason)

end QueryFault

namespace CastFault

/-- The wording. What is wrong with an impossible date or time is not told: a star stands for
it. -/
def reason : CastFault → String
  | unsupportedType typeName => "Unsupported literal type: " ++ typeName
  | notNumber shown => "Not a number: " ++ shown
  | notFinite shown => "Number literal must be finite: " ++ shown
  | missingOffset text => "Datetime literal must carry an offset: " ++ text
  | badDate text => "Invalid date literal '" ++ text ++ "'"
  | impossibleDate text => "Invalid date literal '" ++ text ++ "': *"
  | badDateTime text => "Invalid datetime literal '" ++ text ++ "'"
  | impossibleDateTime text => "Invalid datetime literal '" ++ text ++ "': *"
  | unsupportedCast name => "Unsupported cast '::" ++ name ++ "'"
  | badNumber text => "Invalid number literal '" ++ text ++ "'"
  | numberOutOfRange text => "Number literal '" ++ text ++ "' is out of range"
  | emptyItem => "Empty list item"
  | listTooDeep => "List literal nested too deeply"
  | badItem text none => "Invalid list item '" ++ text ++ "'"
  | badItem text (some fault) => "Invalid list item '" ++ text ++ "': " ++ fault.reason

end CastFault

namespace Failure

/-- A message with the position that it is about. -/
def located (reason : String) : Option Int → String
  | some position => reason ++ " at position " ++ toString position
  | none => reason

/-- The message without a position, for the failures that have one. -/
def reason? : Failure → Option String
  | query fault _ => some fault.reason
  | cast fault _ => some fault.reason
  | unknownNode typeName => some ("Unknown node type: " ++ typeName)
  | _ => none

def position? : Failure → Option Int
  | query _ position => position
  | cast _ position => position
  | _ => none

/-- The message, for the failures that have one. -/
def message? (f : Failure) : Option String := f.reason?.map (located · f.position?)

/-- The failure as a generator passes it on. The end of a generator is told by a failure too, so one
that tells of an end inside of it leaves it as another. -/
def passedOn : Failure → Failure
  | stopped kind => generatorStopped kind
  | failure => failure

/-- A query that does not parse: bad syntax or a bad literal. -/
def isParseFailure : Failure → Bool
  | query .. | cast .. => true
  | _ => false

end Failure
end RecordFilter
