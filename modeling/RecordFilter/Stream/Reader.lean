import RecordFilter.Identifier
import RecordFilter.Stream.Basic
import RecordFilter.Token.Scan

/-! # Reading a stream from tokens

The reader takes tokens one by one and remembers what it waits for, the items of the level that it
is in, and the groups around that level. A token that cannot follow is refused at once, so every
token before it could still have been part of a query. -/

namespace RecordFilter

/-- What the reader waits for. -/
inductive Expecting where
  | start
  | opened
  /-- An item after a connective. -/
  | item
  | operator (identifier : String)
  /-- The `contains` after a `not`, which stands at `position`. -/
  | afterNot (identifier : String) (position : Int)
  | literal (identifier : String) (operator : Comparison)
  /-- A connective or the end of the level. -/
  | link
  deriving DecidableEq

/-- A level that waits for the end of a group in it. -/
structure OpenGroup where
  /-- Where the parenthesis of the group opens. -/
  position : Int
  before : List StreamItem

/-- How far a query has been read. -/
structure Reader where
  expecting : Expecting
  items : List StreamItem
  /-- The levels around it, innermost first. -/
  outer : List OpenGroup

namespace Reader

def start : Reader := ⟨.start, [], []⟩

def fail {α : Type} (fault : QueryFault) (position : Int) : Except Failure α :=
  .error (.query fault (some position))

/-- Whether the group that has just been opened is nested deeper than `limit` groups. -/
def isTooDeep (limit : Int) (r : Reader) : Bool := limit < r.outer.length

/-- Takes a token where an item is to begin. -/
def beginItem (r : Reader) (t : Token) : Except Failure Reader :=
  if t.kind = .openParen then .ok ⟨.opened, [], ⟨t.position, r.items⟩ :: r.outer⟩
  else if t.kind.isWord then
    match Identifier.fault? t.content with
    | some fault => fail (.identifier fault) t.position
    | none => .ok { r with expecting := .operator t.content }
  else fail (.expectedIdentifier t.kind) t.position

/-- Takes a token where the operator of a comparison is to stand. -/
def takeOperator (r : Reader) (identifier : String) (t : Token) : Except Failure Reader :=
  match t.kind.comparison? with
  | some operator => .ok { r with expecting := .literal identifier operator }
  | none =>
    if t.kind = .not then .ok { r with expecting := .afterNot identifier t.position }
    else if t.kind.isWord then fail (.unknownOperator t.content) t.position
    else fail (.expectedComparison t.kind) t.position

/-- Takes the token after a `not` at `position`. -/
def takeContains (r : Reader) (identifier : String) (position : Int) (t : Token) :
    Except Failure Reader :=
  if t.kind = .contains then .ok { r with expecting := .literal identifier .notContains }
  else if t.kind = .memberOf then fail .unsupportedNotIn position
  else fail .expectedContains t.position

/-- Takes the literal of a comparison, which completes it. -/
def takeLiteral (r : Reader) (identifier : String) (operator : Comparison) (t : Token) :
    Except Failure Reader :=
  if t.kind.isLiteral then
    .ok { r with expecting := .link, items := r.items ++ [.comparison identifier operator t] }
  else fail (.expectedLiteral t.kind) t.position

/-- Takes a token after an item: a connective, or the end of the group. -/
def takeLink (r : Reader) (t : Token) : Except Failure Reader :=
  match t.kind.connective? with
  | some c => .ok { r with expecting := .item, items := r.items ++ [.connective c] }
  | none =>
    match r.outer with
    | [] =>
      if t.kind = .closeParen then fail .unmatchedClose t.position
      else fail (.trailingToken t.content) t.position
    | group :: outer =>
      if t.kind = .closeParen then
        .ok ⟨.link, group.before ++ [.group r.items (some group.position)], outer⟩
      else fail .unmatchedOpen group.position

/-- Takes the next token. Groups may be nested `limit` deep. -/
def step (limit : Int) (r : Reader) (t : Token) : Except Failure Reader :=
  match r.expecting with
  | .start | .item => r.beginItem t
  | .opened =>
    if t.kind = .closeParen then fail .emptyGroup t.position
    else if r.isTooDeep limit then fail (.tooDeep limit) t.position
    else r.beginItem t
  | .operator identifier => r.takeOperator identifier t
  | .afterNot identifier position => r.takeContains identifier position t
  | .literal identifier operator => r.takeLiteral identifier operator t
  | .link => r.takeLink t

/-- Takes the end of the text, at `position`: the items, if the query is complete. -/
def finish (limit : Int) (r : Reader) (position : Int) : Except Failure (List StreamItem) :=
  match r.expecting with
  | .start => fail .emptyQuery position
  | .item => fail (.expectedIdentifier .finish) position
  | .opened =>
    if r.isTooDeep limit then fail (.tooDeep limit) position
    else fail (.expectedIdentifier .finish) position
  | .operator _ => fail (.expectedComparison .finish) position
  | .afterNot .. => fail .expectedContains position
  | .literal .. => fail (.expectedLiteral .finish) position
  | .link =>
    match r.outer with
    | [] => .ok r.items
    | group :: _ => fail .unmatchedOpen group.position

end Reader

namespace StreamItem

/-- The stream of a scan. What stops the scan counts only once all tokens before have been taken. -/
def ofScan (limit : Int) (s : Scan) : Except Failure (List StreamItem) := do
  let reader ← s.tokens.foldlM (Reader.step limit) Reader.start
  match s.ending with
  | .finish position => reader.finish limit position
  | .failed failure => .error failure

/-- The stream of a query in which groups may be nested `limit` deep. -/
def ofText (limit : Int) (text : String) : Except Failure (List StreamItem) :=
  ofScan limit (Scan.ofText 0 text)

end StreamItem
end RecordFilter
