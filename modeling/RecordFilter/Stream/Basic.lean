import RecordFilter.Token.Basic

/-! # Streams of comparisons

A query is first read as a flat stream: comparisons and groups with connectives between them. Which
connective binds more tightly is decided only when results are folded. -/

namespace RecordFilter

inductive StreamItem where
  /-- A comparison whose literal is still a token. -/
  | comparison (identifier : String) (operator : Comparison) (literal : Token)
  /-- What stands in parentheses, and where they open. -/
  | group (items : List StreamItem) (position : Option Int)
  | connective (c : Connective)

instance : Inhabited StreamItem := ⟨.connective .and⟩

/-- The nodes of a stream with the connectives that follow them, as far as nodes and connectives
alternate. -/
structure Pairing where
  pairs : List (StreamItem × Option Connective)
  fault : Option QueryFault

namespace Pairing

/-- The pairing with one more pair in front. -/
def cons (node : StreamItem) (link : Option Connective) (p : Pairing) : Pairing :=
  ⟨(node, link) :: p.pairs, p.fault⟩

/-- Pairs each node of a stream with the connective that follows it. -/
def ofStream : List StreamItem → Pairing
  | [] => ⟨[], none⟩
  | .connective c :: _ => ⟨[], some (.unexpectedConnective c)⟩
  | [node] => ⟨[(node, none)], none⟩
  | node :: .connective c :: rest => cons node (some c) (ofStream rest)
  | _ :: _ => ⟨[], some (.chain .missingConnective)⟩

/-- The pairs, if all of the stream can be paired. -/
def complete (p : Pairing) : Except Failure (List (StreamItem × Option Connective)) :=
  match p.fault with
  | some fault => .error (.query fault none)
  | none => .ok p.pairs

end Pairing
end RecordFilter
