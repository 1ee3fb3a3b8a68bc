import RecordFilter.Literal.Cast
import RecordFilter.Predicate.Builder
import RecordFilter.Stream.Reader

/-! # Predicates from streams

Each node of a stream becomes a predicate, linked by the connective that follows it; its literal is
cast on the way. -/

namespace RecordFilter

mutual

def StreamItem.toNode (limit : Except Failure Int) : StreamItem → Except Failure Node
  | .comparison identifier operator literal => do
    return .condition ⟨identifier, operator, ← Literal.castToken limit 0 literal⟩
  | .group items _ => do
    Node.ofLevel (← (addStream limit items >>= fun _ => Builder.build).resultFrom .empty)
  | .connective c => .error (.query (.unexpectedConnective c) none)

/-- Adds the nodes of a stream with their links to a builder. What does not alternate is found when
it is reached, after what stands before it has been compiled. -/
def addStream (limit : Except Failure Int) : List StreamItem → Stateful Builder Unit
  | [] => return
  | [item] => do Builder.add (← item.toNode limit)
  | .connective c :: _ => throw (.query (.unexpectedConnective c) none)
  | item :: .connective c :: rest => do
    Builder.add (← item.toNode limit)
    Builder.link c
    addStream limit rest
  | _ :: _ => throw (.query (.chain .missingConnective) none)

end

/-- The level of a stream, built by a builder of its own. -/
def compileStream (limit : Except Failure Int) (items : List StreamItem) :
    Except Failure (List Predicate) :=
  (addStream limit items >>= fun _ => Builder.build).resultFrom .empty

end RecordFilter
