import Stepwise.Json.Basic
import Stepwise.Session

/-!
# Records in JSON

What a front end is told, as JSON values: reports, outcomes of steps, and what
they are made of.
-/

namespace Stepwise

def Token.Kind.toJson : Token.Kind → Json
  | .number => .text "number"
  | .operator => .text "operator"
  | .parenthesis => .text "parenthesis"
  | .error => .text "error"

def Token.toJson (t : Token) : Json :=
  .object [("kind", t.kind.toJson), ("value", .text t.text)]

def Block.toJson (b : Block) : Json :=
  .object [("id", .count b.id), ("priority", .count b.priority),
    ("start", .count b.start), ("end", .count b.stop)]

def Token.listToJson (tokens : List Token) : Json := .array (tokens.map Token.toJson)

def Block.listToJson (blocks : List Block) : Json := .array (blocks.map Block.toJson)

/-- The outcome of a step; a value that is no number in JSON is `null`. -/
def Evaluation.toJson (v : Evaluation) : Json :=
  .object [("complete", .bool v.complete), ("value", .number v.value),
    ("tokens", Token.listToJson v.tokens), ("blocks", Block.listToJson v.blocks)]

def Outcome.toJson (o : Outcome) : Json :=
  .object [("success", .bool o.success), ("message", .text o.message)]

def Phase.name : Phase → String
  | .empty => "Empty"
  | .parsed => "Parsed"
  | .reducing => "Reducing"
  | .complete => "Complete"

def Phase.toJson (p : Phase) : Json := .text p.name

end Stepwise
