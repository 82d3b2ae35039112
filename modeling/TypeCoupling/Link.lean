import Std.Data.HashSet
import TypeCoupling.Index
import TypeCoupling.Relationship
import TypeCoupling.Usage

/-!
# Direct relationships

A candidate becomes a relationship when its target is a declared type of the same language. All
other candidates are dropped.
-/

namespace TypeCoupling

namespace TypeIndex

/-- The edge that a candidate stands for: the target is an indexed type of the language, the
source a type of the file, and the two differ. -/
def confirm? (x : TypeIndex) (own : List Entry) (language : Language) (c : Candidate) :
    Option Relationship := do
  let target ← (x.get? c.target).filter (·.language == language)
  let source ← own.find? (·.qualifiedName == c.source)
  let edge := Relationship.between source target c.kind
  if edge.isSelfEdge then none else some edge

end TypeIndex

/-- The edges whose key has not been seen before, the first one of each key. -/
def keepNew (seen : Std.HashSet EdgeKey) : List Relationship → List Relationship
  | [] => []
  | r :: rs =>
    if seen.contains r.key then keepNew seen rs else r :: keepNew (seen.insert r.key) rs

namespace TypeIndex

def link (x : TypeIndex) (own : List Entry) (language : Language) (candidates : List Candidate) :
    List Relationship :=
  keepNew ∅ (candidates.filterMap (x.confirm? own language))

end TypeIndex

end TypeCoupling
