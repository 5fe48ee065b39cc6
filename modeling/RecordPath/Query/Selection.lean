import RecordPath.Query.Expression
import RecordPath.Json.Comparison

namespace RecordPath.Query

abbrev Node := Location × Json

namespace Comparison

/-- Nothing equals nothing, and no value. -/
def equal : Option Json → Option Json → Bool
  | none, none => true
  | some a, some b => a.equals b
  | _, _ => false

def below : Option Json → Option Json → Bool
  | some a, some b => a.less b
  | _, _ => false

def holds : RecordPath.Comparison → Option Json → Option Json → Bool
  | .eq, a, b => equal a b
  | .ne, a, b => !equal a b
  | .lt, a, b => below a b
  | .le, a, b => below a b || equal a b
  | .gt, a, b => below b a
  | .ge, a, b => below b a || equal a b

end Comparison

namespace Comparable

def value (item : Json) : Comparable → Option Json
  | .literal v => some v
  | .path steps => item.get? steps

end Comparable

namespace Condition

/-- A filter straight on the item itself selects nothing. -/
def holds : Condition → Json → Bool
  | .compare left op right, item => Comparison.holds op (left.value item) (right.value item)
  | .reaches path, item => (item.get? path).isSome
  | .selects [] _, _ => false
  | .selects (step :: path) condition, item =>
      match item.get? (step :: path) with
      | some value => value.children.any fun child => condition.holds child.2
      | none => false
  | .not inner, item => !inner.holds item
  | .and left right, item => left.holds item && right.holds item
  | .or left right, item => left.holds item || right.holds item

end Condition

def inside (place : Location) (found : Step × Json) : Node :=
  (place ++ [found.1], found.2)

namespace Selector

def select : Selector → Node → List Node
  | .child step, (place, value) =>
      match value.child? step with
      | some found => [inside place (step, found)]
      | none => []
  | .all, (place, value) => value.children.map (inside place)
  | .filter condition, (place, value) =>
      (value.children.filter fun child => condition.holds child.2).map (inside place)

end Selector

mutual

def containers (place : Location) : Json → List Node
  | .array items => (place, .array items) :: itemContainers place 0 items
  | .object members => (place, .object members) :: memberContainers place members
  | _ => []

def itemContainers (place : Location) (i : Nat) : List Json → List Node
  | [] => []
  | item :: items =>
      containers (place ++ [.index i]) item ++ itemContainers place (i + 1) items

def memberContainers (place : Location) : List (String × Json) → List Node
  | [] => []
  | (name, value) :: members =>
      containers (place ++ [.key name]) value ++ memberContainers place members

end

namespace Segment

def select (segment : Segment) (nodes : List Node) : List Node :=
  if segment.deep then
    nodes.flatMap fun node => (containers node.1 node.2).flatMap segment.selector.select
  else nodes.flatMap segment.selector.select

end Segment

namespace Expression

def selectFrom : Expression → List Node → List Node
  | [], nodes => nodes
  | segment :: rest, nodes => selectFrom rest (segment.select nodes)

def select (expression : Expression) (document : Json) : List Node :=
  expression.selectFrom [([], document)]

end Expression

end RecordPath.Query
