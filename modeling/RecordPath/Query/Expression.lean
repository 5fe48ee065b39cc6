import RecordPath.Filter.Predicate

/-!
Queries over a document: segments that each turn the nodes selected so far into the next ones.
Conditions look at one item at a time and are of their own kind, apart from the predicates of
paths: they know nothing of records, and quantifiers are tests whether a filter selects anything.
-/

namespace RecordPath.Query

inductive Comparable where
  | literal (value : Json)
  | path (steps : Location)
  deriving DecidableEq, Repr

inductive Condition where
  | compare (left : Comparable) (op : Comparison) (right : Comparable)
  | reaches (path : Location)
  | selects (path : Location) (condition : Condition)
  | not (inner : Condition)
  | and (left right : Condition)
  | or (left right : Condition)
  deriving DecidableEq, Repr

inductive Selector where
  | child (step : Step)
  | all
  | filter (condition : Condition)
  deriving DecidableEq, Repr

structure Segment where
  /-- Applies to every container at and below the nodes. -/
  deep : Bool
  selector : Selector
  deriving DecidableEq, Repr

abbrev Expression := List Segment

end RecordPath.Query
