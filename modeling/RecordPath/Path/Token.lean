import RecordPath.Filter.Predicate

namespace RecordPath

inductive AggregateFunction where
  | length
  | min
  | max
  | avg
  | stddev
  deriving DecidableEq, Repr

namespace AggregateFunction

def all : List AggregateFunction :=
  [.length, .min, .max, .avg, .stddev]

def name : AggregateFunction → String
  | .length => "length"
  | .min => "min"
  | .max => "max"
  | .avg => "avg"
  | .stddev => "stddev"

def ofName? : String → Option AggregateFunction
  | "length" => some .length
  | "min" => some .min
  | "max" => some .max
  | "avg" => some .avg
  | "stddev" => some .stddev
  | _ => none

theorem mem_all (function : AggregateFunction) : function ∈ all := by
  cases function <;> decide

theorem ofName?_name (function : AggregateFunction) : ofName? function.name = some function := by
  cases function <;> rfl

theorem ofName?_eq_some {text : String} {function : AggregateFunction}
    (h : ofName? text = some function) : text = function.name := by
  unfold ofName? at h
  split at h <;> cases h <;> rfl

end AggregateFunction

inductive Token where
  | key (name : String)
  | index (i : Nat)
  | wildcard
  | listWildcard
  /-- The step after it applies at every depth. -/
  | deepScan
  /-- The text between the parentheses without blanks at its ends, and what it says. -/
  | filter (source : String) (predicate : Predicate)
  | function (f : AggregateFunction)
  deriving DecidableEq, Repr

namespace Token

def needsQuery : Token → Bool
  | .key _ => false
  | .index _ => false
  | _ => true

def step? : Token → Option Step
  | .key name => some (.key name)
  | .index i => some (.index i)
  | _ => none

theorem step?_isSome (token : Token) : token.step?.isSome = !token.needsQuery := by
  cases token <;> rfl

def isFunction : Token → Bool
  | .function _ => true
  | _ => false

def isDeepScan : Token → Bool
  | .deepScan => true
  | _ => false

def chars : Token → List Char
  | .key name => '.' :: name.toList
  | .index i => (Step.index i).chars
  | .wildcard => ['.', '*']
  | .listWildcard => ['[', '*', ']']
  | .deepScan => ['.', '.']
  | .filter source _ => "[?(".toList ++ source.toList ++ ")]".toList
  | .function f => '.' :: f.name.toList ++ ['(', ')']

def text (token : Token) : String :=
  String.ofList token.chars

end Token

end RecordPath
