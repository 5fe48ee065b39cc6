import RecordPath.Query.Expression
import RecordPath.Json.Numeral
import RecordPath.Path.Name
import RecordPath.Text.Blank

/-!
Reading query text. Nesting is bounded, and so are integers, to those that every double holds. A
bare name loses the blanks at its end; at its start they are an error, but in a comparison they are
lost as well.
-/

namespace RecordPath.Query

open Text

/-- The greatest integer up to which doubles leave none out. -/
def integerBound : Nat :=
  Nat.pow 2 53 - 1

def nestingBound : Nat :=
  128

def nesting : Nat → Option Char → List Char → Nat
  | depth, _, [] => depth
  | depth, some quote, '\\' :: rest =>
      match rest with
      | [] => depth
      | _ :: rest => nesting depth (some quote) rest
  | depth, some quote, c :: rest => nesting depth (if c = quote then none else some quote) rest
  | depth, none, c :: rest =>
      if c = '\x27' ∨ c = '\x22' then nesting depth (some c) rest
      else if c = '(' ∨ c = '[' then max depth (nesting (depth + 1) none rest)
      else if c = ')' ∨ c = ']' then max depth (nesting (depth - 1) none rest)
      else nesting depth none rest

def integer? (cs : List Char) : Option Nat :=
  (natural? cs).filter (· ≤ integerBound)

inductive WrittenStep where
  | bare (name : List Char)
  | quoted (name : List Char)
  | index (i : Nat)
  deriving DecidableEq, Repr

namespace WrittenStep

def startsBlank : List Char → Bool
  | [] => false
  | c :: _ => isBlank c

/-- In a query, and in a test whether a path leads somewhere. -/
def step? : WrittenStep → Option Step
  | .bare name =>
      if startsBlank name then none else some (.key (String.ofList (trimEnd name)))
  | .quoted name => some (.key (String.ofList name))
  | .index i => some (.index i)

/-- In a comparison. -/
def operandStep : WrittenStep → Step
  | .bare name => .key (String.ofList (trim name))
  | .quoted name => .key (String.ofList name)
  | .index i => .index i

end WrittenStep

def readBare? (cs : List Char) : Option (List Char × List Char) :=
  let name := cs.takeWhile Path.isBareCharacter
  if Path.isBare name then some (name, cs.dropWhile Path.isBareCharacter) else none

def readBracketed? (cs : List Char) : Option (WrittenStep × List Char) :=
  match cs with
  | '\x27' :: rest =>
      match unquote? false '\x27' rest with
      | some (name, ']' :: after) => some (.quoted name, after)
      | _ => none
  | _ =>
      match cs.dropWhile Char.isDigit with
      | ']' :: after => (integer? (cs.takeWhile Char.isDigit)).map fun i => (.index i, after)
      | _ => none

def readSteps? : Nat → List Char → Option (List WrittenStep × List Char)
  | 0, _ => none
  | fuel + 1, cs =>
      match cs with
      | '.' :: rest =>
          match readBare? rest with
          | none => none
          | some (name, more) =>
              (readSteps? fuel more).map fun (steps, after) => (.bare name :: steps, after)
      | '[' :: '?' :: _ => some ([], cs)
      | '[' :: rest =>
          match readBracketed? rest with
          | none => none
          | some (step, more) =>
              (readSteps? fuel more).map fun (steps, after) => (step :: steps, after)
      | _ => some ([], cs)

def readComparison? : List Char → Option (Comparison × List Char)
  | '=' :: '=' :: rest => some (.eq, rest)
  | '!' :: '=' :: rest => some (.ne, rest)
  | '<' :: '=' :: rest => some (.le, rest)
  | '<' :: rest => some (.lt, rest)
  | '>' :: '=' :: rest => some (.ge, rest)
  | '>' :: rest => some (.gt, rest)
  | _ => none

def skipSpaces (cs : List Char) : List Char :=
  cs.dropWhile (· = ' ')

def number? (n : Numeral) : Option Number :=
  if n.wholeValue ≤ integerBound then
    if n.isInteger then
      let value : Int := n.wholeValue
      some (.int (if n.negative then -value else value))
    else some (.float n.nearest)
  else none

def readLiteral? (cs : List Char) : Option (Json × List Char) :=
  match cs with
  | '\x22' :: rest =>
      (unquote? false '\x22' rest).map fun (text, after) => (.string (String.ofList text), after)
  | 't' :: 'r' :: 'u' :: 'e' :: rest => some (.bool true, rest)
  | 'f' :: 'a' :: 'l' :: 's' :: 'e' :: rest => some (.bool false, rest)
  | 'n' :: 'u' :: 'l' :: 'l' :: rest => some (.null, rest)
  | _ =>
      match Numeral.read? cs with
      | some (n, after) => (number? n).map fun value => (.number value, after)
      | none => none

def readComparable? (cs : List Char) : Option (Comparable × List Char) :=
  match cs with
  | '@' :: rest =>
      (readSteps? (rest.length + 1) rest).map fun (steps, after) =>
        (.path (steps.map WrittenStep.operandStep), after)
  | _ => (readLiteral? cs).map fun (value, after) => (.literal value, after)

mutual

def readDisjunction? : Nat → List Char → Option (Condition × List Char)
  | 0, _ => none
  | fuel + 1, cs =>
      match readConjunction? fuel cs with
      | none => none
      | some (left, rest) =>
          match skipSpaces rest with
          | '|' :: '|' :: more =>
              (readDisjunction? fuel (skipSpaces more)).map fun (right, after) =>
                (.or left right, after)
          | _ => some (left, rest)

def readConjunction? : Nat → List Char → Option (Condition × List Char)
  | 0, _ => none
  | fuel + 1, cs =>
      match readTest? fuel cs with
      | none => none
      | some (left, rest) =>
          match skipSpaces rest with
          | '&' :: '&' :: more =>
              (readConjunction? fuel (skipSpaces more)).map fun (right, after) =>
                (.and left right, after)
          | _ => some (left, rest)

def readTest? : Nat → List Char → Option (Condition × List Char)
  | 0, _ => none
  | fuel + 1, cs =>
      match cs with
      | '!' :: rest => (readTest? fuel rest).map fun (inner, after) => (.not inner, after)
      | '(' :: rest =>
          match readDisjunction? fuel rest with
          | some (inner, ')' :: after) => some (inner, after)
          | _ => none
      | '@' :: rest =>
          match readSteps? (rest.length + 1) rest with
          | none => none
          | some (steps, '[' :: '?' :: more) =>
              match steps.mapM WrittenStep.step?, readDisjunction? fuel more with
              | some path, some (condition, ']' :: after) => some (.selects path condition, after)
              | _, _ => none
          | some (steps, more) =>
              match readComparison? (skipSpaces more) with
              | some (op, more) =>
                  (readComparable? (skipSpaces more)).map fun (right, after) =>
                    (.compare (.path (steps.map WrittenStep.operandStep)) op right, after)
              | none => (steps.mapM WrittenStep.step?).map fun path => (.reaches path, more)
      | _ =>
          match readLiteral? cs with
          | none => none
          | some (value, more) =>
              match readComparison? (skipSpaces more) with
              | none => none
              | some (op, more) =>
                  (readComparable? (skipSpaces more)).map fun (right, after) =>
                    (.compare (.literal value) op right, after)

end

def readCondition? (cs : List Char) : Option (Condition × List Char) :=
  readDisjunction? (3 * cs.length + 3) cs

def readBracketedSelector? (cs : List Char) : Option (Selector × List Char) :=
  match cs with
  | '*' :: ']' :: after => some (.all, after)
  | '?' :: rest =>
      match readCondition? rest with
      | some (condition, ']' :: after) => some (.filter condition, after)
      | _ => none
  | _ =>
      match readBracketed? cs with
      | none => none
      | some (step, after) => step.step?.map fun step => (.child step, after)

def readDotted? (cs : List Char) : Option (Selector × List Char) :=
  match cs with
  | '*' :: after => some (.all, after)
  | _ =>
      match readBare? cs with
      | none => none
      | some (name, after) => (WrittenStep.bare name).step?.map fun step => (.child step, after)

def readSegment? (cs : List Char) : Option (Segment × List Char) :=
  match cs with
  | '.' :: '.' :: '[' :: rest =>
      (readBracketedSelector? rest).map fun (selector, after) => (⟨true, selector⟩, after)
  | '.' :: '.' :: rest =>
      (readDotted? rest).map fun (selector, after) => (⟨true, selector⟩, after)
  | '.' :: rest => (readDotted? rest).map fun (selector, after) => (⟨false, selector⟩, after)
  | '[' :: rest =>
      (readBracketedSelector? rest).map fun (selector, after) => (⟨false, selector⟩, after)
  | _ => none

def readSegments? : Nat → List Char → Option Expression
  | _, [] => some []
  | 0, _ :: _ => none
  | fuel + 1, cs =>
      match readSegment? cs with
      | none => none
      | some (segment, after) => (readSegments? fuel after).map (segment :: ·)

def Expression.ofText? (cs : List Char) : Option Expression :=
  if nesting 0 none cs ≤ nestingBound then
    match cs with
    | '$' :: rest => readSegments? rest.length rest
    | _ => none
  else none

end RecordPath.Query
