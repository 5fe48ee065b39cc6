import RecordPath.Filter.Lexeme

/-!
Reading predicates. Each open block keeps what stands to the left of its pending operators: `&&`
binds tighter than `||`, both associate to the left, and a `!` belongs to the condition after it.
-/

namespace RecordPath

namespace Predicate

def negate : Nat → Predicate → Predicate
  | 0, p => p
  | n + 1, p => negate n (.not p)

end Predicate

structure Frame where
  /-- The left side of a pending `||`. -/
  disjunct : Option Predicate
  /-- The left side of a pending `&&`. -/
  conjunct : Option Predicate
  /-- How many `!` wait for the next condition. -/
  nots : Nat
  /-- The last condition; none where one is expected. -/
  operand : Option Predicate
  deriving DecidableEq, Repr

namespace Frame

def empty : Frame :=
  ⟨none, none, 0, none⟩

def expecting (frame : Frame) : Bool :=
  frame.operand.isNone

def conjunction (frame : Frame) (p : Predicate) : Predicate :=
  match frame.conjunct with
  | none => p
  | some left => .and left p

def disjunction (frame : Frame) (p : Predicate) : Predicate :=
  match frame.disjunct with
  | none => frame.conjunction p
  | some left => .or left (frame.conjunction p)

def shift (frame : Frame) (p : Predicate) : Except FilterFault Frame :=
  match frame.operand with
  | some _ => .error .missingConnective
  | none => .ok { frame with nots := 0, operand := some (p.negate frame.nots) }

def shiftNot (frame : Frame) : Except FilterFault Frame :=
  if frame.expecting then .ok { frame with nots := frame.nots + 1 } else .error .unexpectedNot

def shiftAnd (frame : Frame) : Except FilterFault Frame :=
  match frame.operand with
  | none => .error .leadingConnective
  | some p => .ok { frame with conjunct := some (frame.conjunction p), operand := none }

def shiftOr (frame : Frame) : Except FilterFault Frame :=
  match frame.operand with
  | none => .error .leadingConnective
  | some p => .ok ⟨some (frame.disjunction p), none, frame.nots, none⟩

def finish (frame : Frame) : Except FilterFault Predicate :=
  match frame.operand with
  | some p => .ok (frame.disjunction p)
  | none =>
      if frame.disjunct.isNone && frame.conjunct.isNone then .error .emptyCondition
      else .error .danglingOperator

end Frame

inductive Opening where
  | group
  | quantifier (quantifier : Quantifier) (path : Location)
  deriving DecidableEq, Repr

namespace Opening

def close : Opening → Predicate → Predicate
  | .group, p => p
  | .quantifier q path, p => .quantified q path p

end Opening

namespace Predicate

def ofLexemes (outer : List (Opening × Frame)) (frame : Frame) :
    List Lexeme → Except FilterFault Predicate
  | [] =>
      match outer with
      | [] => frame.finish
      | _ :: _ => .error .unclosedOpen
  | .opening :: rest =>
      if frame.expecting then ofLexemes ((.group, frame) :: outer) .empty rest
      else .error .unexpectedOpen
  | .quantifier quantifier :: rest =>
      if frame.expecting then
        match rest with
        | .operand (.path path) :: .comma :: rest =>
            ofLexemes ((.quantifier quantifier path, frame) :: outer) .empty rest
        | _ => .error .quantifierPath
      else .error .unexpectedQuantifier
  | .closing :: rest =>
      match frame.finish, outer with
      | .error fault, _ => .error fault
      | .ok _, [] => .error .unbalancedClose
      | .ok inner, (opening, frame) :: outer =>
          match frame.shift (opening.close inner) with
          | .error fault => .error fault
          | .ok frame => ofLexemes outer frame rest
  | .not :: rest =>
      match frame.shiftNot with
      | .error fault => .error fault
      | .ok frame => ofLexemes outer frame rest
  | .and :: rest =>
      match frame.shiftAnd with
      | .error fault => .error fault
      | .ok frame => ofLexemes outer frame rest
  | .or :: rest =>
      match frame.shiftOr with
      | .error fault => .error fault
      | .ok frame => ofLexemes outer frame rest
  | .operand left :: .compare op :: .operand right :: rest =>
      match frame.shift (.compare left op right) with
      | .error fault => .error fault
      | .ok frame => ofLexemes outer frame rest
  | .operand _ :: .compare op :: _ => .error (.missingRight op)
  | .operand (.path path) :: rest =>
      match frame.shift (.present path) with
      | .error fault => .error fault
      | .ok frame => ofLexemes outer frame rest
  | .operand _ :: _ => .error .bareLiteral
  | .compare op :: _ => .error (.missingLeft op)
  | .comma :: _ => .error .unexpectedComma

def ofText (text : List Char) : Except FilterFault Predicate :=
  match Lexeme.ofText text with
  | .error fault => .error fault
  | .ok lexemes => ofLexemes [] .empty lexemes

end Predicate

end RecordPath
