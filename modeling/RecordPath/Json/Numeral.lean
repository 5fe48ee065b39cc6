import RecordPath.Json.Value
import RecordPath.Decimal.Shortest

/-!
Written numbers. A number is read by taking its digits into a significand of 64 bits; whole digits
that do not fit scale it, digits of the fraction that do not fit are left out, and the scaling is
one rounded multiplication or division by a power of ten, or two divisions for the smallest.
-/

namespace RecordPath

structure Numeral where
  negative : Bool
  whole : List Char
  fraction : List Char
  /-- The sign, true for minus, and the digits. -/
  exponent : Option (Bool × List Char)
  deriving DecidableEq, Repr

namespace Numeral

def readSign : List Char → Bool × List Char
  | '-' :: rest => (true, rest)
  | '+' :: rest => (false, rest)
  | cs => (false, cs)

def readWhole? (cs : List Char) : Option (List Char × List Char) :=
  match cs.takeWhile Char.isDigit with
  | [] => none
  | '0' :: _ :: _ => none
  | ds => some (ds, cs.dropWhile Char.isDigit)

def readDigits? (cs : List Char) : Option (List Char × List Char) :=
  match cs.takeWhile Char.isDigit with
  | [] => none
  | ds => some (ds, cs.dropWhile Char.isDigit)

def readFraction? : List Char → Option (List Char × List Char)
  | '.' :: rest => readDigits? rest
  | cs => some ([], cs)

def readExponent? : List Char → Option (Option (Bool × List Char) × List Char)
  | c :: rest =>
      if c = 'e' ∨ c = 'E' then
        let (negative, rest) := readSign rest
        (readDigits? rest).map fun (ds, after) => (some (negative, ds), after)
      else some (none, c :: rest)
  | [] => some (none, [])

def read? (cs : List Char) : Option (Numeral × List Char) := do
  let (negative, cs) := match cs with
    | '-' :: rest => (true, rest)
    | cs => (false, cs)
  let (whole, cs) ← readWhole? cs
  let (fraction, cs) ← readFraction? cs
  let (exponent, cs) ← readExponent? cs
  some (⟨negative, whole, fraction, exponent⟩, cs)

def ofText? (cs : List Char) : Option Numeral :=
  match read? cs with
  | some (numeral, []) => some numeral
  | _ => none

def isInteger (n : Numeral) : Bool :=
  n.fraction = [] && n.exponent.isNone

def wholeValue (n : Numeral) : Nat :=
  Nat.ofDigitChars 10 n.whole 0

def exponentValue (n : Numeral) : Int :=
  match n.exponent with
  | none => 0
  | some (true, ds) => -(Nat.ofDigitChars 10 ds 0 : Int)
  | some (false, ds) => Nat.ofDigitChars 10 ds 0

def decimal (n : Numeral) : Decimal :=
  ⟨Nat.ofDigitChars 10 (n.whole ++ n.fraction) 0, n.exponentValue - n.fraction.length⟩

def signed (negative : Bool) (x : Float) : Float :=
  if negative then -x else x

def nearest (n : Numeral) : Float :=
  signed n.negative (Float.ofBits (UInt64.ofNat (n.decimal.magnitude .double)))

def takeDigits : Nat → List Char → Nat × List Char
  | significand, [] => (significand, [])
  | significand, d :: ds =>
      let next := 10 * significand + (d.toNat - '0'.toNat)
      if next < Nat.pow 2 64 then takeDigits next ds else (significand, d :: ds)

def tenTo (e : Nat) : Float :=
  Float.ofScientific 1 false e

def scale? (significand : Nat) (exponent : Int) : Option Float :=
  let x := Float.ofNat significand
  match exponent with
  | .ofNat e =>
      if e ≤ 308 then
        let y := x * tenTo e
        if y.isInf then none else some y
      else if significand = 0 then some x else none
  | .negSucc e =>
      if e + 1 ≤ 308 then some (x / tenTo (e + 1))
      else if e + 1 ≤ 616 then some (x / tenTo 308 / tenTo (e + 1 - 308))
      else some 0.0

def exponentBound : Nat :=
  Nat.pow 2 31

def float? (n : Numeral) : Option Float :=
  let (significand, surplus) := takeDigits 0 n.whole
  let (significand, left) := takeDigits significand n.fraction
  let shift : Int := surplus.length - (n.fraction.length - left.length : Nat)
  let e := n.exponentValue
  let x := if e.natAbs < exponentBound then scale? significand (shift + e)
    else if e < 0 ∨ significand = 0 then some 0.0 else none
  x.map (signed n.negative)

def signedWhole (n : Numeral) : Int :=
  if n.negative then -n.wholeValue else n.wholeValue

def integer? (n : Numeral) : Option Int :=
  if n.isInteger && !(n.negative && n.wholeValue == 0) && Number.inRange n.signedWhole then
    some n.signedWhole
  else none

def number? (n : Numeral) : Option Number :=
  match n.integer? with
  | some i => some (.int i)
  | none => (n.float?.filter Float.isFinite).map .float

end Numeral

end RecordPath
