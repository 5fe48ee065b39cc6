namespace RecordPath

structure BinaryFormat where
  fractionBits : Nat
  exponentBits : Nat
  deriving DecidableEq, Repr

namespace BinaryFormat

def single : BinaryFormat := ⟨23, 8⟩

def double : BinaryFormat := ⟨52, 11⟩

def signBit (format : BinaryFormat) : Nat :=
  Nat.pow 2 (format.exponentBits + format.fractionBits)

def infinite (format : BinaryFormat) : Nat :=
  (Nat.pow 2 format.exponentBits - 1) * Nat.pow 2 format.fractionBits

def leastExponent (format : BinaryFormat) : Int :=
  2 - (Nat.pow 2 (format.exponentBits - 1) + format.fractionBits : Nat)

def mantissa (format : BinaryFormat) (bits : Nat) : Nat :=
  let one := Nat.pow 2 format.fractionBits
  if bits / one = 0 then bits else one + bits % one

def exponent (format : BinaryFormat) (bits : Nat) : Int :=
  format.leastExponent + (bits / Nat.pow 2 format.fractionBits - 1 : Nat)

def fraction (format : BinaryFormat) (bits : Nat) : Nat × Nat :=
  match format.exponent bits with
  | .ofNat e => (format.mantissa bits * Nat.pow 2 e, 1)
  | .negSucc e => (format.mantissa bits, Nat.pow 2 (e + 1))

def roundDiv (num den : Nat) : Nat :=
  let quotient := num / den
  let twice := 2 * (num % den)
  if twice < den ∨ (twice = den ∧ quotient % 2 = 0) then quotient else quotient + 1

theorem roundDiv_mul_right (n : Nat) {den : Nat} (h : 0 < den) : roundDiv (n * den) den = n := by
  simp [roundDiv, Nat.mul_div_cancel n h, h]

def binaryExponent (num den : Nat) : Int :=
  let guess := (num.log2 : Int) - den.log2
  let fits : Bool := match guess with
    | .ofNat e => den * Nat.pow 2 e ≤ num
    | .negSucc e => den ≤ num * Nat.pow 2 (e + 1)
  if fits then guess else guess - 1

def nearest (format : BinaryFormat) (num den : Nat) : Nat :=
  if num = 0 then 0
  else
    let least := format.leastExponent
    let scale := max least (binaryExponent num den - format.fractionBits)
    let rounded := match scale with
      | .ofNat e => roundDiv num (den * Nat.pow 2 e)
      | .negSucc e => roundDiv (num * Nat.pow 2 (e + 1)) den
    min format.infinite ((scale - least).toNat * Nat.pow 2 format.fractionBits + rounded)

end BinaryFormat

end RecordPath
