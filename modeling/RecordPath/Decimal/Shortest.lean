import RecordPath.Decimal.BinaryFormat

/-!
The decimal that stands for a magnitude: of the decimals that read back to it, one with the fewest
digits, and of those the nearest.
-/

namespace RecordPath

structure Decimal where
  digits : Nat
  exponent : Int
  deriving DecidableEq, Repr

namespace Decimal

def fraction (d : Decimal) : Nat × Nat :=
  match d.exponent with
  | .ofNat e => (d.digits * Nat.pow 10 e, 1)
  | .negSucc e => (d.digits, Nat.pow 10 (e + 1))

def magnitude (format : BinaryFormat) (d : Decimal) : Nat :=
  format.nearest d.fraction.1 d.fraction.2

def leadingExponent (num den : Nat) : Int :=
  if den ≤ num then ((Nat.toDigits 10 (num / den)).length : Int) - 1
  else -((Nat.toDigits 10 ((den - 1) / num)).length : Int)

/-- The grid point at or below a fraction, on the grid of the multiples of ten to the `grid`. -/
def below (num den : Nat) (grid : Int) : Nat :=
  match grid with
  | .ofNat e => num / (den * Nat.pow 10 e)
  | .negSucc e => num * Nat.pow 10 (e + 1) / den

/-- Whether a fraction is nearer to grid point `k` than to `k + 1`; a tie goes to the even one. -/
def nearerBelow (num den : Nat) (grid : Int) (k : Nat) : Bool :=
  let (num, den) := match grid with
    | .ofNat e => (num, den * Nat.pow 10 e)
    | .negSucc e => (num * Nat.pow 10 (e + 1), den)
  2 * num < (2 * k + 1) * den || (2 * num = (2 * k + 1) * den && k % 2 = 0)

def neighbour? (format : BinaryFormat) (bits : Nat) (grid : Int) : Option Decimal :=
  let (num, den) := format.fraction bits
  let k := below num den grid
  let lower : Decimal := ⟨k, grid⟩
  let upper : Decimal := ⟨k + 1, grid⟩
  match decide (lower.magnitude format = bits), decide (upper.magnitude format = bits) with
  | true, true => some (if nearerBelow num den grid k then lower else upper)
  | true, false => some lower
  | false, true => some upper
  | false, false => none

theorem neighbour?_reads_back {format : BinaryFormat} {bits : Nat} {grid : Int} {d : Decimal}
    (h : neighbour? format bits grid = some d) : d.magnitude format = bits := by
  simp only [neighbour?] at h
  split at h
  · rename_i lower upper
    split at h
    · cases h; exact of_decide_eq_true lower
    · cases h; exact of_decide_eq_true upper
  · rename_i lower upper
    cases h; exact of_decide_eq_true lower
  · rename_i lower upper
    cases h; exact of_decide_eq_true upper
  · cases h

def exact (format : BinaryFormat) (bits : Nat) : Decimal :=
  match format.exponent bits with
  | .ofNat e => ⟨format.mantissa bits * Nat.pow 2 e, 0⟩
  | .negSucc e => ⟨format.mantissa bits * Nat.pow 5 (e + 1), .negSucc e⟩

/-- Seventeen digits always suffice for a double, and for a single number. -/
def shortest (format : BinaryFormat) (bits : Nat) : Decimal :=
  let leading := leadingExponent (format.fraction bits).1 (format.fraction bits).2
  let found := (List.range 17).findSome? fun (n : Nat) => neighbour? format bits (leading - n)
  found.getD (exact format bits)

end Decimal

end RecordPath
