namespace RecordPath.Text

def natural (n : Nat) : List Char :=
  Nat.toDigits 10 n

def natural? (cs : List Char) : Option Nat :=
  if cs ≠ [] ∧ cs.all Char.isDigit = true then some (Nat.ofDigitChars 10 cs 0) else none

theorem natural?_natural (n : Nat) : natural? (natural n) = some n := by
  have digits : (Nat.toDigits 10 n).all Char.isDigit = true := by
    rw [List.all_eq_true]
    intro c hc
    exact Nat.isDigit_of_mem_toDigits (show 0 < 10 by decide) (by decide) hc
  simp [natural?, natural, digits, Nat.toDigits_ne_nil, Nat.ofDigitChars_ten_toDigits]

/-- Positions in a list are counted in 64 bits. -/
def indexBound : Nat :=
  Nat.pow 2 64

def index? (cs : List Char) : Option Nat :=
  (natural? cs).filter (· < indexBound)

theorem index?_natural {n : Nat} (h : n < indexBound) : index? (natural n) = some n := by
  simp [index?, natural?_natural, h]

end RecordPath.Text
