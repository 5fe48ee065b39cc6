namespace RecordPath.Text

def hexValue? (c : Char) : Option Nat :=
  if c.isDigit then some (c.toNat - '0'.toNat)
  else if 'a' ≤ c ∧ c ≤ 'f' then some (c.toNat - 'a'.toNat + 10)
  else if 'A' ≤ c ∧ c ≤ 'F' then some (c.toNat - 'A'.toNat + 10)
  else none

def hexDigit (n : Nat) : Char :=
  Nat.digitChar (n % 16)

theorem hexValue?_hexDigit (n : Nat) : hexValue? (hexDigit n) = some (n % 16) := by
  have all : ∀ d < 16, hexValue? (Nat.digitChar d) = some d := by decide
  exact all (n % 16) (Nat.mod_lt n (by decide))

def fourHex (n : Nat) : List Char :=
  [hexDigit (n / 4096), hexDigit (n / 256), hexDigit (n / 16), hexDigit n]

def fourHexValue? (a b c d : Char) : Option Nat :=
  match hexValue? a, hexValue? b, hexValue? c, hexValue? d with
  | some a, some b, some c, some d => some (((a * 16 + b) * 16 + c) * 16 + d)
  | _, _, _, _ => none

theorem fourHexValue?_fourHex {n : Nat} (h : n < 65536) :
    fourHexValue? (hexDigit (n / 4096)) (hexDigit (n / 256)) (hexDigit (n / 16)) (hexDigit n)
      = some n := by
  simp only [fourHexValue?, hexValue?_hexDigit, Option.some.injEq]
  omega

/-- The number in an escape: four digits or, where it may be signed, a plus and three. -/
def escapeNumber? (signed : Bool) (a b c d : Char) : Option Nat :=
  if signed = true ∧ a = '+' then fourHexValue? '0' b c d else fourHexValue? a b c d

theorem escapeNumber?_fourHex (signed : Bool) {n : Nat} (h : n < 65536) :
    escapeNumber? signed (hexDigit (n / 4096)) (hexDigit (n / 256)) (hexDigit (n / 16))
      (hexDigit n) = some n := by
  have digit : ∀ d < 16, Nat.digitChar d ≠ '+' := by decide
  have unsigned : ¬ (signed = true ∧ hexDigit (n / 4096) = '+') := fun plus =>
    digit _ (Nat.mod_lt _ (by decide)) plus.2
  rw [escapeNumber?, if_neg unsigned, fourHexValue?_fourHex h]

/-- The halves of a surrogate pair name no character of their own. -/
def charOf? (n : Nat) : Option Char :=
  if n.isValidChar then some (Char.ofNat n) else none

theorem charOf?_toNat (c : Char) : charOf? c.toNat = some c := by
  have valid : c.toNat.isValidChar := c.valid
  simp [charOf?, valid, Char.ofNat_toNat]

end RecordPath.Text
