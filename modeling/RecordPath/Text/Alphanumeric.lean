import RecordPath.Text.Alphabetic
import RecordPath.Text.Numeric

namespace RecordPath.Text

def isAlphanumeric (c : Char) : Bool :=
  isAlphabetic c || isNumeric c

theorem isAlphanumeric_of_isAlphanum {c : Char} (h : c.isAlphanum = true) :
    isAlphanumeric c = true := by
  simp only [Char.isAlphanum, Bool.or_eq_true] at h
  rcases h with h | h <;> simp [isAlphanumeric, isAlphabetic, isNumeric, h]

end RecordPath.Text
