import RecordPath.Json.Normalized

namespace RecordPath

namespace Step

def isAddressable : Step → Bool
  | .key _ => true
  | .index i => decide (i < Text.indexBound)

theorem takeWhile_natural (i : Nat) (rest : List Char) :
    (Text.natural i ++ ']' :: rest).takeWhile Char.isDigit = Text.natural i := by
  have digits : ∀ c ∈ Text.natural i, Char.isDigit c = true := fun c hc =>
    Nat.isDigit_of_mem_toDigits (show 0 < 10 by decide) (by decide) hc
  rw [List.takeWhile_append_of_pos digits, List.takeWhile_cons_of_neg (by decide), List.append_nil]

theorem dropWhile_natural (i : Nat) (rest : List Char) :
    (Text.natural i ++ ']' :: rest).dropWhile Char.isDigit = ']' :: rest := by
  have digits : ∀ c ∈ Text.natural i, Char.isDigit c = true := fun c hc =>
    Nat.isDigit_of_mem_toDigits (show 0 < 10 by decide) (by decide) hc
  rw [List.dropWhile_append_of_pos digits, List.dropWhile_cons_of_neg (by decide)]

theorem ofBracket?_quoted (name : String) (rest : List Char) :
    ofBracket? (Text.quoted '\x27' name.toList ++ ']' :: rest) = some (.key name, rest) := by
  have read := Text.unquote?_quoted true (.inl rfl) name.toList (']' :: rest)
  simp only [Text.quoted, List.cons_append, List.append_assoc, List.nil_append]
  rw [ofBracket?, if_pos (.inl rfl), read]
  simp

theorem ofBracket?_natural {i : Nat} (h : i < Text.indexBound) (rest : List Char) :
    ofBracket? (Text.natural i ++ ']' :: rest) = some (.index i, rest) := by
  have head : Nat.toDigits 10 i ≠ [] := Nat.toDigits_ne_nil
  have taken := takeWhile_natural i rest
  have dropped := dropWhile_natural i rest
  obtain ⟨c, cs, hc⟩ := List.exists_cons_of_ne_nil head
  have digit : Char.isDigit c = true :=
    Nat.isDigit_of_mem_toDigits (show 0 < 10 by decide) (by decide) (hc ▸ List.mem_cons_self)
  have unquoted : ¬ (c = '\x27' ∨ c = '\x22') := by
    rintro (rfl | rfl) <;> exact absurd digit (by decide)
  have hn : Text.natural i = c :: cs := hc
  rw [hn, List.cons_append] at taken dropped
  rw [hn, List.cons_append, ofBracket?, if_neg unquoted, taken, dropped, ← hn,
    Text.index?_natural h]
  rfl

theorem ofBracket?_normalized {step : Step} (h : step.isAddressable = true) (rest : List Char) :
    ∃ inside, step.normalized ++ rest = '[' :: inside ∧ ofBracket? inside = some (step, rest) := by
  cases step with
  | key name => exact ⟨_, by simp [normalized], ofBracket?_quoted name rest⟩
  | index i =>
      have hi : i < Text.indexBound := of_decide_eq_true h
      exact ⟨_, by simp [normalized], ofBracket?_natural hi rest⟩

end Step

namespace Location

def isAddressable (location : Location) : Bool :=
  location.all Step.isAddressable

theorem ofSteps?_bracket {inside rest : List Char} {step : Step}
    (h : Step.ofBracket? inside = some (step, rest)) :
    ofSteps? ('[' :: inside) = (ofSteps? rest).map (step :: ·) := by
  rw [ofSteps?]
  split
  · rename_i found hf
    cases h.symm.trans hf
    rfl
  · rename_i hf
    cases h.symm.trans hf

theorem ofSteps?_flatMap {location : Location} (h : location.isAddressable = true) :
    ofSteps? (location.flatMap Step.normalized) = some location := by
  induction location with
  | nil => simp [ofSteps?]
  | cons step rest ih =>
      simp only [isAddressable, List.all_cons, Bool.and_eq_true] at h
      obtain ⟨inside, written, read⟩ :=
        Step.ofBracket?_normalized h.1 (rest.flatMap Step.normalized)
      rw [List.flatMap_cons, written, ofSteps?_bracket read, ih h.2]
      rfl

theorem ofNormalized?_normalized {location : Location} (h : location.isAddressable = true) :
    ofNormalized? location.normalized = some location :=
  ofSteps?_flatMap h

end Location

end RecordPath
