import RecordPath.Proofs.Query.Written

namespace RecordPath

open Query Text

inductive EndsCondition : List Char → Prop
  | closing {c : Char} (rest : List Char) : c = ')' ∨ c = ']' → EndsCondition (c :: rest)
  | and (rest : List Char) : EndsCondition (' ' :: '&' :: '&' :: rest)
  | or (rest : List Char) : EndsCondition (' ' :: '|' :: '|' :: rest)

section Ends

variable {rest : List Char}

theorem EndsCondition.endsOperand (h : EndsCondition rest) : EndsOperand rest := by
  cases h with
  | closing rest hc => exact ⟨_, rest, rfl, .inr hc⟩
  | and rest => exact ⟨' ', _, rfl, .inl rfl⟩
  | or rest => exact ⟨' ', _, rfl, .inl rfl⟩

theorem EndsCondition.readComparison? (h : EndsCondition rest) :
    readComparison? (skipSpaces rest) = none := by
  cases h with
  | closing rest hc => rcases hc with rfl | rfl <;> rfl
  | and rest => rfl
  | or rest => rfl

theorem readComparison?_symbol (op : Comparison) (rest : List Char) :
    readComparison? (skipSpaces (' ' :: (op.symbol.toList ++ ' ' :: rest))) =
      some (op, ' ' :: rest) := by
  cases op <;> rfl

theorem skipSpaces_of_head? {cs : List Char} (h : ∀ c ∈ cs.head?, c ≠ ' ') :
    skipSpaces (' ' :: cs) = cs := by
  cases cs with
  | nil => rfl
  | cons c cs => simp [skipSpaces, h c rfl]

theorem skipSpaces_closing_ne {c d : Char} (closing : c = ')' ∨ c = ']') (sign : d = '&' ∨ d = '|')
    (more : List Char) : skipSpaces (c :: rest) ≠ d :: d :: more := by
  have skip : skipSpaces (c :: rest) = c :: rest := by
    rcases closing with rfl | rfl <;> rfl
  rw [skip]
  rintro ⟨⟩
  rcases sign with rfl | rfl <;> rcases closing with h | h <;> cases h

end Ends

section Tests

variable {path : Location} {cs more next rest : List Char} {condition left right : Condition}
  {compared : Comparable} {fuel : Nat} {op : Comparison} {taken others : Bool}

theorem readTest?_group (inner : readDisjunction? fuel cs =
      if taken = true then some (condition, ')' :: rest) else none) :
    readTest? (fuel + 1) ('(' :: cs) = if taken = true then some (condition, rest) else none := by
  cases taken <;> simp [readTest?, inner]

theorem readTest?_not (inner : readTest? fuel cs =
      if taken = true then some (condition, rest) else none) :
    readTest? (fuel + 1) ('!' :: cs) =
      if taken = true then some (.not condition, rest) else none := by
  cases taken <;> simp [readTest?, inner]

theorem readTest?_filter (inner : readDisjunction? fuel cs =
      if taken = true then some (condition, ']' :: rest) else none) :
    readTest? (fuel + 1) ('@' :: (path.flatMap Path.step ++ '[' :: '?' :: cs)) =
      if ((path.all Step.inBounds && path.all Step.startsPlain) && taken) = true then
        some (.selects (path.map Step.asRead) condition, rest)
      else none := by
  simp only [readTest?, readSteps?_path (.filter cs)]
  cases path.all Step.inBounds with
  | false => rfl
  | true =>
      simp only [if_true, Step.mapM_written_step?, inner]
      cases path.all Step.startsPlain <;> cases taken <;> rfl

theorem readTest?_compared (ends : EndsOperand more)
    (sign : readComparison? (skipSpaces more) = some (op, next))
    (side : readComparable? (skipSpaces next) =
      if taken = true then some (compared, rest) else none) :
    readTest? (fuel + 1) ('@' :: (path.flatMap Path.step ++ more)) =
      if (path.all Step.inBounds && taken) = true then
        some (.compare (.path (path.map Step.asOperand)) op compared, rest)
      else none := by
  simp only [readTest?, readSteps?_path ends.endsSteps]
  cases path.all Step.inBounds with
  | false => rfl
  | true =>
      obtain ⟨c, others, rfl, closing⟩ := ends
      rcases closing with rfl | rfl | rfl <;> cases taken <;>
        simp [sign, side, Step.asOperand]

theorem readTest?_reaches (ends : EndsOperand rest)
    (sign : readComparison? (skipSpaces rest) = none) :
    readTest? (fuel + 1) ('@' :: (path.flatMap Path.step ++ rest)) =
      if (path.all Step.inBounds && path.all Step.startsPlain) = true then
        some (.reaches (path.map Step.asRead), rest)
      else none := by
  simp only [readTest?, readSteps?_path ends.endsSteps]
  cases path.all Step.inBounds with
  | false => rfl
  | true =>
      obtain ⟨c, others, rfl, closing⟩ := ends
      by_cases names : path.all Step.startsPlain = true <;>
        rcases closing with rfl | rfl | rfl <;>
          simp [-List.mapM_map, -List.all_eq_true, sign, Step.mapM_written_step?, names]

theorem readConjunction?_single (test : readTest? fuel cs =
      if taken = true then some (condition, rest) else none)
    (last : ∀ more, skipSpaces rest ≠ '&' :: '&' :: more) :
    readConjunction? (fuel + 1) cs = if taken = true then some (condition, rest) else none := by
  cases taken with
  | false => simp [readConjunction?, test]
  | true => simp only [readConjunction?, test, if_true]

theorem readDisjunction?_single (conjunction : readConjunction? fuel cs =
      if taken = true then some (condition, rest) else none)
    (last : ∀ more, skipSpaces rest ≠ '|' :: '|' :: more) :
    readDisjunction? (fuel + 1) cs = if taken = true then some (condition, rest) else none := by
  cases taken with
  | false => simp [readDisjunction?, conjunction]
  | true => simp only [readDisjunction?, conjunction, if_true]

theorem readConjunction?_and (test : readTest? fuel cs =
      if taken = true then some (left, more) else none)
    (sign : skipSpaces more = '&' :: '&' :: next)
    (conjunction : readConjunction? fuel (skipSpaces next) =
      if others = true then some (right, rest) else none) :
    readConjunction? (fuel + 1) cs =
      if (taken && others) = true then some (.and left right, rest) else none := by
  cases taken <;> cases others <;> simp [readConjunction?, test, sign, conjunction]

theorem readDisjunction?_or (conjunction : readConjunction? fuel cs =
      if taken = true then some (left, more) else none)
    (sign : skipSpaces more = '|' :: '|' :: next)
    (disjunction : readDisjunction? fuel (skipSpaces next) =
      if others = true then some (right, rest) else none) :
    readDisjunction? (fuel + 1) cs =
      if (taken && others) = true then some (.or left right, rest) else none := by
  cases taken <;> cases others <;> simp [readDisjunction?, conjunction, sign, disjunction]

end Tests

end RecordPath
