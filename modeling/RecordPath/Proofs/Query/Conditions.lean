import RecordPath.Proofs.Query.Junctions
import RecordPath.Proofs.Query.Literals

namespace RecordPath

open Query Text

namespace Operand

def WellFormed : Operand → Prop
  | .literal value => value.IsLiteral
  | _ => True

def inBounds (record : RecordContext) : Operand → Bool
  | .path steps => steps.all Step.inBounds
  | .literal value => value.inBounds
  | .recordField field => decide (record.value field ≤ integerBound)

end Operand

namespace Predicate

def WellFormed : Predicate → Prop
  | .compare left _ right => left.WellFormed ∧ right.WellFormed
  | .present _ => True
  | .not inner => WellFormed inner
  | .and left right => WellFormed left ∧ WellFormed right
  | .or left right => WellFormed left ∧ WellFormed right
  | .quantified _ _ condition => WellFormed condition

def inBounds (record : RecordContext) : Predicate → Bool
  | .compare left _ right => left.inBounds record && right.inBounds record
  | .present path => path.all Step.inBounds
  | .not inner => inBounds record inner
  | .and left right => inBounds record left && inBounds record right
  | .or left right => inBounds record left && inBounds record right
  | .quantified _ path condition => path.all Step.inBounds && inBounds record condition

def startsPlain : Predicate → Bool
  | .compare _ _ _ => true
  | .present path => path.all Step.startsPlain
  | .not inner => startsPlain inner
  | .and left right => startsPlain left && startsPlain right
  | .or left right => startsPlain left && startsPlain right
  | .quantified _ path condition => path.all Step.startsPlain && startsPlain condition

def isTaken (record : RecordContext) (p : Predicate) : Bool :=
  p.inBounds record && p.startsPlain

section Taken

variable (record : RecordContext) (p q : Predicate) (path : Location)

theorem isTaken_compare (left : Operand) (op : Comparison) (right : Operand) :
    (Predicate.compare left op right).isTaken record =
      (left.inBounds record && right.inBounds record) :=
  Bool.and_true _

theorem isTaken_and :
    (Predicate.and p q).isTaken record = (p.isTaken record && q.isTaken record) := by
  simp only [isTaken, inBounds, startsPlain, Bool.and_assoc, Bool.and_left_comm]

theorem isTaken_or :
    (Predicate.or p q).isTaken record = (p.isTaken record && q.isTaken record) := by
  simp only [isTaken, inBounds, startsPlain, Bool.and_assoc, Bool.and_left_comm]

theorem isTaken_quantified (quantifier : Quantifier) :
    (Predicate.quantified quantifier path p).isTaken record =
      ((path.all Step.inBounds && path.all Step.startsPlain) && p.isTaken record) := by
  simp only [isTaken, inBounds, startsPlain, Bool.and_assoc, Bool.and_left_comm]

end Taken

end Predicate

namespace Json

variable {value : Json}

theorem head?_chars (literal : value.IsLiteral) (more : List Char) :
    ∃ c, (value.chars ++ more).head? = some c ∧ c ≠ '@' ∧ c ≠ '(' ∧ c ≠ '!' ∧ c ≠ ' ' := by
  cases value with
  | null => exact ⟨'n', rfl, by decide⟩
  | bool b =>
      cases b with
      | true => exact ⟨'t', rfl, by decide⟩
      | false => exact ⟨'f', rfl, by decide⟩
  | string s => exact ⟨'\x22', rfl, by decide⟩
  | number n =>
      obtain ⟨numeral, text, wellFormed, -⟩ := Number.exists_readAs literal
      obtain ⟨c, first, number⟩ := head?_text wellFormed more
      refine ⟨c, by rw [Json.chars, text, first], ?_, ?_, ?_, ?_⟩ <;>
      · rintro rfl
        revert number
        decide
  | array items => exact literal.elim
  | object members => exact literal.elim

end Json

section Operands

variable {record : RecordContext} {operand : Operand} {value : Json} {rest : List Char}

theorem Operand.path_or_value (record : RecordContext) (wellFormed : operand.WellFormed) :
    (∃ steps, operand = .path steps) ∨ ∃ value : Json, value.IsLiteral ∧
      operand.chars record = value.chars ∧ operand.comparable record = .literal value ∧
        operand.inBounds record = value.inBounds := by
  cases operand with
  | path steps => exact .inl ⟨steps, rfl⟩
  | literal value => exact .inr ⟨value, wellFormed, rfl, rfl, rfl⟩
  | recordField field =>
      refine .inr ⟨.nat (record.value field), trivial, ?_, rfl, ?_⟩
      · simp [Operand.chars, Json.nat, Json.chars, Number.text, Number.intText]
      · rw [Json.nat, Json.inBounds, Number.inBounds, Number.whole_natCast, Operand.inBounds]

theorem readComparable?_value (literal : value.IsLiteral) (more : List Char) :
    readComparable? (value.chars ++ more) =
      (readLiteral? (value.chars ++ more)).map fun (value, after) => (.literal value, after) := by
  obtain ⟨c, first, path, -⟩ := Json.head?_chars literal more
  unfold readComparable?
  split
  · rename_i hm
    rw [hm] at first
    exact absurd (Option.some.inj first).symm path
  · rfl

theorem readComparable?_chars (record : RecordContext) (wellFormed : operand.WellFormed)
    (ends : EndsOperand rest) :
    readComparable? (operand.chars record ++ rest) =
      if operand.inBounds record = true then some (operand.comparable record, rest) else none := by
  rcases Operand.path_or_value record wellFormed with
    ⟨steps, rfl⟩ | ⟨value, literal, text, compared, bounds⟩
  · rw [Operand.chars, Path.relative, List.cons_append, readComparable?,
      readSteps?_path ends.endsSteps]
    by_cases taken : steps.all Step.inBounds = true
    · simp [Operand.inBounds, Operand.comparable, taken, Step.asOperand]
    · simp [Operand.inBounds, taken]
  · rw [text, compared, bounds, readComparable?_value literal, readLiteral?_chars literal ends]
    by_cases taken : value.inBounds = true <;> simp [taken]

theorem Operand.head?_chars (wellFormed : operand.WellFormed) (more : List Char) :
    ∀ c ∈ (operand.chars record ++ more).head?, c ≠ ' ' := by
  rcases Operand.path_or_value record wellFormed with ⟨steps, rfl⟩ | ⟨value, literal, text, -⟩
  · rintro _ ⟨⟩
    decide
  · obtain ⟨c, first, -, -, -, blank⟩ := Json.head?_chars literal more
    rw [text, first]
    rintro _ ⟨⟩
    exact blank

end Operands

section Sides

variable {value : Json} {more next rest : List Char} {compared : Comparable} {fuel : Nat}
  {op : Comparison} {taken : Bool}

theorem readTest?_literal (literal : value.IsLiteral) (ends : EndsOperand more)
    (sign : readComparison? (skipSpaces more) = some (op, next))
    (side : readComparable? (skipSpaces next) =
      if taken = true then some (compared, rest) else none) :
    readTest? (fuel + 1) (value.chars ++ more) =
      if (value.inBounds && taken) = true then
        some (.compare (.literal value) op compared, rest)
      else none := by
  obtain ⟨c, first, path, group, not, -⟩ := Json.head?_chars literal more
  unfold readTest?
  split
  · rename_i hm
    rw [hm] at first
    exact absurd (Option.some.inj first).symm not
  · rename_i hm
    rw [hm] at first
    exact absurd (Option.some.inj first).symm group
  · rename_i hm
    rw [hm] at first
    exact absurd (Option.some.inj first).symm path
  · rw [readLiteral?_chars literal ends]
    cases value.inBounds <;> cases taken <;> simp [sign, side]

theorem readTest?_compare (record : RecordContext) {operand : Operand}
    (wellFormed : operand.WellFormed) (ends : EndsOperand more)
    (sign : readComparison? (skipSpaces more) = some (op, next))
    (side : readComparable? (skipSpaces next) =
      if taken = true then some (compared, rest) else none) :
    readTest? (fuel + 1) (operand.chars record ++ more) =
      if (operand.inBounds record && taken) = true then
        some (.compare (operand.comparable record) op compared, rest)
      else none := by
  rcases Operand.path_or_value record wellFormed with
    ⟨steps, rfl⟩ | ⟨value, literal, text, same, bounds⟩
  · exact readTest?_compared ends sign side
  · rw [text, same, bounds]
    exact readTest?_literal literal ends sign side

end Sides

namespace Predicate

variable {record : RecordContext} {p q : Predicate} {path : Location} {rest : List Char}
  {fuel : Nat} {c : Char}

/-- A test is read as the condition it was written for, if the query takes what is in it. Every
character is worth three steps of the reader. -/
def ReadsTest (record : RecordContext) (p : Predicate) : Prop :=
  ∀ fuel rest, EndsCondition rest → 3 * (p.chars record).length ≤ fuel →
    readTest? fuel (p.chars record ++ rest) =
      if p.isTaken record = true then some (p.condition record, rest) else none

theorem head?_chars (wellFormed : p.WellFormed) (more : List Char) :
    ∀ c ∈ (p.chars record ++ more).head?, c ≠ ' ' := by
  cases p with
  | compare left op right =>
      simp only [chars, List.append_assoc]
      exact Operand.head?_chars wellFormed.1 _
  | quantified quantifier path condition =>
      cases quantifier <;>
      · rintro _ ⟨⟩
        decide
  | _ =>
      rintro _ ⟨⟩
      decide

theorem ReadsTest.conjunction (reads : p.ReadsTest record) (fuel : Nat) (rest : List Char)
    (closing : c = ')' ∨ c = ']') (enough : 3 * (p.chars record).length ≤ fuel) :
    readConjunction? (fuel + 1) (p.chars record ++ c :: rest) =
      if p.isTaken record = true then some (p.condition record, c :: rest) else none :=
  readConjunction?_single (reads fuel _ (.closing rest closing) enough)
    (skipSpaces_closing_ne closing (.inl rfl))

theorem ReadsTest.disjunction (reads : p.ReadsTest record) (fuel : Nat) (rest : List Char)
    (closing : c = ')' ∨ c = ']') (enough : 3 * (p.chars record).length ≤ fuel) :
    readDisjunction? (fuel + 2) (p.chars record ++ c :: rest) =
      if p.isTaken record = true then some (p.condition record, c :: rest) else none :=
  readDisjunction?_single (reads.conjunction fuel rest closing enough)
    (skipSpaces_closing_ne closing (.inr rfl))

theorem readsTest_compare {left right : Operand} {op : Comparison} (hl : left.WellFormed)
    (hr : right.WellFormed) : (Predicate.compare left op right).ReadsTest record := by
  intro fuel rest ends enough
  have length := congrArg List.length (chars_compare_append record [] left op right)
  simp only [List.length_append, List.length_cons, List.length_nil] at length
  obtain ⟨fuel, rfl⟩ := Nat.exists_eq_add_of_le' (show 1 ≤ fuel by omega)
  have start : EndsOperand (' ' :: (op.symbol.toList ++ ' ' :: (right.chars record ++ rest))) :=
    ⟨' ', _, rfl, .inl rfl⟩
  have side := readComparable?_chars record hr ends.endsOperand
  rw [← skipSpaces_of_head? (@Operand.head?_chars record right hr rest)] at side
  rw [chars_compare_append, isTaken_compare]
  exact readTest?_compare record hl start (readComparison?_symbol op _) side

theorem readsTest_present (path : Location) : (Predicate.present path).ReadsTest record := by
  intro fuel rest ends enough
  have nonempty : (Predicate.present path).chars record ≠ [] := List.cons_ne_nil _ _
  have length := List.length_pos_of_ne_nil nonempty
  obtain ⟨fuel, rfl⟩ := Nat.exists_eq_add_of_le' (show 1 ≤ fuel by omega)
  exact readTest?_reaches ends.endsOperand ends.readComparison?

theorem readsTest_not (reads : p.ReadsTest record) : (Predicate.not p).ReadsTest record := by
  intro fuel rest ends enough
  have length := congrArg List.length (chars_not_append record p [])
  simp only [List.length_append, List.length_cons, List.length_nil] at length
  obtain ⟨fuel, rfl⟩ := Nat.exists_eq_add_of_le' (show 4 ≤ fuel by omega)
  have inner := reads.disjunction fuel rest (.inl rfl) (by omega)
  rw [chars_not_append]
  exact readTest?_not (readTest?_group inner)

theorem readsTest_any (reads : p.ReadsTest record) :
    (Predicate.quantified .any path p).ReadsTest record := by
  intro fuel rest ends enough
  have length := congrArg List.length (chars_any_append record p path [])
  simp only [List.length_append, List.length_cons, List.length_nil] at length
  obtain ⟨fuel, rfl⟩ := Nat.exists_eq_add_of_le' (show 3 ≤ fuel by omega)
  have inner := reads.disjunction fuel rest (.inr rfl) (by omega)
  rw [chars_any_append, isTaken_quantified]
  exact readTest?_filter inner

theorem readsTest_all (reads : p.ReadsTest record) :
    (Predicate.quantified .all path p).ReadsTest record := by
  intro fuel rest ends enough
  rw [chars_all, List.length_cons] at enough
  obtain ⟨fuel, rfl⟩ := Nat.exists_eq_add_of_le' (show 1 ≤ fuel by omega)
  rw [chars_all]
  exact readTest?_not (readsTest_any (readsTest_not reads) fuel rest ends (by omega))

theorem readsTest_and (left : p.ReadsTest record) (right : q.ReadsTest record)
    (wellFormed : q.WellFormed) : (Predicate.and p q).ReadsTest record := by
  intro fuel rest ends enough
  have length := congrArg List.length (chars_and_append record p q [])
  simp only [List.length_append, List.length_cons, List.length_nil] at length
  obtain ⟨fuel, rfl⟩ := Nat.exists_eq_add_of_le' (show 4 ≤ fuel by omega)
  have next := skipSpaces_of_head? (@head?_chars record q wellFormed (')' :: rest))
  have others := right.conjunction fuel rest (.inl rfl) (by omega)
  rw [← next] at others
  have first := left (fuel + 1) _ (.and (' ' :: (q.chars record ++ ')' :: rest))) (by omega)
  have both := readConjunction?_and first rfl others
  rw [chars_and_append, isTaken_and]
  exact readTest?_group (readDisjunction?_single both (skipSpaces_closing_ne (.inl rfl) (.inr rfl)))

theorem readsTest_or (left : p.ReadsTest record) (right : q.ReadsTest record)
    (wellFormed : q.WellFormed) : (Predicate.or p q).ReadsTest record := by
  intro fuel rest ends enough
  have length := congrArg List.length (chars_or_append record p q [])
  simp only [List.length_append, List.length_cons, List.length_nil] at length
  obtain ⟨fuel, rfl⟩ := Nat.exists_eq_add_of_le' (show 4 ≤ fuel by omega)
  have next := skipSpaces_of_head? (@head?_chars record q wellFormed (')' :: rest))
  have others := right.disjunction fuel rest (.inl rfl) (by omega)
  rw [← next] at others
  have first := left (fuel + 1) _ (.or (' ' :: (q.chars record ++ ')' :: rest))) (by omega)
  have single := readConjunction?_single first fun more hm => by cases hm
  rw [chars_or_append, isTaken_or]
  exact readTest?_group (readDisjunction?_or single rfl others)

theorem readsTest (record : RecordContext) (wellFormed : p.WellFormed) : p.ReadsTest record := by
  induction p with
  | compare left op right => exact readsTest_compare wellFormed.1 wellFormed.2
  | present path => exact readsTest_present path
  | not inner ih => exact readsTest_not (ih wellFormed)
  | and p q ihp ihq => exact readsTest_and (ihp wellFormed.1) (ihq wellFormed.2) wellFormed.2
  | or p q ihp ihq => exact readsTest_or (ihp wellFormed.1) (ihq wellFormed.2) wellFormed.2
  | quantified quantifier path condition ih =>
      cases quantifier with
      | any => exact readsTest_any (ih wellFormed)
      | all => exact readsTest_all (ih wellFormed)

def ReadsBack (record : RecordContext) (p : Predicate) : Prop :=
  ∀ rest, readCondition? ('(' :: (p.chars record ++ ')' :: ']' :: rest)) =
    if p.isTaken record = true then some (p.condition record, ']' :: rest) else none

theorem readsBack (record : RecordContext) (wellFormed : p.WellFormed) : p.ReadsBack record := by
  intro rest
  have inner := (readsTest record wellFormed).disjunction
    (3 * (p.chars record).length + (3 * rest.length + 7)) (']' :: rest) (.inl rfl) (by omega)
  have fuel : 3 * ('(' :: (p.chars record ++ ')' :: ']' :: rest)).length + 3 =
      3 * (p.chars record).length + (3 * rest.length + 7) + 2 + 1 + 2 := by
    simp only [List.length_cons, List.length_append]
    omega
  rw [readCondition?, fuel]
  apply readDisjunction?_single
  · exact readConjunction?_single (readTest?_group inner)
      (skipSpaces_closing_ne (.inr rfl) (.inl rfl))
  · exact skipSpaces_closing_ne (.inr rfl) (.inr rfl)

end Predicate

end RecordPath
