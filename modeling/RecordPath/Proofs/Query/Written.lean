import RecordPath.Proofs.Path.Spelling
import RecordPath.Query.Run

namespace RecordPath

open Query Text

namespace Step

def written : Step → WrittenStep
  | .key name => if Path.isBare name.toList then .bare name.toList else .quoted name.toList
  | .index i => .index i

def nameAsRead (name : String) : String :=
  if Path.isBare name.toList then String.ofList (trimEnd name.toList) else name

def asRead : Step → Step
  | .key name => .key (nameAsRead name)
  | .index i => .index i

def asOperand (step : Step) : Step :=
  step.written.operandStep

def inBounds : Step → Bool
  | .key _ => true
  | .index i => decide (i ≤ integerBound)

def startsPlain : Step → Bool
  | .key name => !(Path.isBare name.toList && WrittenStep.startsBlank name.toList)
  | .index _ => true

theorem written_step? (step : Step) :
    step.written.step? = if step.startsPlain = true then some step.asRead else none := by
  cases step with
  | key name =>
      cases bare : Path.isBare name.toList with
      | true =>
          cases blank : WrittenStep.startsBlank name.toList <;>
            simp [written, WrittenStep.step?, startsPlain, asRead, nameAsRead, bare, blank]
      | false => simp [written, WrittenStep.step?, startsPlain, asRead, nameAsRead, bare]
  | index i => rfl

theorem mapM_written_step? (steps : Location) :
    (steps.map written).mapM WrittenStep.step? =
      if steps.all startsPlain = true then some (steps.map asRead) else none := by
  induction steps with
  | nil => rfl
  | cons step steps ih =>
      rw [List.map_cons, List.mapM_cons, ih, written_step?, List.all_cons]
      cases step.startsPlain with
      | false => rfl
      | true => cases steps.all startsPlain <;> rfl

end Step

def EndsName (cs : List Char) : Prop :=
  ∀ c ∈ cs.head?, Path.isBareCharacter c = false

section Names

variable {name rest : List Char} {i : Nat}

theorem isBareCharacter_of_isBare (h : Path.isBare name = true) :
    ∀ c ∈ name, Path.isBareCharacter c = true := by
  cases name with
  | nil => cases h
  | cons c name =>
      rw [Path.isBare, Bool.and_eq_true, List.all_eq_true] at h
      intro d hd
      rcases List.mem_cons.1 hd with rfl | hd
      · simp [Path.isBareCharacter, h.1]
      · exact h.2 d hd

theorem readBare?_of_isBare (bare : Path.isBare name = true) (ends : EndsName rest) :
    readBare? (name ++ rest) = some (name, rest) := by
  have characters := isBareCharacter_of_isBare bare
  simp only [readBare?, takeWhile_word characters ends, dropWhile_word characters ends, bare,
    if_true]

theorem readBracketed?_quoted (name rest : List Char) :
    readBracketed? (quotedByNumber '\x27' name ++ ']' :: rest) = some (.quoted name, rest) := by
  have unquoted := unquote?_quotedByNumber false (.inl rfl) name (']' :: rest)
  have regroup : quotedByNumber '\x27' name ++ ']' :: rest =
      '\x27' :: (name.flatMap (escapeByNumber '\x27') ++ '\x27' :: ']' :: rest) := by
    simp [quotedByNumber]
  simp only [regroup, readBracketed?, unquoted]

theorem isDigit_natural (i : Nat) : ∀ c ∈ natural i, c.isDigit = true :=
  fun _ hc => Nat.isDigit_of_mem_toDigits (show 0 < 10 by decide) (by decide) hc

theorem eq_zero_of_natural {ds : List Char} (h : natural i = '0' :: ds) : i = 0 := by
  -- The digits in front of the last are those of a tenth of the number.
  induction i using Nat.strongRecOn generalizing ds with
  | ind i ih =>
      rw [natural, Nat.toDigits_eq_if (by decide)] at h
      split at h
      · rename_i digit
        have only : ∀ d < 10, Nat.digitChar d = '0' → d = 0 := by decide
        exact only i digit (List.cons.inj h).1
      · rename_i more
        have smaller : i / 10 < i := by omega
        cases hd : Nat.toDigits 10 (i / 10) with
        | nil => exact absurd hd Nat.toDigits_ne_nil
        | cons c cs =>
            rw [hd, List.cons_append] at h
            obtain rfl := (List.cons.inj h).1
            have unread := ih (i / 10) smaller hd
            omega

theorem isDigit_head?_natural (i : Nat) (more : List Char) :
    ∀ c ∈ (natural i ++ more).head?, c.isDigit = true := by
  cases hn : natural i with
  | nil => exact absurd hn Nat.toDigits_ne_nil
  | cons d digits =>
      rintro c ⟨⟩
      exact isDigit_natural i d (by rw [hn]; exact List.mem_cons_self)

theorem readBracketed?_natural (i : Nat) (rest : List Char) :
    readBracketed? (natural i ++ ']' :: rest) =
      if (Step.index i).inBounds = true then some (.index i, rest) else none := by
  have stop : ∀ c ∈ (']' :: rest).head?, c.isDigit = false := by
    rintro c ⟨⟩
    decide
  have taken := takeWhile_word (isDigit_natural i) stop
  have dropped := dropWhile_word (isDigit_natural i) stop
  unfold readBracketed?
  split
  · rename_i more hm
    have digit := isDigit_head?_natural i (']' :: rest)
    rw [hm] at digit
    cases digit '\x27' rfl
  · simp only [taken, dropped, integer?, natural?_natural, Option.filter_some, Step.inBounds]
    by_cases h : i ≤ integerBound <;> simp [h]

end Names

inductive EndsSteps : List Char → Prop
  | filter (rest : List Char) : EndsSteps ('[' :: '?' :: rest)
  | sign {c : Char} (rest : List Char) : c = ' ' ∨ c = ')' ∨ c = ']' → EndsSteps (c :: rest)

def EndsOperand (cs : List Char) : Prop :=
  ∃ c rest, cs = c :: rest ∧ (c = ' ' ∨ c = ')' ∨ c = ']')

section Steps

variable {steps : Location} {rest : List Char} {fuel : Nat}

theorem EndsOperand.endsSteps (h : EndsOperand rest) : EndsSteps rest := by
  obtain ⟨c, more, rfl, hc⟩ := h
  exact .sign more hc

theorem EndsSteps.endsName (h : EndsSteps rest) : EndsName rest := by
  cases h with
  | filter rest =>
      rintro c ⟨⟩
      decide
  | sign rest hc =>
      rintro c ⟨⟩
      rcases hc with rfl | rfl | rfl <;> decide

theorem EndsSteps.readSteps? (h : EndsSteps rest) (fuel : Nat) :
    Query.readSteps? (fuel + 1) rest = some ([], rest) := by
  cases h with
  | filter rest => rfl
  | sign rest hc => rcases hc with rfl | rfl | rfl <;> rfl

theorem endsName_flatMap (steps : Location) (h : EndsSteps rest) :
    EndsName (steps.flatMap Path.step ++ rest) := by
  cases steps with
  | nil => exact h.endsName
  | cons step steps =>
      cases step with
      | key name =>
          rw [List.flatMap_cons, Path.step]
          split <;>
          · rintro c ⟨⟩
            decide
      | index i =>
          rintro c ⟨⟩
          decide

theorem readSteps?_bracket {cs : List Char} (h : cs.head? ≠ some '?') :
    readSteps? (fuel + 1) ('[' :: cs) =
      match readBracketed? cs with
      | none => none
      | some (step, more) =>
          (readSteps? fuel more).map fun (steps, after) => (step :: steps, after) := by
  have plain : ∀ more, cs = '?' :: more → False := by
    rintro more rfl
    exact h rfl
  cases hb : readBracketed? cs <;> simp only [Query.readSteps?, hb]

theorem readSteps?_step (step : Step) (next : EndsName rest) :
    readSteps? (fuel + 1) (Path.step step ++ rest) =
      if step.inBounds = true then
        (readSteps? fuel rest).map fun (steps, after) => (step.written :: steps, after)
      else none := by
  cases step with
  | key name =>
      cases bare : Path.isBare name.toList with
      | true =>
          simp only [Path.step, bare, if_true, List.cons_append, Query.readSteps?,
            readBare?_of_isBare bare next, Step.written, Step.inBounds]
      | false =>
          simp only [Path.step, bare, Bool.false_eq_true, if_false, Path.bracketed,
            List.cons_append, List.append_assoc, List.nil_append, Step.written, Step.inBounds,
            if_true]
          rw [readSteps?_bracket (by rintro ⟨⟩), readBracketed?_quoted]
  | index i =>
      have plain : (natural i ++ ']' :: rest).head? ≠ some '?' := by
        intro filter
        cases isDigit_head?_natural i (']' :: rest) '?' filter
      simp only [Path.step, Path.bracketedIndex, List.cons_append, List.append_assoc,
        List.nil_append]
      rw [readSteps?_bracket plain, readBracketed?_natural]
      cases (Step.index i).inBounds <;> rfl

theorem readSteps?_flatMap (ends : EndsSteps rest) (enough : steps.length < fuel) :
    readSteps? fuel (steps.flatMap Path.step ++ rest) =
      if steps.all Step.inBounds = true then some (steps.map Step.written, rest) else none := by
  induction steps generalizing fuel with
  | nil =>
      obtain ⟨fuel, rfl⟩ := Nat.exists_eq_succ_of_ne_zero (Nat.ne_of_gt enough)
      exact ends.readSteps? fuel
  | cons step steps ih =>
      obtain ⟨fuel, rfl⟩ := Nat.exists_eq_succ_of_ne_zero (Nat.ne_of_gt (Nat.zero_lt_of_lt enough))
      rw [List.flatMap_cons, List.append_assoc,
        readSteps?_step step (endsName_flatMap steps ends), ih (Nat.lt_of_succ_lt_succ enough),
        List.all_cons]
      cases step.inBounds with
      | false => rfl
      | true => cases steps.all Step.inBounds <;> rfl

theorem length_le_flatMap_step (steps : Location) :
    steps.length ≤ (steps.flatMap Path.step).length := by
  induction steps with
  | nil => exact Nat.le_refl 0
  | cons step steps ih =>
      have positive : 0 < (Path.step step).length := by
        cases step with
        | key name =>
            rw [Path.step]
            split <;> exact Nat.succ_pos _
        | index i => exact Nat.succ_pos _
      rw [List.flatMap_cons, List.length_append, List.length_cons]
      omega

theorem readSteps?_path (ends : EndsSteps rest) :
    readSteps? ((steps.flatMap Path.step ++ rest).length + 1)
        (steps.flatMap Path.step ++ rest) =
      if steps.all Step.inBounds = true then some (steps.map Step.written, rest) else none := by
  apply readSteps?_flatMap ends
  have least := length_le_flatMap_step steps
  rw [List.length_append]
  omega

end Steps

namespace Operand

def comparable (record : RecordContext) : Operand → Comparable
  | .path steps => .path (steps.map Step.asOperand)
  | .literal value => .literal value
  | .recordField field => .literal (.nat (record.value field))

end Operand

namespace Predicate

def condition (record : RecordContext) : Predicate → Condition
  | .compare left op right => .compare (left.comparable record) op (right.comparable record)
  | .present path => .reaches (path.map Step.asRead)
  | .not inner => .not (condition record inner)
  | .and left right => .and (condition record left) (condition record right)
  | .or left right => .or (condition record left) (condition record right)
  | .quantified .any path inner => .selects (path.map Step.asRead) (condition record inner)
  | .quantified .all path inner =>
      .not (.selects (path.map Step.asRead) (.not (condition record inner)))

end Predicate

end RecordPath
