import RecordPath.Proofs.Decimal.Doubles
import RecordPath.Proofs.Json.Numerals

namespace RecordPath

open Query Text

namespace Number

def Finite : Number → Prop
  | .int _ => True
  | .float x => x.isFinite = true

def whole (n : Number) : Nat :=
  Nat.ofDigitChars 10 ((n.text.dropWhile (· = '-')).takeWhile Char.isDigit) 0

def inBounds (n : Number) : Bool :=
  decide (n.whole ≤ integerBound)

def ReadAs (n : Number) (numeral : Numeral) : Prop :=
  n.text = numeral.text ∧ numeral.WellFormed ∧
    Query.number? numeral = if n.inBounds = true then some n else none

variable {n : Number} {numeral : Numeral}

theorem whole_of_text (text : n.text = numeral.text) (wellFormed : numeral.WellFormed) :
    n.whole = numeral.wholeValue := by
  have ends : Numeral.Ends [] := by rintro c ⟨⟩
  have stop := Numeral.head?_fractionText numeral.fraction numeral.exponent ends
  have digits := takeWhile_word wellFormed.whole stop
  rw [List.append_nil] at digits
  have unsigned : n.text.dropWhile (· = '-') = numeral.whole ++
      (Numeral.fractionText numeral.fraction ++ Numeral.exponentText numeral.exponent) := by
    cases hw : numeral.whole with
    | nil => exact absurd hw wellFormed.whole_ne_nil
    | cons d ds =>
        have digit := wellFormed.whole d (by rw [hw]; exact List.mem_cons_self)
        have plain : ¬ d = '-' := by
          rintro rfl
          cases digit
        rw [text, Numeral.text, hw]
        cases numeral.negative <;> simp [plain]
  rw [whole, unsigned, digits, Numeral.wholeValue]

theorem readAs_of_value (text : n.text = numeral.text) (wellFormed : numeral.WellFormed)
    (value : (if numeral.isInteger = true then
        .int (if numeral.negative = true then -numeral.wholeValue else numeral.wholeValue)
      else .float numeral.nearest) = n) : n.ReadAs numeral := by
  refine ⟨text, wellFormed, ?_⟩
  rw [inBounds, whole_of_text text wellFormed, Query.number?, ← value]
  by_cases bound : numeral.wholeValue ≤ integerBound
  · rw [if_pos bound, if_pos (decide_eq_true bound)]
    split <;> rfl
  · rw [if_neg bound, if_neg (by simpa using bound)]

theorem wellFormed_natural (negative : Bool) (n : Nat) :
    (⟨negative, natural n, [], none⟩ : Numeral).WellFormed where
  whole_ne_nil := Nat.toDigits_ne_nil
  whole := isDigit_natural n
  leading ds h := by
    obtain rfl := eq_zero_of_natural h
    exact (List.cons.inj h).2.symm
  fraction c hc := by cases hc
  exponent e he := by cases he

theorem whole_natCast (n : Nat) : (Number.int n).whole = n := by
  have text : (Number.int n).text = (⟨false, natural n, [], none⟩ : Numeral).text := by
    simp [Number.text, intText, Numeral.text, Numeral.fractionText, Numeral.exponentText]
  rw [whole_of_text text (wellFormed_natural false n)]
  exact Nat.ofDigitChars_ten_toDigits

theorem readAs_int (i : Int) : ∃ numeral, (Number.int i).ReadAs numeral := by
  have value (n : Nat) : Nat.ofDigitChars 10 (natural n) 0 = n := Nat.ofDigitChars_ten_toDigits
  cases i with
  | ofNat n =>
      refine ⟨⟨false, natural n, [], none⟩, readAs_of_value ?_ (wellFormed_natural false n) ?_⟩
      · simp [text, intText, Numeral.text, Numeral.fractionText, Numeral.exponentText]
      · simp [Numeral.isInteger, Numeral.wholeValue, value]
  | negSucc n =>
      refine ⟨⟨true, natural (n + 1), [], none⟩,
        readAs_of_value ?_ (wellFormed_natural true (n + 1)) ?_⟩
      · simp [text, intText, Numeral.text, Numeral.fractionText, Numeral.exponentText]
      · simp [Numeral.isInteger, Numeral.wholeValue, value, Int.negSucc_eq]

theorem readAs_float {x : Float} (finite : x.isFinite = true) :
    ∃ numeral, (Number.float x).ReadAs numeral := by
  have bound := Double.magnitude_lt_infinite finite
  obtain ⟨n, text, wellFormed, positive, fraction, value⟩ :=
    layout.exists_numeral
      (Decimal.shortest .double (x.toBits.toNat % BinaryFormat.double.signBit))
  have magnitude : n.decimal.magnitude .double = x.toBits.toNat % BinaryFormat.double.signBit := by
    rw [Decimal.magnitude_congr .double value, Decimal.magnitude_shortest bound]
  let signed : Numeral :=
    ⟨decide (BinaryFormat.double.signBit ≤ x.toBits.toNat), n.whole, n.fraction, n.exponent⟩
  have same : signed.WellFormed := ⟨wellFormed.whole_ne_nil, wellFormed.whole, wellFormed.leading,
    wellFormed.fraction, wellFormed.exponent⟩
  refine ⟨signed, readAs_of_value ?_ same ?_⟩
  · have unsigned : n.text = n.whole ++ (Numeral.fractionText n.fraction ++
        Numeral.exponentText n.exponent) := by
      simp [Numeral.text, positive]
    simp only [Number.text, floatText, floatText?, Layout.bits?, if_pos bound, Option.getD_some,
      text, unsigned]
    by_cases plain : x.toBits.toNat < BinaryFormat.double.signBit
    · rw [if_pos plain]
      simp [signed, Numeral.text, plain]
    · rw [if_neg plain]
      simp [signed, Numeral.text, Nat.not_lt.1 plain]
  · have point : signed.isInteger = false := fraction
    have digits : signed.decimal = n.decimal := rfl
    rw [point, if_neg Bool.false_ne_true, Numeral.nearest, digits, magnitude]
    exact congrArg _ (Double.signed_magnitude x)

theorem exists_readAs {n : Number} (finite : n.Finite) : ∃ numeral, n.ReadAs numeral := by
  cases n with
  | int i => exact readAs_int i
  | float x => exact readAs_float finite

end Number

namespace Json

def inBounds : Json → Bool
  | .number n => n.inBounds
  | _ => true

def IsLiteral : Json → Prop
  | .array _ | .object _ => False
  | .number n => n.Finite
  | _ => True

end Json

section Read

variable {value : Json} {cs rest : List Char} {n : Numeral} {c : Char}

theorem head?_text (wellFormed : n.WellFormed) (more : List Char) :
    ∃ c, (n.text ++ more).head? = some c ∧ (c = '-' ∨ c.isDigit = true) := by
  cases hw : n.whole with
  | nil => exact absurd hw wellFormed.whole_ne_nil
  | cons d ds =>
      cases hn : n.negative with
      | true => exact ⟨'-', by simp [Numeral.text, hn], .inl rfl⟩
      | false =>
          refine ⟨d, by simp [Numeral.text, hn, hw], .inr (wellFormed.whole d ?_)⟩
          rw [hw]
          exact List.mem_cons_self

theorem readLiteral?_number (first : cs.head? = some c) (number : c = '-' ∨ c.isDigit = true) :
    readLiteral? cs =
      match Numeral.read? cs with
      | some (n, after) => (Query.number? n).map fun value => (.number value, after)
      | none => none := by
  have other : ∀ d ∈ ['\x22', 't', 'f', 'n'], d ≠ c := by
    rintro d hd rfl
    simp only [List.mem_cons, List.not_mem_nil, or_false] at hd
    rcases hd with rfl | rfl | rfl | rfl <;> revert number <;> decide
  unfold readLiteral?
  split
  · exact absurd (Option.some.inj first) (other '\x22' (by simp))
  · exact absurd (Option.some.inj first) (other 't' (by simp))
  · exact absurd (Option.some.inj first) (other 'f' (by simp))
  · exact absurd (Option.some.inj first) (other 'n' (by simp))
  · rfl

theorem EndsOperand.ends (h : EndsOperand rest) : Numeral.Ends rest := by
  obtain ⟨c, more, rfl, hc⟩ := h
  rintro _ ⟨⟩
  rcases hc with rfl | rfl | rfl <;> decide

theorem readLiteral?_chars (literal : value.IsLiteral) (ends : EndsOperand rest) :
    readLiteral? (value.chars ++ rest) =
      if value.inBounds = true then some (value, rest) else none := by
  cases value with
  | null => rfl
  | bool b => cases b <;> rfl
  | string s =>
      have unquoted := unquote?_quoted false (.inr rfl) s.toList rest
      have regroup : Json.chars (.string s) ++ rest =
          '\x22' :: (s.toList.flatMap (escape '\x22') ++ '\x22' :: rest) := by
        simp [Json.chars, Json.stringText, quoted]
      simp only [regroup, readLiteral?, unquoted, Option.map_some, String.ofList_toList]
      rfl
  | number n =>
      obtain ⟨numeral, text, wellFormed, read⟩ := Number.exists_readAs literal
      obtain ⟨c, first, number⟩ := head?_text wellFormed rest
      rw [Json.chars, text, readLiteral?_number first number,
        Numeral.read?_text wellFormed ends.ends]
      by_cases taken : n.inBounds = true <;> simp [read, Json.inBounds, taken]
  | array items => exact literal.elim
  | object members => exact literal.elim

end Read

end RecordPath
