import RecordPath.Json.Printer
import RecordPath.Json.Numeral
import RecordPath.Proofs.Decimal.Nearest
import RecordPath.Proofs.Query.Written

namespace RecordPath

namespace Numeral

def fractionText : List Char → List Char
  | [] => []
  | ds => '.' :: ds

def exponentText : Option (Bool × List Char) → List Char
  | none => []
  | some (negative, ds) => 'e' :: (if negative then '-' else '+') :: ds

def text (n : Numeral) : List Char :=
  (if n.negative then ['-'] else []) ++
    (n.whole ++ (fractionText n.fraction ++ exponentText n.exponent))

structure WellFormed (n : Numeral) : Prop where
  whole_ne_nil : n.whole ≠ []
  whole : ∀ c ∈ n.whole, c.isDigit = true
  leading : ∀ ds, n.whole = '0' :: ds → ds = []
  fraction : ∀ c ∈ n.fraction, c.isDigit = true
  exponent : ∀ e ∈ n.exponent, e.2 ≠ [] ∧ ∀ c ∈ e.2, c.isDigit = true

def Ends (cs : List Char) : Prop :=
  ∀ c ∈ cs.head?, c.isDigit = false ∧ c ≠ '.' ∧ c ≠ 'e' ∧ c ≠ 'E'

section Read

variable {rest digits : List Char} {n : Numeral}

theorem readDigits?_digits (nonempty : digits ≠ []) (h : ∀ c ∈ digits, c.isDigit = true)
    (stop : ∀ c ∈ rest.head?, c.isDigit = false) :
    readDigits? (digits ++ rest) = .some (digits, rest) := by
  simp only [readDigits?, Text.takeWhile_word h stop, Text.dropWhile_word h stop]

theorem readWhole?_digits (nonempty : digits ≠ []) (h : ∀ c ∈ digits, c.isDigit = true)
    (leading : ∀ ds, digits = '0' :: ds → ds = [])
    (stop : ∀ c ∈ rest.head?, c.isDigit = false) :
    readWhole? (digits ++ rest) = .some (digits, rest) := by
  simp only [readWhole?, Text.takeWhile_word h stop, Text.dropWhile_word h stop]
  split
  · exact absurd rfl nonempty
  · cases leading _ rfl
  · rfl

theorem head?_exponentText (e : Option (Bool × List Char)) (ends : Ends rest) :
    ∀ c ∈ (exponentText e ++ rest).head?, c.isDigit = false ∧ c ≠ '.' := by
  intro c hc
  cases e with
  | none => exact ⟨(ends c hc).1, (ends c hc).2.1⟩
  | some e =>
      cases hc
      decide

theorem head?_fractionText (ds : List Char) (e : Option (Bool × List Char)) (ends : Ends rest) :
    ∀ c ∈ (fractionText ds ++ (exponentText e ++ rest)).head?, c.isDigit = false := by
  intro c hc
  cases ds with
  | nil => exact (head?_exponentText e ends c hc).1
  | cons d ds =>
      cases hc
      decide

theorem readFraction?_text {ds : List Char} {e : Option (Bool × List Char)}
    (h : ∀ c ∈ ds, c.isDigit = true) (ends : Ends rest) :
    readFraction? (fractionText ds ++ (exponentText e ++ rest)) =
      some (ds, exponentText e ++ rest) := by
  have stop := head?_exponentText e ends
  cases ds with
  | nil =>
      rw [fractionText, List.nil_append]
      unfold readFraction?
      split
      · rename_i more hm
        exact absurd rfl (stop '.' (by rw [hm]; rfl)).2
      · rfl
  | cons d ds => exact readDigits?_digits (List.cons_ne_nil d ds) h fun c hc => (stop c hc).1

theorem readExponent?_text {e : Option (Bool × List Char)}
    (h : ∀ x ∈ e, x.2 ≠ [] ∧ ∀ c ∈ x.2, c.isDigit = true) (ends : Ends rest) :
    readExponent? (exponentText e ++ rest) = some (e, rest) := by
  cases e with
  | none =>
      rw [exponentText, List.nil_append]
      unfold readExponent?
      split
      · rename_i c more
        obtain ⟨-, -, lower, upper⟩ := ends c rfl
        rw [if_neg (by simp [lower, upper])]
      · rfl
  | some e =>
      obtain ⟨negative, ds⟩ := e
      obtain ⟨nonempty, digits⟩ := h (negative, ds) rfl
      have read := readDigits?_digits nonempty digits fun c hc => (ends c hc).1
      cases negative <;> simp [exponentText, readExponent?, readSign, read]

theorem read?_text (wellFormed : n.WellFormed) (ends : Ends rest) :
    read? (n.text ++ rest) = some (n, rest) := by
  have whole := readWhole?_digits wellFormed.whole_ne_nil wellFormed.whole wellFormed.leading
    (head?_fractionText n.fraction n.exponent ends)
  have fraction := readFraction?_text (e := n.exponent) wellFormed.fraction ends
  have exponent := readExponent?_text wellFormed.exponent ends
  cases hn : n.negative with
  | true =>
      simp only [read?, text, hn, if_true, List.cons_append, List.nil_append, List.append_assoc,
        whole, fraction, exponent, Option.bind_eq_bind, Option.bind_some]
      rw [← hn]
  | false =>
      have digit : ∀ c ∈ (n.whole ++ (fractionText n.fraction ++ (exponentText n.exponent ++
          rest))).head?, c.isDigit = true := by
        cases hw : n.whole with
        | nil => exact absurd hw wellFormed.whole_ne_nil
        | cons d ds =>
            rintro c ⟨⟩
            exact wellFormed.whole d (by rw [hw]; exact List.mem_cons_self)
      simp only [text, hn, Bool.false_eq_true, if_false, List.nil_append, List.append_assoc]
      unfold read?
      split
      rename_i negative unsigned sign
      split at sign
      · rename_i more hm
        rw [hm] at digit
        cases digit '-' rfl
      · cases sign
        simp only [whole, fraction, exponent, Option.bind_eq_bind, Option.bind_some]
        rw [← hn]

end Read

end Numeral

namespace Layout

def plainNumeral (ds : List Char) : Int → Numeral
  | .ofNat e =>
      ⟨false, ds.take (e + 1) ++ List.replicate (e + 1 - ds.length) '0',
        if ds.drop (e + 1) = [] then ['0'] else ds.drop (e + 1), none⟩
  | .negSucc e => ⟨false, ['0'], List.replicate e '0' ++ ds, none⟩

def scientificNumeral (d : Char) (ds : List Char) : Int → Numeral
  | .ofNat e => ⟨false, [d], ds, some (false, Text.natural e)⟩
  | .negSucc e => ⟨false, [d], ds, some (true, Text.natural (e + 1))⟩

section Text

variable {ds : List Char} {d : Char}

theorem fractionText_ne_nil (nonempty : ds ≠ []) : Numeral.fractionText ds = '.' :: ds := by
  cases ds with
  | nil => exact absurd rfl nonempty
  | cons d ds => rfl

theorem plain_eq_text (nonempty : ds ≠ []) (leading : Int) :
    plain ds leading = (plainNumeral ds leading).text := by
  cases leading with
  | ofNat e =>
      have fraction : (if ds.drop (e + 1) = [] then ['0'] else ds.drop (e + 1)) ≠ [] := by
        split
        · exact List.cons_ne_nil _ _
        · assumption
      simp only [plain, plainNumeral, Numeral.text, fractionText_ne_nil fraction,
        Numeral.exponentText, Bool.false_eq_true, if_false, List.nil_append, List.append_nil,
        List.append_assoc]
  | negSucc e =>
      have fraction : List.replicate e '0' ++ ds ≠ [] := by simp [nonempty]
      simp only [plain, plainNumeral, Numeral.text, fractionText_ne_nil fraction,
        Numeral.exponentText, Bool.false_eq_true, if_false, List.nil_append, List.append_nil,
        List.cons_append]

theorem scientific_eq_text (d : Char) (ds : List Char) (leading : Int) :
    scientific (d :: ds) leading = (scientificNumeral d ds leading).text := by
  cases ds with
  | nil => cases leading <;> rfl
  | cons c ds =>
      cases leading <;>
        simp [scientific, scientificNumeral, Numeral.text, Numeral.fractionText,
          Numeral.exponentText]

theorem isDigit_replicate_zero (n : Nat) : ∀ c ∈ List.replicate n '0', c.isDigit = true := by
  intro c hc
  rw [List.eq_of_mem_replicate hc]
  rfl

theorem wellFormed_plainNumeral (h : ∀ c ∈ d :: ds, c.isDigit = true) (nonzero : d ≠ '0')
    (leading : Int) : (plainNumeral (d :: ds) leading).WellFormed := by
  have zeros := isDigit_replicate_zero
  cases leading with
  | ofNat e =>
      refine ⟨List.cons_ne_nil _ _, fun c hc => ?_, fun more hm => ?_, fun c hc => ?_, nofun⟩
      · rcases List.mem_append.1 hc with hc | hc
        · exact h c (List.mem_of_mem_take hc)
        · exact zeros _ c hc
      · exact absurd (List.cons.inj hm).1 nonzero
      · simp only [plainNumeral] at hc
        split at hc
        · rw [List.mem_singleton.1 hc]
          rfl
        · exact h c (List.mem_of_mem_drop hc)
  | negSucc e =>
      refine ⟨List.cons_ne_nil _ _, fun c hc => ?_, fun more hm => ?_, fun c hc => ?_, nofun⟩
      · rw [List.mem_singleton.1 hc]
        rfl
      · exact (List.cons.inj hm).2.symm
      · rcases List.mem_append.1 hc with hc | hc
        · exact zeros _ c hc
        · exact h c hc

theorem wellFormed_scientificNumeral (h : ∀ c ∈ d :: ds, c.isDigit = true) (leading : Int) :
    (scientificNumeral d ds leading).WellFormed := by
  have first : ∀ c ∈ [d], c.isDigit = true := fun c hc =>
    h c (List.mem_cons.2 (.inl (List.mem_singleton.1 hc)))
  have more : ∀ c ∈ ds, c.isDigit = true := fun c hc => h c (List.mem_cons_of_mem d hc)
  have single : ∀ cs, [d] = '0' :: cs → cs = [] := fun cs hc => (List.cons.inj hc).2.symm
  cases leading with
  | ofNat e =>
      refine ⟨List.cons_ne_nil _ _, first, single, more, ?_⟩
      rintro _ ⟨⟩
      exact ⟨Nat.toDigits_ne_nil, isDigit_natural e⟩
  | negSucc e =>
      refine ⟨List.cons_ne_nil _ _, first, single, more, ?_⟩
      rintro _ ⟨⟩
      exact ⟨Nat.toDigits_ne_nil, isDigit_natural (e + 1)⟩

theorem ofDigitChars_append_zeros (ds : List Char) (n : Nat) :
    Nat.ofDigitChars 10 (ds ++ List.replicate n '0') 0 = Nat.ofDigitChars 10 ds 0 * 10 ^ n := by
  rw [Nat.ofDigitChars_append, Nat.ofDigitChars_replicate_zero, Nat.mul_comm]

theorem ofDigitChars_zeros_append (ds : List Char) (n : Nat) :
    Nat.ofDigitChars 10 (List.replicate n '0' ++ ds) 0 = Nat.ofDigitChars 10 ds 0 := by
  rw [Nat.ofDigitChars_append, Nat.ofDigitChars_replicate_zero, Nat.mul_zero]

theorem value_plainNumeral (ds : List Char) (leading : Int) :
    (plainNumeral ds leading).decimal.value =
      Nat.ofDigitChars 10 ds 0 * (10 : ℚ) ^ (leading + 1 - ds.length) := by
  cases leading with
  | ofNat e =>
      rcases Nat.lt_or_ge (e + 1) ds.length with more | all
      · have rest : ds.drop (e + 1) ≠ [] := by simpa using more
        have missing : e + 1 - ds.length = 0 := by omega
        have exponent : (0 : Int) - (ds.drop (e + 1)).length = Int.ofNat e + 1 - ds.length := by
          rw [List.length_drop]
          simp only [Int.ofNat_eq_natCast]
          omega
        simp only [plainNumeral, Numeral.decimal, Numeral.exponentValue, Decimal.value, if_neg rest,
          missing, List.replicate_zero, List.append_nil, List.take_append_drop, exponent]
      · have exponent : Int.ofNat e + 1 - ds.length =
            ((e + 1 - ds.length + 1 : Nat) : Int) - 1 := by
          simp only [Int.ofNat_eq_natCast]
          omega
        have zeros : ds ++ List.replicate (e + 1 - ds.length) '0' ++ ['0'] =
            ds ++ List.replicate (e + 1 - ds.length + 1) '0' := by
          simp [List.replicate_succ']
        have one : (0 : Int) - (['0'].length : Nat) = -1 := rfl
        simp only [plainNumeral, Numeral.decimal, Numeral.exponentValue, Decimal.value,
          List.drop_eq_nil_of_le all, List.take_of_length_le all, if_true, zeros, exponent, one,
          ofDigitChars_append_zeros]
        rw [Int.sub_eq_add_neg, zpow_add₀ (by decide), zpow_natCast, ← mul_assoc]
        push_cast
        rfl
  | negSucc e =>
      have exponent : (0 : Int) - (List.replicate e '0' ++ ds).length =
          Int.negSucc e + 1 - ds.length := by
        simp only [List.length_append, List.length_replicate]
        omega
      have zeros : ['0'] ++ (List.replicate e '0' ++ ds) = List.replicate (e + 1) '0' ++ ds := rfl
      simp only [plainNumeral, Numeral.decimal, Numeral.exponentValue, Decimal.value, exponent,
        zeros, ofDigitChars_zeros_append]

theorem value_scientificNumeral (d : Char) (ds : List Char) (leading : Int) :
    (scientificNumeral d ds leading).decimal.value =
      Nat.ofDigitChars 10 (d :: ds) 0 * (10 : ℚ) ^ (leading + 1 - (d :: ds).length) := by
  have exponent : (scientificNumeral d ds leading).exponentValue = leading := by
    cases leading with
    | ofNat e => simp [scientificNumeral, Numeral.exponentValue, Text.natural]
    | negSucc e =>
        simp [scientificNumeral, Numeral.exponentValue, Text.natural, Int.negSucc_eq]
  have digits :
      (scientificNumeral d ds leading).whole ++ (scientificNumeral d ds leading).fraction =
      d :: ds := by
    cases leading <;> rfl
  have fraction : (scientificNumeral d ds leading).fraction = ds := by
    cases leading <;> rfl
  have scale : leading + 1 - (d :: ds).length = leading - ds.length := by
    rw [List.length_cons]
    omega
  rw [Decimal.value, Numeral.decimal, exponent, digits, fraction, scale]

theorem dropTrailingZeros_append (ds : List Char) :
    ∃ zeros, ds = dropTrailingZeros ds ++ List.replicate zeros '0' := by
  refine ⟨(ds.reverse.takeWhile (· == '0')).length, ?_⟩
  have all : ds.reverse.takeWhile (· == '0') =
      List.replicate (ds.reverse.takeWhile (· == '0')).length '0' :=
    List.eq_replicate_of_mem fun c hc => by
      simpa using List.all_eq_true.1 List.all_takeWhile c hc
  rw [dropTrailingZeros, ← List.reverse_inj, List.reverse_append, List.reverse_reverse,
    List.reverse_replicate, ← all, List.takeWhile_append_dropWhile]

theorem isDigit_dropTrailingZeros (h : ∀ c ∈ ds, c.isDigit = true) :
    ∀ c ∈ dropTrailingZeros ds, c.isDigit = true := by
  obtain ⟨zeros, all⟩ := dropTrailingZeros_append ds
  intro c hc
  refine h c ?_
  rw [all]
  exact List.mem_append_left _ hc

theorem value_dropTrailingZeros (d : Decimal) :
    Nat.ofDigitChars 10 (dropTrailingZeros (Text.natural d.digits)) 0 *
      (10 : ℚ) ^ (d.exponent + (Text.natural d.digits).length - 1 + 1 -
        (dropTrailingZeros (Text.natural d.digits)).length) = d.value := by
  obtain ⟨zeros, all⟩ := dropTrailingZeros_append (Text.natural d.digits)
  have significand : d.digits =
      Nat.ofDigitChars 10 (dropTrailingZeros (Text.natural d.digits)) 0 * 10 ^ zeros := by
    rw [← ofDigitChars_append_zeros, ← all]
    exact Nat.ofDigitChars_ten_toDigits.symm
  have length := congrArg List.length all
  rw [List.length_append, List.length_replicate] at length
  have scale : d.exponent + (Text.natural d.digits).length - 1 + 1 -
      (dropTrailingZeros (Text.natural d.digits)).length = (zeros : Int) + d.exponent := by
    omega
  calc Nat.ofDigitChars 10 (dropTrailingZeros (Text.natural d.digits)) 0 *
        (10 : ℚ) ^ (d.exponent + (Text.natural d.digits).length - 1 + 1 -
          (dropTrailingZeros (Text.natural d.digits)).length)
      = ((Nat.ofDigitChars 10 (dropTrailingZeros (Text.natural d.digits)) 0 * 10 ^ zeros : ℕ) : ℚ) *
          10 ^ d.exponent := by
        rw [scale, zpow_add₀ (by decide), zpow_natCast]
        push_cast
        ring
    _ = d.value := by rw [← significand, Decimal.value]

theorem exists_dropTrailingZeros {n : Nat} (nonzero : n ≠ 0) :
    ∃ d ds, dropTrailingZeros (Text.natural n) = d :: ds ∧ d ≠ '0' := by
  obtain ⟨zeros, all⟩ := dropTrailingZeros_append (Text.natural n)
  cases hd : dropTrailingZeros (Text.natural n) with
  | nil =>
      rw [hd] at all
      have value := ofDigitChars_append_zeros [] zeros
      rw [← all] at value
      exact absurd (Nat.ofDigitChars_ten_toDigits.symm.trans (value.trans (Nat.zero_mul _))) nonzero
  | cons d ds =>
      refine ⟨d, ds, rfl, ?_⟩
      rintro rfl
      rw [hd, List.cons_append] at all
      exact nonzero (eq_zero_of_natural all)

theorem isInteger_plainNumeral (nonempty : ds ≠ []) (leading : Int) :
    (plainNumeral ds leading).isInteger = false := by
  cases leading with
  | ofNat e =>
      simp only [plainNumeral, Numeral.isInteger]
      split <;> simp_all
  | negSucc e => simp [plainNumeral, Numeral.isInteger, nonempty]

theorem exists_numeral (layout : Layout) (d : Decimal) :
    ∃ n : Numeral, layout.decimal d = n.text ∧ n.WellFormed ∧ n.negative = false ∧
      n.isInteger = false ∧ n.decimal.value = d.value := by
  by_cases zero : d.digits = 0
  · have digit : ∀ c ∈ ['0'], c.isDigit = true := isDigit_replicate_zero 1
    have single : ∀ cs, ['0'] = '0' :: cs → cs = [] := fun cs hc => (List.cons.inj hc).2.symm
    refine ⟨⟨false, ['0'], ['0'], none⟩, ?_,
      ⟨List.cons_ne_nil _ _, digit, single, digit, nofun⟩, rfl, rfl, ?_⟩
    · rw [decimal, if_pos zero]
      rfl
    · have zeros : Nat.ofDigitChars 10 ['0', '0'] 0 = 0 := rfl
      simp [Decimal.value, Numeral.decimal, zero, zeros]
  · have digits := isDigit_dropTrailingZeros (isDigit_natural d.digits)
    have value := value_dropTrailingZeros d
    obtain ⟨c, cs, hd, nonzero⟩ := exists_dropTrailingZeros zero
    rw [hd] at digits value
    rw [decimal, if_neg zero]
    simp only [hd]
    split
    · exact ⟨_, plain_eq_text (List.cons_ne_nil c cs) _, wellFormed_plainNumeral digits nonzero _,
        by cases d.exponent + (Text.natural d.digits).length - 1 <;> rfl,
        isInteger_plainNumeral (List.cons_ne_nil c cs) _, (value_plainNumeral _ _).trans value⟩
    · exact ⟨_, scientific_eq_text c cs _, wellFormed_scientificNumeral digits _,
        by cases d.exponent + (Text.natural d.digits).length - 1 <;> rfl,
        by cases d.exponent + (Text.natural d.digits).length - 1 <;>
          simp [scientificNumeral, Numeral.isInteger],
        (value_scientificNumeral c cs _).trans value⟩

end Text

end Layout

end RecordPath
