import Mathlib.Data.List.DropRight
import RecordPath.Proofs.Filter.Parentheses

namespace RecordPath

namespace Text

section Blank

variable {b c : Char} {ranges others : List (Nat × Nat)}

theorem within_disjoint
    (apart : ranges.all (fun r => others.all fun s => r.2 < s.1 || s.2 < r.1) = true)
    (h : within ranges c = true) : within others c = false := by
  refine Bool.eq_false_iff.2 fun h' => ?_
  obtain ⟨r, hr, low, high⟩ := within_iff.1 h
  obtain ⟨s, hs, low', high'⟩ := within_iff.1 h'
  have := List.all_eq_true.1 (List.all_eq_true.1 apart r hr) s hs
  simp only [Bool.or_eq_true, decide_eq_true_eq] at this
  omega

theorem toNat_of_isAlphanum (h : c.isAlphanum = true) : 0x30 ≤ c.toNat ∧ c.toNat ≤ 0x7a := by
  have classes : (decide ('A'.val ≤ c.val ∧ c.val ≤ 'Z'.val) ||
      (decide ('a'.val ≤ c.val) && decide (c.val ≤ 'z'.val)) ||
      (decide ('0'.val ≤ c.val) && decide (c.val ≤ '9'.val))) = true := h
  simp only [Bool.or_eq_true, Bool.and_eq_true, decide_eq_true_eq, UInt32.le_iff_toNat_le]
    at classes
  change ((65 ≤ c.toNat ∧ c.toNat ≤ 90) ∨ (97 ≤ c.toNat ∧ c.toNat ≤ 122)) ∨
    (48 ≤ c.toNat ∧ c.toNat ≤ 57) at classes
  omega

theorem isAlphanum_of_isBlank (h : isBlank b = true) : b.isAlphanum = false := by
  refine Bool.eq_false_iff.2 fun letter => ?_
  have low := toNat_of_isAlphanum letter
  have : within [(0x30, 0x7a)] b = true := by simpa [within] using low
  rw [within_disjoint (by decide) h] at this
  cases this

theorem isAlphanumeric_of_isBlank (h : isBlank b = true) : isAlphanumeric b = false := by
  have ascii := isAlphanum_of_isBlank h
  have letters : within alphabeticRanges b = false := within_disjoint (by decide +kernel) h
  have numbers : within numericRanges b = false := within_disjoint (by decide +kernel) h
  rw [Char.isAlphanum, Bool.or_eq_false_iff] at ascii
  simp [isAlphanumeric, isAlphabetic, isNumeric, ascii, letters, numbers]

theorem ne_of_isBlank (h : isBlank b = true) (inked : isBlank c = false) : b ≠ c := by
  rintro rfl
  rw [h] at inked
  cases inked

end Blank

section Concat

variable {p : Char → Bool} {b : Char}

theorem takeWhile_concat (h : p b = false) (cs : List Char) :
    (cs ++ [b]).takeWhile p = cs.takeWhile p := by
  induction cs with
  | nil => simp [h]
  | cons c cs ih => simp [List.takeWhile_cons, ih]

theorem dropWhile_concat (h : p b = false) (cs : List Char) :
    (cs ++ [b]).dropWhile p = cs.dropWhile p ++ [b] := by
  induction cs with
  | nil => simp [h]
  | cons c cs ih =>
      simp only [List.cons_append, List.dropWhile_cons, ih]
      split <;> rfl

theorem trimStart_concat {c : Char} {cs rest : List Char}
    (h : trimStart (cs ++ [b]) = c :: rest) (inked : b ≠ c) :
    ∃ more, rest = more ++ [b] ∧ trimStart cs = c :: more := by
  induction cs with
  | nil =>
      simp only [trimStart, List.nil_append, List.dropWhile_cons] at h
      split at h
      · cases h
      · cases h
        exact absurd rfl inked
  | cons d cs ih =>
      simp only [trimStart, List.cons_append, List.dropWhile_cons] at h ⊢
      split at h
      · rename_i blank
        rw [if_pos blank]
        exact ih h
      · rename_i blank
        cases h
        exact ⟨cs, rfl, if_neg blank⟩

end Concat

end Text

namespace Lexeme

open Text

def Leaves {α : Type} (b : Char) (read : List Char → Except FilterFault (α × List Char)) : Prop :=
  ∀ cs x after, read (cs ++ [b]) = .ok (x, after) →
    ∃ rest, after = rest ++ [b] ∧ read cs = .ok (x, rest)

section Leaves

variable {b : Char}

theorem isQuote_of_isBlank (h : isBlank b = true) : isQuote b = false := by
  have single := ne_of_isBlank (c := '\x27') h (by decide)
  have double := ne_of_isBlank (c := '\x22') h (by decide)
  simp [isQuote, single, double]

theorem isWordCharacter_of_isBlank (h : isBlank b = true) : isWordCharacter b = false := by
  have line := ne_of_isBlank (c := '_') h (by decide)
  simp [isWordCharacter, isAlphanum_of_isBlank h, line]

theorem isFieldCharacter_of_isBlank (h : isBlank b = true) : isFieldCharacter b = false := by
  have line := ne_of_isBlank (c := '_') h (by decide)
  have dash := ne_of_isBlank (c := '-') h (by decide)
  simp [isFieldCharacter, isAlphanumeric_of_isBlank h, line, dash]

theorem isDigit_of_isBlank (h : isBlank b = true) : b.isDigit = false := by
  have := isAlphanum_of_isBlank h
  rw [Char.isAlphanum, Bool.or_eq_false_iff] at this
  exact this.2

theorem isNumberCharacter_of_isBlank (h : isBlank b = true) : isNumberCharacter b = false := by
  have ne {c : Char} (inked : isBlank c = false) : b ≠ c := ne_of_isBlank h inked
  simp [isNumberCharacter, isDigit_of_isBlank h, @ne '.' (by decide), @ne 'e' (by decide),
    @ne 'E' (by decide), @ne '+' (by decide), @ne '-' (by decide)]

theorem string_cons {quote c : Char} (plain : c ≠ '\\') (rest : List Char) :
    string quote (c :: rest) =
      if c = quote then .ok ([], rest)
      else (string quote rest).map fun (text, after) => (c :: text, after) := by
  rw [string.eq_def]
  split
  · rename_i hc
    cases hc
  · rename_i hc
    cases hc
    exact absurd rfl plain
  · rename_i hc
    cases hc
    exact absurd rfl plain
  · rename_i hc
    cases hc
    rfl

theorem leaves_string (h : isBlank b = true) {quote : Char} (isQuote : isQuote quote = true) :
    Leaves b (string quote) := by
  have other : b ≠ quote := by
    rintro rfl
    rw [isQuote_of_isBlank h] at isQuote
    cases isQuote
  have slash : b ≠ '\\' := ne_of_isBlank h (by decide)
  intro cs text after read
  fun_induction string quote cs generalizing text after with
  | case1 =>
      rw [List.nil_append, string_cons slash, if_neg other] at read
      cases read
  | case2 => cases read
  | case3 e rest ih =>
      obtain ⟨⟨text, _⟩, hs, he⟩ := map_eq_ok_iff.1 read
      cases he
      obtain ⟨more, rfl, inner⟩ := ih _ _ hs
      exact ⟨more, rfl, by rw [inner]; rfl⟩
  | case4 rest last escape =>
      have plain : quote ≠ '\\' := by
        rintro rfl
        cases isQuote
      rw [List.cons_append, string_cons plain, if_pos rfl] at read
      cases read
      exact ⟨rest, rfl, rfl⟩
  | case5 c rest last escape notQuote ih =>
      have plain : c ≠ '\\' := by
        rintro rfl
        cases rest with
        | nil => exact last rfl rfl
        | cons d more => exact escape d more rfl rfl
      rw [List.cons_append, string_cons plain, if_neg notQuote] at read
      obtain ⟨⟨text, _⟩, hs, he⟩ := map_eq_ok_iff.1 read
      cases he
      obtain ⟨more, rfl, inner⟩ := ih _ _ hs
      exact ⟨more, rfl, by rw [inner]; rfl⟩

theorem leaves_bracketedIndex (h : isBlank b = true) : Leaves b bracketedIndex := by
  intro cs i after read
  obtain ⟨digits, whole, hi⟩ := bracketedIndex_cases read
  rcases List.eq_nil_or_concat after with rfl | ⟨more, d, rfl⟩
  · have last := List.append_inj_right' whole rfl
    cases last
    cases h
  · have regroup : digits ++ ']' :: (more ++ [d]) = (digits ++ ']' :: more) ++ [d] := by simp
    rw [List.concat_eq_append, regroup] at whole
    obtain ⟨rfl, last⟩ := List.append_inj' whole rfl
    cases last
    exact ⟨more, List.concat_eq_append, bracketedIndex_index hi⟩

theorem leaves_bracketedName (h : isBlank b = true) {quote : Char}
    (isQuote : isQuote quote = true) :
    Leaves b (bracketedName quote) := by
  intro cs name after read
  simp only [bracketedName] at read
  split at read
  · cases read
  · rename_i text rest hs
    cases read
    obtain ⟨more, hm, inner⟩ := leaves_string h isQuote cs text _ hs
    cases more with
    | nil =>
        cases hm
        cases h
    | cons d more =>
        cases hm
        exact ⟨more, rfl, by simp only [bracketedName, inner]⟩
  · cases read

theorem leaves_bracketedStep (h : isBlank b = true) : Leaves b bracketedStep := by
  intro cs step after read
  cases cs with
  | nil =>
      simp only [List.nil_append, bracketedStep, isQuote_of_isBlank h, Bool.false_eq_true,
        if_false] at read
      obtain ⟨⟨i, _⟩, hi, he⟩ := map_eq_ok_iff.1 read
      obtain ⟨more, -, inner⟩ := leaves_bracketedIndex h [] i _ hi
      cases inner
  | cons c cs =>
      simp only [List.cons_append, bracketedStep] at read ⊢
      split at read
      · rename_i isQuote
        obtain ⟨⟨name, _⟩, hn, he⟩ := map_eq_ok_iff.1 read
        cases he
        obtain ⟨more, rfl, inner⟩ := leaves_bracketedName h isQuote cs name _ hn
        exact ⟨more, rfl, by rw [if_pos isQuote, inner]; rfl⟩
      · rename_i notQuote
        obtain ⟨⟨i, _⟩, hi, he⟩ := map_eq_ok_iff.1 read
        cases he
        obtain ⟨more, rfl, inner⟩ := leaves_bracketedIndex h (c :: cs) i _ hi
        exact ⟨more, rfl, by rw [if_neg notQuote, inner]; rfl⟩

theorem leaves_steps (h : isBlank b = true) : Leaves b steps := by
  have dot : b ≠ '.' := ne_of_isBlank h (by decide)
  have opening : b ≠ '[' := ne_of_isBlank h (by decide)
  have field := isFieldCharacter_of_isBlank h
  intro cs path after read
  fun_induction steps cs generalizing path after with
  | case1 =>
      rw [List.nil_append, steps, if_neg dot, if_neg opening] at read
      cases read
      exact ⟨[], rfl, rfl⟩
  | case2 rest hn =>
      rw [List.cons_append, steps, if_pos rfl, takeWhile_concat field, hn] at read
      cases read
  | case3 rest hn ih =>
      rw [List.cons_append, steps, if_pos rfl, takeWhile_concat field,
        dropWhile_concat field] at read
      split at read
      · rename_i empty
        exact absurd empty hn
      · obtain ⟨⟨path, _⟩, hp, he⟩ := map_eq_ok_iff.1 read
        cases he
        obtain ⟨more, rfl, inner⟩ := ih _ _ hp
        exact ⟨more, rfl, by rw [inner]; rfl⟩
  | case4 rest fault hb _ =>
      rw [List.cons_append, steps, if_neg (by decide), if_pos rfl] at read
      split at read
      · cases read
      · rename_i hs
        obtain ⟨more, -, inner⟩ := leaves_bracketedStep h rest _ _ hs
        rw [inner] at hb
        cases hb
  | case5 rest step more hb _ ih =>
      rw [List.cons_append, steps, if_neg (by decide), if_pos rfl] at read
      split at read
      · cases read
      · rename_i hs
        obtain ⟨_, rfl, inner⟩ := leaves_bracketedStep h rest _ _ hs
        rw [inner] at hb
        cases hb
        obtain ⟨⟨path, _⟩, hp, he⟩ := map_eq_ok_iff.1 read
        cases he
        obtain ⟨last, rfl, inner⟩ := ih _ _ hp
        exact ⟨last, rfl, by rw [inner]; rfl⟩
  | case6 c rest plain notOpening =>
      rw [List.cons_append, steps, if_neg plain, if_neg notOpening] at read
      cases read
      exact ⟨c :: rest, rfl, rfl⟩

theorem leaves_number (h : isBlank b = true) (c : Char) : Leaves b (number c) := by
  have digit := isNumberCharacter_of_isBlank h
  intro rest lexeme after read
  cases hn : (Numeral.ofText? (c :: rest.takeWhile isNumberCharacter)).bind Numeral.number? with
  | none =>
      simp only [number, takeWhile_concat digit, hn] at read
      cases read
  | some n =>
      simp only [number, takeWhile_concat digit, dropWhile_concat digit, hn] at read
      cases read
      exact ⟨_, rfl, by simp only [number, hn]⟩

theorem leaves_word (h : isBlank b = true) (name : String) : Leaves b (word name) := by
  intro rest lexeme after read
  unfold word at read ⊢
  split at read
  · cases read
    exact ⟨rest, rfl, rfl⟩
  · cases read
    exact ⟨rest, rfl, rfl⟩
  · cases read
    exact ⟨rest, rfl, rfl⟩
  · split at read
    · rename_i inner hi
      obtain ⟨more, rfl, opening⟩ := trimStart_concat hi (ne_of_isBlank h (by decide))
      simp only [opening]
      split at read
      · cases read
        exact ⟨more, rfl, rfl⟩
      · cases read
        exact ⟨more, rfl, rfl⟩
      · split at read
        · cases read
        · split at read
          · rename_i hc
            obtain ⟨last, rfl, closing⟩ := trimStart_concat hc (ne_of_isBlank h (by decide))
            cases read
            exact ⟨last, rfl, by simp only [closing]⟩
          · cases read
    · cases read

theorem concat_eq_cons {c : Char} {rest more : List Char} (h : rest ++ [b] = c :: more)
    (other : b ≠ c) : ∃ last, more = last ++ [b] ∧ rest = c :: last := by
  cases rest with
  | nil =>
      cases h
      exact absurd rfl other
  | cons d rest =>
      cases h
      exact ⟨rest, rfl, rfl⟩

def unmarked (c : Char) (rest : List Char) : Except FilterFault (Lexeme × List Char) :=
  if isQuote c then
    (string c rest).map fun (text, after) =>
      (.operand (.literal (.string (String.ofList text))), after)
  else if startsNumber c rest then number c rest
  else if c.isAlpha || c = '_' then
    word (String.ofList (c :: rest.takeWhile isWordCharacter)) (rest.dropWhile isWordCharacter)
  else .error (.unexpectedCharacter c)

theorem startsNumber_concat (h : isBlank b = true) (c : Char) (rest : List Char) :
    startsNumber c (rest ++ [b]) = startsNumber c rest := by
  cases rest with
  | nil => simp [startsNumber, isDigit_of_isBlank h]
  | cons d rest => rfl

theorem leaves_unmarked (h : isBlank b = true) (c : Char) : Leaves b (unmarked c) := by
  have ink := isWordCharacter_of_isBlank h
  intro rest lexeme after read
  simp only [unmarked, startsNumber_concat h, takeWhile_concat ink, dropWhile_concat ink]
    at read ⊢
  split at read
  · rename_i isQuote
    obtain ⟨⟨text, _⟩, hs, he⟩ := map_eq_ok_iff.1 read
    cases he
    obtain ⟨more, rfl, inner⟩ := leaves_string h isQuote rest text _ hs
    exact ⟨more, rfl, by rw [if_pos isQuote, inner]; rfl⟩
  · rename_i notQuote
    rw [if_neg notQuote]
    split at read
    · rename_i starts
      rw [if_pos starts]
      exact leaves_number h c rest lexeme after read
    · rename_i noNumber
      rw [if_neg noNumber]
      split at read
      · rename_i letter
        rw [if_pos letter]
        exact leaves_word h _ _ lexeme after read
      · cases read

theorem leaves_next (h : isBlank b = true) (c : Char) : Leaves b (next c) := by
  intro rest lexeme after read
  unfold next at read
  split at read
  case h_13 =>
    obtain ⟨⟨path, _⟩, hp, he⟩ := map_eq_ok_iff.1 read
    cases he
    obtain ⟨more, rfl, inner⟩ := leaves_steps h rest path _ hp
    exact ⟨more, rfl, by rw [next, inner]; rfl⟩
  case h_14 =>
    obtain ⟨more, rfl, inner⟩ := leaves_unmarked h _ rest lexeme after read
    refine ⟨more, rfl, ?_⟩
    rw [next]
    · exact inner
    -- The signs of two characters are not there either, without the blank.
    all_goals grind
  case h_1 | h_2 | h_3 =>
    cases read
    exact ⟨rest, rfl, rfl⟩
  case h_8 | h_10 | h_12 =>
    rename_i single
    cases read
    refine ⟨rest, rfl, ?_⟩
    rw [next]
    exact fun more he => single (more ++ [b]) (by rw [he]; rfl)
  all_goals
    rename_i he
    obtain ⟨last, rfl, rfl⟩ := concat_eq_cons he (ne_of_isBlank h (by decide))
    cases read
    exact ⟨last, rfl, rfl⟩

end Leaves

theorem ofText_trimStart (cs : List Char) : ofText (trimStart cs) = ofText cs := by
  induction cs with
  | nil => rfl
  | cons c cs ih =>
      unfold trimStart
      rw [List.dropWhile_cons]
      split
      · rename_i blank
        rw [ofText, if_pos blank]
        exact ih
      · rfl

theorem ofText_of_concat {b : Char} (h : isBlank b = true) {cs : List Char} {lexemes : List Lexeme}
    (read : ofText (cs ++ [b]) = .ok lexemes) : ofText cs = .ok lexemes := by
  fun_induction ofText cs generalizing lexemes with
  | case1 =>
      rw [List.nil_append, ofText, if_pos h, ofText] at read
      exact read
  | case2 c rest blank ih =>
      rw [List.cons_append, ofText, if_pos blank] at read
      exact ih read
  | case3 c rest inked fault hn =>
      rw [List.cons_append, ofText, if_neg inked] at read
      split at read
      · cases read
      · rename_i hs
        obtain ⟨more, -, inner⟩ := leaves_next h c rest _ _ hs
        rw [inner] at hn
        cases hn
  | case4 c rest inked lexeme after hn ih =>
      rw [List.cons_append, ofText, if_neg inked] at read
      split at read
      · cases read
      · rename_i hs
        obtain ⟨more, rfl, inner⟩ := leaves_next h c rest _ _ hs
        rw [inner] at hn
        cases hn
        obtain ⟨lexemes, hl, rfl⟩ := map_eq_ok_iff.1 read
        rw [ih hl]
        rfl

theorem ofText_of_append {blanks : List Char} (h : ∀ b ∈ blanks, isBlank b = true)
    {cs : List Char} {lexemes : List Lexeme} (read : ofText (cs ++ blanks) = .ok lexemes) :
    ofText cs = .ok lexemes := by
  induction blanks generalizing cs with
  | nil => rwa [List.append_nil] at read
  | cons b blanks ih =>
      have regroup : cs ++ b :: blanks = (cs ++ [b]) ++ blanks := by simp
      rw [regroup] at read
      have first := ih (fun d hd => h d (List.mem_cons_of_mem b hd)) read
      exact ofText_of_concat (h b List.mem_cons_self) first

end Lexeme

namespace Text

theorem trimEnd_append (cs : List Char) :
    ∃ blanks, cs = trimEnd cs ++ blanks ∧ ∀ b ∈ blanks, isBlank b = true := by
  refine ⟨(cs.reverse.takeWhile isBlank).reverse, ?_, fun b hb => ?_⟩
  · rw [trimEnd, ← List.reverse_append, List.takeWhile_append_dropWhile, List.reverse_reverse]
  · exact List.all_eq_true.1 List.all_takeWhile b (List.mem_reverse.1 hb)

theorem trimEnd_eq_self_iff {cs : List Char} :
    trimEnd cs = cs ↔ cs.getLast?.any isBlank = false := by
  rcases List.eq_nil_or_concat cs with rfl | ⟨before, last, rfl⟩
  · exact iff_of_true rfl rfl
  · rw [List.concat_eq_append, List.getLast?_concat, Option.any_some, trimEnd, List.reverse_concat,
      List.dropWhile_cons]
    cases blank : isBlank last with
    | false => simp
    | true =>
        refine iff_of_false (fun same => ?_) (by simp)
        have shorter := (List.dropWhile_sublist isBlank (l := before.reverse)).length_le
        have := congrArg List.length same
        simp only [if_true, List.length_reverse, List.length_append, List.length_singleton]
          at this shorter
        omega

theorem trimStart_trimEnd_trimStart (cs : List Char) :
    trimStart (trimEnd (trimStart cs)) = trimEnd (trimStart cs) := by
  have first := List.head?_dropWhile_not isBlank cs
  cases hs : trimStart cs with
  | nil => rfl
  | cons c rest =>
      rw [trimStart] at hs
      have inked : isBlank c = false := by simpa [hs] using first
      rw [trimEnd, List.reverse_cons, dropWhile_concat inked, List.reverse_concat, trimStart,
        List.dropWhile_cons_of_neg (by simp [inked])]

theorem trim_trim (cs : List Char) : trim (trim cs) = trim cs := by
  unfold trim
  rw [trimStart_trimEnd_trimStart]
  simp only [trimEnd, List.reverse_reverse, List.dropWhile_idempotent]

end Text

theorem Predicate.ofText_trim {inside : List Char} {p : Predicate} (h : ofText inside = .ok p) :
    ofText (Text.trim inside) = .ok p := by
  unfold ofText at h
  split at h
  · cases h
  · rename_i lexemes hl
    obtain ⟨blanks, whole, blank⟩ := Text.trimEnd_append (Text.trimStart inside)
    rw [← Lexeme.ofText_trimStart, whole] at hl
    simp only [ofText, Text.trim, Lexeme.ofText_of_append blank hl, h]

end RecordPath
