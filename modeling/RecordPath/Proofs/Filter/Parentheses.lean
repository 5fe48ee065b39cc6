import RecordPath.Proofs.Filter.Grammar
import RecordPath.Proofs.Path.Spelling

/-!
The parentheses of a filter. Two scanners look for them: the reader of paths, which only knows
quotes, and the reader of lexemes. They agree lexeme by lexeme, since strings are the only lexemes
with quotes, and what derives from the grammar closes every parenthesis it opens. So the parenthesis
after a filter that can be read is the one that closes it.
-/

namespace RecordPath

namespace Lexeme

def depth? : Nat → List Lexeme → Option Nat
  | depth, [] => some depth
  | depth, .opening :: rest => depth? (depth + 1) rest
  | depth, .quantifier _ :: rest => depth? (depth + 1) rest
  | 0, .closing :: _ => none
  | depth + 1, .closing :: rest => depth? depth rest
  | depth, _ :: rest => depth? depth rest

theorem depth?_cons (depth : Nat) (lexeme : Lexeme) (rest : List Lexeme) :
    depth? depth (lexeme :: rest) = (depth? depth [lexeme]).bind (depth? · rest) := by
  cases lexeme with
  | closing => cases depth <;> rfl
  | _ => rfl

end Lexeme

theorem Predicate.Derives.depth? {level : Predicate.Level} {xs : List Lexeme} {p : Predicate}
    (h : Predicate.Derives level xs p) (depth : Nat) (rest : List Lexeme) :
    Lexeme.depth? depth (xs ++ rest) = Lexeme.depth? depth rest := by
  induction h generalizing depth rest with
  | conjunction _ ih => exact ih depth rest
  | negation _ ih => exact ih depth rest
  | primary _ ih => exact ih depth rest
  | or _ _ ihl ihr => simp [ihl, ihr, Lexeme.depth?]
  | and _ _ ihl ihr => simp [ihl, ihr, Lexeme.depth?]
  | not _ ih => simp [ih, Lexeme.depth?]
  | group _ ih => simp [ih, Lexeme.depth?]
  | quantified q path _ ih => simp [ih, Lexeme.depth?]
  | compare left op right => simp [Lexeme.depth?]
  | present path => simp [Lexeme.depth?]

namespace Path

def Passes (depth next : Nat) (text : List Char) : Prop :=
  ∀ inside, Closes next none inside → Closes depth none (text ++ inside)

section Passes

variable {depth middle next : Nat} {c quote : Char} {first second text : List Char}

theorem Passes.append (h : Passes depth middle first) (h' : Passes middle next second) :
    Passes depth next (first ++ second) := by
  intro inside closes
  rw [List.append_assoc]
  exact h _ (h' inside closes)

theorem passes_nil : Passes depth depth [] :=
  fun _ closes => closes

theorem passes_opening : Passes depth (depth + 1) ['('] := by
  intro inside closes after
  simp only [List.cons_append, splitParenthesis_none, Lexeme.isQuote]
  simp [closes after, keep]

theorem passes_closing : Passes (depth + 1) depth [')'] := by
  intro inside closes after
  simp only [List.cons_append, splitParenthesis_none, Lexeme.isQuote]
  simp [closes after, keep]

def isInert (c : Char) : Bool :=
  !(Lexeme.isQuote c || c = '(' || c = ')')

theorem passes_inert (h : ∀ c ∈ text, isInert c = true) : Passes depth depth text := by
  intro inside closes
  induction text with
  | nil => exact closes
  | cons c text ih =>
      intro after
      have inert := h c List.mem_cons_self
      simp only [isInert, Bool.not_eq_true', Bool.or_eq_false_iff, decide_eq_false_iff_not]
        at inert
      have rest := ih (fun d hd => h d (List.mem_cons_of_mem c hd)) after
      rw [List.cons_append, List.cons_append, splitParenthesis_none, inert.1.1, if_neg
        Bool.false_ne_true, if_neg inert.1.2, if_neg inert.2, rest]
      rfl

theorem isInert_of {p : Char → Bool} (single : p '\x27' = false) (double : p '\x22' = false)
    (opening : p '(' = false) (closing : p ')' = false) (h : p c = true) : isInert c = true := by
  simp only [isInert, Lexeme.isQuote, Bool.not_eq_true', Bool.or_eq_false_iff,
    decide_eq_false_iff_not]
  refine ⟨⟨⟨?_, ?_⟩, ?_⟩, ?_⟩ <;> rintro rfl <;> simp_all

theorem passes_quoted (isQuote : Lexeme.isQuote quote = true)
    (h : ∀ inside, Closes depth none inside → Closes depth (some quote) (text ++ inside)) :
    Passes depth depth (quote :: text) := by
  intro inside closes after
  have rest := h inside closes after
  rw [List.cons_append, List.cons_append, splitParenthesis_none, isQuote]
  simp only [if_true, rest, Option.map_some, keep]

end Passes

end Path

namespace Lexeme

open RecordPath.Path

variable {depth : Nat} {cs rest after text : List Char} {quote c : Char} {lexeme : Lexeme}

theorem string_closes (isQuote : Lexeme.isQuote quote = true)
    (h : string quote cs = .ok (text, after)) :
    ∃ read, cs = read ++ after ∧
      ∀ depth inside, Closes depth none inside → Closes depth (some quote) (read ++ inside) := by
  fun_induction string quote cs generalizing text after with
  | case1 => cases h
  | case2 => cases h
  | case3 e rest ih =>
      obtain ⟨⟨text, _⟩, hs, he⟩ := map_eq_ok_iff.1 h
      cases he
      obtain ⟨read, rfl, closes⟩ := ih hs
      refine ⟨'\\' :: e :: read, rfl, fun depth inside hi more => ?_⟩
      have := closes depth inside hi more
      simp only [List.cons_append, splitParenthesis, this, Option.map_some, keep]
  | case4 rest single escape =>
      cases h
      refine ⟨[quote], rfl, fun depth inside hi more => ?_⟩
      have plain : quote ≠ '\\' := by
        rintro rfl
        cases isQuote
      have := hi more
      rw [List.singleton_append, List.cons_append, splitParenthesis_quoted plain]
      simp only [if_true, this, Option.map_some, keep]
  | case5 c rest single escape other ih =>
      obtain ⟨⟨text, _⟩, hs, he⟩ := map_eq_ok_iff.1 h
      cases he
      obtain ⟨read, rfl, closes⟩ := ih hs
      refine ⟨c :: read, rfl, fun depth inside hi more => ?_⟩
      have plain : c ≠ '\\' := by
        rintro rfl
        cases hr : read ++ after with
        | nil => exact single rfl hr
        | cons d more => exact escape d more rfl hr
      have := closes depth inside hi more
      rw [List.cons_append, List.cons_append, splitParenthesis_quoted plain, if_neg other, this]
      rfl

theorem string_passes (isQuote : Lexeme.isQuote quote = true)
    (h : string quote cs = .ok (text, after)) :
    ∃ read, cs = read ++ after ∧ ∀ depth, Passes depth depth (quote :: read) := by
  obtain ⟨read, hr, closes⟩ := string_closes isQuote h
  exact ⟨read, hr, fun depth => passes_quoted isQuote (closes depth)⟩

theorem isInert_of_isBlank (h : Text.isBlank c = true) : isInert c = true :=
  isInert_of (by decide) (by decide) (by decide) (by decide) h

theorem isInert_of_isField (h : isFieldCharacter c = true) : isInert c = true :=
  isInert_of (by decide +kernel) (by decide +kernel) (by decide +kernel) (by decide +kernel) h

theorem isInert_of_isWord (h : isWordCharacter c = true) : isInert c = true :=
  isInert_of (by decide) (by decide) (by decide) (by decide) h

theorem isInert_of_isNumber (h : isNumberCharacter c = true) : isInert c = true :=
  isInert_of (by decide) (by decide) (by decide) (by decide) h

def ReadsOver (cs after : List Char) : Prop :=
  ∃ read, cs = read ++ after ∧ ∀ depth, Passes depth depth read

theorem readsOver_refl : ReadsOver cs cs :=
  ⟨[], rfl, fun _ => passes_nil⟩

theorem ReadsOver.trans (h : ReadsOver cs rest) (h' : ReadsOver rest after) :
    ReadsOver cs after := by
  obtain ⟨first, rfl, passes⟩ := h
  obtain ⟨second, rfl, passes'⟩ := h'
  exact ⟨first ++ second, by simp, fun depth => (passes depth).append (passes' depth)⟩

theorem readsOver_inert {read : List Char} (h : ∀ c ∈ read, isInert c = true) :
    ReadsOver (read ++ after) after :=
  ⟨read, rfl, fun _ => passes_inert h⟩

theorem ReadsOver.cons (inert : isInert c = true) (h : ReadsOver cs after) :
    ReadsOver (c :: cs) after := by
  have first : ReadsOver ([c] ++ cs) cs := readsOver_inert (by simp [inert])
  exact first.trans h

theorem readsOver_dropWhile {p : Char → Bool} (h : ∀ c, p c = true → isInert c = true)
    (cs : List Char) : ReadsOver cs (cs.dropWhile p) := by
  have taken : ReadsOver (cs.takeWhile p ++ cs.dropWhile p) (cs.dropWhile p) :=
    readsOver_inert fun c hc => h c (List.all_eq_true.1 List.all_takeWhile c hc)
  rwa [List.takeWhile_append_dropWhile] at taken

theorem readsOver_string (isQuote : Lexeme.isQuote quote = true)
    (h : string quote cs = .ok (text, after)) : ReadsOver (quote :: cs) after := by
  obtain ⟨read, rfl, passes⟩ := string_passes isQuote h
  exact ⟨quote :: read, rfl, passes⟩

theorem bracketedIndex_cases {i : Nat} (h : bracketedIndex cs = .ok (i, after)) :
    ∃ digits, cs = digits ++ ']' :: after ∧ Text.index? digits = some i := by
  have whole := List.takeWhile_append_dropWhile (p := (· != ']')) (l := cs)
  simp only [bracketedIndex] at h
  split at h
  · cases h
  · rename_i d more hd
    have closing : d = ']' := by
      have := List.head?_dropWhile_not (· != ']') cs
      rw [hd] at this
      simpa using this
    split at h
    · rename_i hi
      cases h
      rw [hd, closing] at whole
      exact ⟨_, whole.symm, hi⟩
    · cases h

theorem bracketedIndex_index {digits : List Char} {i : Nat} (h : Text.index? digits = some i) :
    bracketedIndex (digits ++ ']' :: after) = .ok (i, after) := by
  simp only [bracketedIndex, takeWhile_index h, dropWhile_index h, h]

theorem readsOver_bracketedStep {step : Step} (h : bracketedStep cs = .ok (step, after)) :
    ReadsOver cs after := by
  cases cs with
  | nil => cases h
  | cons c cs =>
      simp only [bracketedStep] at h
      split at h
      · rename_i isQuote
        obtain ⟨⟨name, _⟩, hb, he⟩ := map_eq_ok_iff.1 h
        cases he
        simp only [bracketedName] at hb
        split at hb
        · cases hb
        · rename_i hs
          cases hb
          exact (readsOver_string isQuote hs).trans (readsOver_refl.cons rfl)
        · cases hb
      · obtain ⟨⟨i, _⟩, hb, he⟩ := map_eq_ok_iff.1 h
        cases he
        obtain ⟨digits, hc, hi⟩ := bracketedIndex_cases hb
        rw [hc]
        refine (readsOver_inert fun d hd => ?_).trans (readsOver_refl.cons rfl)
        have := (digits_of_index hi).2 d hd
        exact isInert_of_isNumber (by simp [isNumberCharacter, this])

theorem readsOver_steps {path : Location} (h : steps cs = .ok (path, after)) :
    ReadsOver cs after := by
  fun_induction steps cs generalizing path after with
  | case1 =>
      cases h
      exact readsOver_refl
  | case2 => cases h
  | case3 rest _ ih =>
      obtain ⟨⟨path, _⟩, hs, he⟩ := map_eq_ok_iff.1 h
      cases he
      have name := readsOver_dropWhile (fun c => isInert_of_isField) rest
      exact (name.trans (ih hs)).cons rfl
  | case4 => cases h
  | case5 rest step more hb _ ih =>
      obtain ⟨⟨path, _⟩, hs, he⟩ := map_eq_ok_iff.1 h
      cases he
      exact ((readsOver_bracketedStep hb).trans (ih hs)).cons rfl
  | case6 =>
      cases h
      exact readsOver_refl

def Shifts (lexeme : Lexeme) (cs after : List Char) : Prop :=
  ∃ read, cs = read ++ after ∧ ∀ depth next, depth? depth [lexeme] = some next →
    Passes depth next read

theorem shifts_of_readsOver (neutral : ∀ depth, depth? depth [lexeme] = some depth)
    (h : ReadsOver cs after) : Shifts lexeme cs after := by
  obtain ⟨read, hr, passes⟩ := h
  refine ⟨read, hr, fun depth next hd => ?_⟩
  rw [neutral] at hd
  cases hd
  exact passes depth

theorem shifts_number (first : isInert c = true) (h : number c rest = .ok (lexeme, after)) :
    Shifts lexeme (c :: rest) after := by
  simp only [number] at h
  split at h
  · cases h
    exact shifts_of_readsOver (fun _ => rfl)
      ((readsOver_dropWhile (fun c => isInert_of_isNumber) rest).cons first)
  · cases h

theorem readsOver_trimStart (cs : List Char) : ReadsOver cs (Text.trimStart cs) :=
  readsOver_dropWhile (fun _ => isInert_of_isBlank) cs

theorem shifts_quantifier {q : Quantifier} (h : Text.trimStart rest = '(' :: after) :
    Shifts (.quantifier q) rest after := by
  obtain ⟨blanks, hr, passes⟩ := readsOver_trimStart rest
  rw [h] at hr
  refine ⟨blanks ++ ['('], by simp [hr], fun depth next hd => ?_⟩
  cases hd
  exact (passes depth).append passes_opening

theorem readsOver_empty_parentheses {inner : List Char}
    (opening : Text.trimStart rest = '(' :: inner)
    (closing : Text.trimStart inner = ')' :: after) : ReadsOver rest after := by
  obtain ⟨blanks, hr, passes⟩ := readsOver_trimStart rest
  obtain ⟨more, hi, passes'⟩ := readsOver_trimStart inner
  rw [opening] at hr
  rw [closing] at hi
  refine ⟨blanks ++ (['('] ++ (more ++ [')'])), by simp [hr, hi], fun depth => ?_⟩
  have inside := (passes' (depth + 1)).append passes_closing
  exact (passes depth).append (passes_opening.append inside)

theorem shifts_word {name : String} (h : word name rest = .ok (lexeme, after)) :
    Shifts lexeme rest after := by
  unfold word at h
  split at h
  · cases h
    exact shifts_of_readsOver (fun _ => rfl) readsOver_refl
  · cases h
    exact shifts_of_readsOver (fun _ => rfl) readsOver_refl
  · cases h
    exact shifts_of_readsOver (fun _ => rfl) readsOver_refl
  · split at h
    · rename_i inner opening
      split at h
      · cases h
        exact shifts_quantifier opening
      · cases h
        exact shifts_quantifier opening
      · split at h
        · cases h
        · split at h
          · rename_i closing
            cases h
            exact shifts_of_readsOver (fun _ => rfl) (readsOver_empty_parentheses opening closing)
          · cases h
    · cases h

theorem shifts_next (h : next c rest = .ok (lexeme, after)) : Shifts lexeme (c :: rest) after := by
  unfold next at h
  split at h
  case h_1 =>
    cases h
    refine ⟨['('], rfl, fun depth next hd => ?_⟩
    cases hd
    exact passes_opening
  case h_2 =>
    cases h
    refine ⟨[')'], rfl, fun depth next hd => ?_⟩
    cases depth with
    | zero => cases hd
    | succ depth =>
        cases hd
        exact passes_closing
  case h_13 =>
    obtain ⟨⟨path, _⟩, hs, he⟩ := map_eq_ok_iff.1 h
    cases he
    exact shifts_of_readsOver (fun _ => rfl) ((readsOver_steps hs).cons rfl)
  case h_14 =>
    split at h
    · rename_i isQuote
      obtain ⟨⟨text, _⟩, hs, he⟩ := map_eq_ok_iff.1 h
      cases he
      exact shifts_of_readsOver (fun _ => rfl) (readsOver_string isQuote hs)
    · split at h
      · rename_i starts
        refine shifts_number (isInert_of_isNumber ?_) h
        simp only [startsNumber, Bool.or_eq_true, Bool.and_eq_true, decide_eq_true_eq] at starts
        rcases starts with digit | ⟨rfl, -⟩
        · simp [isNumberCharacter, digit]
        · rfl
      · split at h
        · rename_i letter
          have first : isInert c = true := by
            refine isInert_of_isWord ?_
            simp only [Bool.or_eq_true, decide_eq_true_eq] at letter
            rcases letter with alpha | rfl
            · simp [isWordCharacter, Char.isAlphanum, alpha]
            · rfl
          obtain ⟨read, hr, shifts⟩ := shifts_word h
          obtain ⟨name, hn, passes⟩ :=
            (readsOver_dropWhile (fun c => isInert_of_isWord) rest).cons first
          refine ⟨name ++ read, by rw [hn, hr, List.append_assoc], fun depth next hd => ?_⟩
          exact (passes depth).append (shifts depth next hd)
        · cases h
  case h_3 | h_8 | h_10 | h_12 =>
    cases h
    exact shifts_of_readsOver (fun _ => rfl) (readsOver_refl.cons rfl)
  all_goals
    cases h
    exact shifts_of_readsOver (fun _ => rfl) ((readsOver_refl.cons rfl).cons rfl)

theorem passes_of_ofText {lexemes : List Lexeme} (h : ofText cs = .ok lexemes) {next : Nat}
    (hd : depth? depth lexemes = some next) : Passes depth next cs := by
  fun_induction ofText cs generalizing lexemes depth with
  | case1 =>
      cases h
      cases hd
      exact passes_nil
  | case2 c rest blank ih =>
      have first : Passes depth depth [c] :=
        passes_inert (by simp [isInert_of_isBlank blank])
      exact first.append (ih h hd)
  | case3 => cases h
  | case4 c rest _ lexeme after hn ih =>
      obtain ⟨lexemes, hr, rfl⟩ := map_eq_ok_iff.1 h
      obtain ⟨read, text, shifts⟩ := shifts_next hn
      rw [depth?_cons] at hd
      obtain ⟨middle, first, more⟩ := Option.bind_eq_some_iff.1 hd
      rw [text]
      exact (shifts depth middle first).append (ih hr more)

end Lexeme

namespace Predicate

theorem closes_of_ofText {inside : List Char} {p : Predicate} (h : ofText inside = .ok p) :
    Path.Closes 0 none inside := by
  unfold ofText at h
  split at h
  · cases h
  · rename_i lexemes hl
    have balanced := (ofLexemes_eq_ok_iff.1 h).depth? 0 []
    rw [List.append_nil] at balanced
    have closes := Lexeme.passes_of_ofText hl balanced []
    rw [List.append_nil] at closes
    exact closes fun after => rfl

end Predicate

end RecordPath
