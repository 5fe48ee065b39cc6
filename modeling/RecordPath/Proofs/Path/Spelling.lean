import RecordPath.Path.Tokenizer

namespace RecordPath.Text

section Word

variable {p : Char → Bool} {word rest : List Char}

theorem takeWhile_word (h : ∀ c ∈ word, p c = true) (stop : ∀ c ∈ rest.head?, p c = false) :
    (word ++ rest).takeWhile p = word := by
  rw [List.takeWhile_append_of_pos h]
  cases rest with
  | nil => rw [List.takeWhile_nil, List.append_nil]
  | cons c rest => rw [List.takeWhile_cons_of_neg (by simp [stop c rfl]), List.append_nil]

theorem dropWhile_word (h : ∀ c ∈ word, p c = true) (stop : ∀ c ∈ rest.head?, p c = false) :
    (word ++ rest).dropWhile p = rest := by
  rw [List.dropWhile_append_of_pos h]
  cases rest with
  | nil => rfl
  | cons c rest => rw [List.dropWhile_cons_of_neg (by simp [stop c rfl])]

end Word

end RecordPath.Text

namespace RecordPath.Path

structure IsName (name : List Char) : Prop where
  nonempty : name ≠ []
  characters : ∀ c ∈ name, isNameCharacter c = true

def Closes (depth : Nat) (quote : Option Char) (inside : List Char) : Prop :=
  ∀ after, splitParenthesis depth quote (inside ++ ')' :: after) = some (inside, after)

inductive Spelled : List Char → List Token → Prop
  | nil : Spelled [] []
  | name {name rest : List Char} {found : List Token} :
      IsName name → Spelled rest found →
      Spelled ('.' :: (name ++ rest)) (tokenOfName name :: found)
  | function (f : AggregateFunction) {rest : List Char} {found : List Token} :
      Spelled rest found →
      Spelled ('.' :: (f.name.toList ++ '(' :: ')' :: rest)) (.function f :: found)
  | index {digits rest : List Char} {i : Nat} {found : List Token} :
      Text.index? digits = some i → Spelled rest found →
      Spelled ('[' :: (digits ++ ']' :: rest)) (.index i :: found)
  | listWildcard {rest : List Char} {found : List Token} :
      Spelled rest found → Spelled ('[' :: '*' :: ']' :: rest) (.listWildcard :: found)
  | filter {inside rest : List Char} {predicate : Predicate} {found : List Token} :
      Closes 0 none inside → Predicate.ofText inside = .ok predicate → Spelled rest found →
      Spelled ('[' :: '?' :: '(' :: (inside ++ ')' :: ']' :: rest))
        (.filter (String.ofList (Text.trim inside)) predicate :: found)
  | deepName {name rest : List Char} {found : List Token} :
      IsName name → Spelled rest found →
      Spelled ('.' :: '.' :: (name ++ rest)) (.deepScan :: tokenOfName name :: found)
  | deepBracket {rest : List Char} {found : List Token} :
      Spelled ('[' :: rest) found → Spelled ('.' :: '.' :: '[' :: rest) (.deepScan :: found)

def Opens (cs : List Char) : Prop :=
  ∀ c ∈ cs.head?, c = '.' ∨ c = '['

theorem Spelled.opens {cs : List Char} {found : List Token} (h : Spelled cs found) : Opens cs := by
  cases h <;> simp [Opens]

section Member

variable {size : Nat} {cs after name : List Char} {token : Token}

theorem not_isNameCharacter_of_opens (h : Opens cs) :
    ∀ c ∈ cs.head?, isNameCharacter c = false := by
  intro c hc
  rcases h c hc with rfl | rfl <;> decide

theorem IsName.takeWhile (h : IsName name) (opens : Opens after) :
    (name ++ after).takeWhile isNameCharacter = name :=
  Text.takeWhile_word h.characters (not_isNameCharacter_of_opens opens)

theorem IsName.dropWhile (h : IsName name) (opens : Opens after) :
    (name ++ after).dropWhile isNameCharacter = after :=
  Text.dropWhile_word h.characters (not_isNameCharacter_of_opens opens)

theorem isName_function (f : AggregateFunction) : IsName f.name.toList := by
  cases f <;> exact ⟨by decide, List.all_eq_true.1 (by decide)⟩

theorem member_name (h : IsName name) (opens : Opens after) :
    member size (name ++ after) = .ok (tokenOfName name, after) := by
  simp only [member, h.takeWhile opens, h.dropWhile opens, h.nonempty, if_false]
  split
  · rcases opens '(' rfl with h | h <;> cases h
  · rcases opens '(' rfl with h | h <;> cases h
  · rfl

theorem member_function (size : Nat) (f : AggregateFunction) (after : List Char) :
    member size (f.name.toList ++ '(' :: ')' :: after) = .ok (.function f, after) := by
  have name := isName_function f
  have stop : ∀ c ∈ ('(' :: ')' :: after).head?, isNameCharacter c = false := by
    rintro c ⟨⟩
    decide
  have taken := Text.takeWhile_word name.characters stop
  have dropped := Text.dropWhile_word name.characters stop
  simp only [member, taken, dropped, name.nonempty, if_false, String.ofList_toList,
    AggregateFunction.ofName?_name]

theorem member_cases (h : member size cs = .ok (token, after)) :
    (∃ name, IsName name ∧ cs = name ++ after ∧ token = tokenOfName name) ∨
    ∃ f : AggregateFunction, cs = f.name.toList ++ '(' :: ')' :: after ∧ token = .function f := by
  have whole := List.takeWhile_append_dropWhile (p := isNameCharacter) (l := cs)
  simp only [member] at h
  split at h
  · cases h
  · rename_i nonempty
    split at h
    · rename_i rest hd
      split at h
      · rename_i f named
        cases h
        refine .inr ⟨f, ?_, rfl⟩
        rw [← AggregateFunction.ofName?_eq_some named, String.toList_ofList, ← hd, whole]
      · cases h
    · cases h
    · cases h
      exact .inl ⟨_, ⟨nonempty, List.all_eq_true.1 List.all_takeWhile⟩, whole.symm, rfl⟩

theorem isFunction_tokenOfName (name : List Char) : (tokenOfName name).isFunction = false := by
  unfold tokenOfName
  split <;> rfl

end Member

section Bracket

variable {size : Nat} {cs after digits inside : List Char} {token : Token} {i : Nat}

theorem digits_of_index (h : Text.index? digits = some i) :
    digits ≠ [] ∧ ∀ c ∈ digits, c.isDigit = true := by
  obtain ⟨hn, -⟩ := Option.filter_eq_some_iff.1 h
  unfold Text.natural? at hn
  split at hn
  · rename_i shape
    exact ⟨shape.1, List.all_eq_true.1 shape.2⟩
  · cases hn

theorem not_closing_of_index (h : Text.index? digits = some i) :
    ∀ c ∈ digits, (c != ']') = true := by
  intro c hc
  refine bne_iff_ne.2 ?_
  rintro rfl
  cases (digits_of_index h).2 ']' hc

theorem takeWhile_index (h : Text.index? digits = some i) :
    (digits ++ ']' :: after).takeWhile (· != ']') = digits :=
  Text.takeWhile_word (not_closing_of_index h) (by rintro c ⟨⟩; rfl)

theorem dropWhile_index (h : Text.index? digits = some i) :
    (digits ++ ']' :: after).dropWhile (· != ']') = ']' :: after :=
  Text.dropWhile_word (not_closing_of_index h) (by rintro c ⟨⟩; rfl)

theorem bracket_index (h : Text.index? digits = some i) :
    bracket size (digits ++ ']' :: after) = .ok (.index i, after) := by
  obtain ⟨nonempty, digit⟩ := digits_of_index h
  have plain : digits ≠ ['*'] := by
    rintro rfl
    cases digit '*' List.mem_cons_self
  unfold bracket
  split
  · rename_i rest hr
    cases digits with
    | nil => exact absurd rfl nonempty
    | cons d ds =>
        cases hr
        cases digit '?' List.mem_cons_self
  · simp only [takeWhile_index h, dropWhile_index h, plain, if_false, h]

theorem splitParenthesis_quoted {depth : Nat} {quote c : Char} (h : c ≠ '\\') (cs : List Char) :
    splitParenthesis depth (some quote) (c :: cs) =
      (splitParenthesis depth (if c = quote then none else some quote) cs).map (keep c) := by
  rw [splitParenthesis.eq_def]
  split
  · rename_i hc
    cases hc
  · rename_i hc
    cases hc
    exact absurd rfl h
  · rename_i hc
    cases hc
    exact absurd rfl h
  · rename_i hq hc
    cases hq
    cases hc
    rfl
  · rename_i hq hc
    cases hq

theorem splitParenthesis_none (depth : Nat) (c : Char) (cs : List Char) :
    splitParenthesis depth none (c :: cs) =
      if Lexeme.isQuote c then (splitParenthesis depth (some c) cs).map (keep c)
      else if c = '(' then (splitParenthesis (depth + 1) none cs).map (keep c)
      else if c = ')' then
        match depth with
        | 0 => some ([], cs)
        | depth + 1 => (splitParenthesis depth none cs).map (keep c)
      else (splitParenthesis depth none cs).map (keep c) := by
  rw [splitParenthesis.eq_def]
  split
  · rename_i hc
    cases hc
  · rename_i hq hc
    cases hq
  · rename_i hq hc
    cases hq
  · rename_i hq hc
    cases hq
  · rename_i hq hc
    cases hc
    rfl

theorem bracket_filter : bracket size ('?' :: cs) = filter cs :=
  rfl

theorem bracket_star : bracket size ('*' :: ']' :: after) = .ok (.listWildcard, after) :=
  rfl

theorem closes_cons {depth inner : Nat} {quote next : Option Char} {c : Char} {rest : List Char}
    (step : ∀ cs, splitParenthesis depth quote (c :: cs) =
      (splitParenthesis inner next cs).map (keep c))
    (ih : ∀ {inside after}, splitParenthesis inner next rest = some (inside, after) →
      rest = inside ++ ')' :: after ∧ Closes inner next inside)
    (h : (splitParenthesis inner next rest).map (keep c) = some (inside, after)) :
    c :: rest = inside ++ ')' :: after ∧ Closes depth quote inside := by
  obtain ⟨⟨before, _⟩, split, kept⟩ := Option.map_eq_some_iff.1 h
  cases kept
  obtain ⟨rfl, closes⟩ := ih split
  refine ⟨rfl, fun more => ?_⟩
  rw [List.cons_append, step, closes more]
  rfl

theorem closes_of_splitParenthesis {depth : Nat} {quote : Option Char}
    (h : splitParenthesis depth quote cs = some (inside, after)) :
    cs = inside ++ ')' :: after ∧ Closes depth quote inside := by
  fun_induction splitParenthesis depth quote cs generalizing inside after with
  | case1 => cases h
  | case2 => cases h
  | case3 depth quote c rest ih =>
      obtain ⟨⟨inner, _⟩, hs, he⟩ := Option.map_eq_some_iff.1 h
      cases he
      obtain ⟨rfl, closes⟩ := ih hs
      refine ⟨rfl, fun more => ?_⟩
      simp only [List.cons_append, splitParenthesis, closes more, Option.map_some, keep]
  | case4 depth quote c rest last escapes ih =>
      have plain : c ≠ '\\' := by
        intro backslash
        cases rest with
        | nil => exact last backslash rfl
        | cons d rest => exact escapes _ _ backslash rfl
      exact closes_cons (splitParenthesis_quoted plain) ih h
  | case5 depth c rest isQuote ih =>
      refine closes_cons (fun cs => ?_) ih h
      rw [splitParenthesis_none, if_pos isQuote]
  | case6 depth rest notQuote ih =>
      refine closes_cons (fun cs => ?_) ih h
      rw [splitParenthesis_none, if_neg notQuote, if_pos rfl]
  | case7 rest notQuote notOpening =>
      cases h
      refine ⟨rfl, fun more => ?_⟩
      rw [List.nil_append, splitParenthesis_none, if_neg notQuote, if_neg notOpening, if_pos rfl]
  | case8 rest depth notQuote notOpening ih =>
      refine closes_cons (fun cs => ?_) ih h
      rw [splitParenthesis_none, if_neg notQuote, if_neg notOpening, if_pos rfl]
  | case9 depth c rest notQuote notOpening notClosing ih =>
      refine closes_cons (fun cs => ?_) ih h
      rw [splitParenthesis_none, if_neg notQuote, if_neg notOpening, if_neg notClosing]

theorem filter_inside {predicate : Predicate} (closes : Closes 0 none inside)
    (h : Predicate.ofText inside = .ok predicate) :
    filter ('(' :: (inside ++ ')' :: ']' :: after)) =
      .ok (.filter (String.ofList (Text.trim inside)) predicate, after) := by
  simp only [filter, closes (']' :: after), h]

theorem filter_cases (h : filter cs = .ok (token, after)) :
    ∃ inside predicate, Closes 0 none inside ∧ Predicate.ofText inside = .ok predicate ∧
      cs = '(' :: (inside ++ ')' :: ']' :: after) ∧
      token = .filter (String.ofList (Text.trim inside)) predicate := by
  unfold filter at h
  split at h
  · split at h
    · cases h
    · rename_i hs
      obtain ⟨rfl, closes⟩ := closes_of_splitParenthesis hs
      split at h
      · cases h
      · rename_i hp
        cases h
        exact ⟨_, _, closes, hp, rfl, rfl⟩
    · cases h
  · cases h

theorem bracket_cases (h : bracket size cs = .ok (token, after)) :
    (∃ rest, cs = '?' :: rest ∧ filter rest = .ok (token, after)) ∨
    (cs = '*' :: ']' :: after ∧ token = .listWildcard) ∨
    ∃ digits i, Text.index? digits = some i ∧ cs = digits ++ ']' :: after ∧ token = .index i := by
  unfold bracket at h
  split at h
  · exact .inl ⟨_, rfl, h⟩
  · have whole := List.takeWhile_append_dropWhile (p := (· != ']')) (l := cs)
    simp only at h
    split at h
    · cases h
    · rename_i c rest hd
      have closing : c = ']' := by
        have := List.head?_dropWhile_not (· != ']') cs
        rw [hd] at this
        simpa using this
      subst closing
      rw [hd] at whole
      split at h
      · rename_i star
        cases h
        rw [star] at whole
        exact .inr (.inl ⟨whole.symm, rfl⟩)
      · split at h
        · rename_i i hi
          cases h
          exact .inr (.inr ⟨_, i, hi, whole.symm, rfl⟩)
        · cases h

end Bracket

section Tokens

variable {size : Nat} {cs after : List Char} {found : List Token} {token : Token}

theorem tokens_dot (plain : ∀ rest, cs ≠ '.' :: rest) (h : member size cs = .ok (token, after)) :
    tokens size ('.' :: cs) = (tokens size after).map (token :: ·) := by
  rw [tokens.eq_def]
  split
  · rename_i hc
    cases hc
  · rename_i rest hc
    cases hc
    exact absurd rfl (plain rest)
  · rename_i hc
    cases hc
    split
    · rename_i hm
      rw [h] at hm
      cases hm
    · rename_i hm
      rw [h] at hm
      cases hm
      rfl
  · rename_i hc
    cases hc
  · rename_i dot _ hc
    cases hc
    exact absurd rfl dot

theorem tokens_bracket (h : bracket size cs = .ok (token, after)) :
    tokens size ('[' :: cs) = (tokens size after).map (token :: ·) := by
  rw [tokens.eq_def]
  simp only
  split
  · rename_i hb
    rw [h] at hb
    cases hb
  · rename_i hb
    rw [h] at hb
    cases hb
    rfl

theorem spelled_of_member {rest : List Char} {more : List Token}
    (h : member size cs = .ok (token, rest)) (spelled : Spelled rest more) :
    Spelled ('.' :: cs) (token :: more) := by
  rcases member_cases h with ⟨name, hn, rfl, rfl⟩ | ⟨f, rfl, rfl⟩
  · exact .name hn spelled
  · exact .function f spelled

theorem spelled_of_bracket {rest : List Char} {more : List Token}
    (h : bracket size cs = .ok (token, rest)) (spelled : Spelled rest more) :
    Spelled ('[' :: cs) (token :: more) := by
  rcases bracket_cases h with ⟨content, rfl, hf⟩ | ⟨rfl, rfl⟩ | ⟨digits, i, hi, rfl, rfl⟩
  · obtain ⟨inside, predicate, closes, hp, rfl, rfl⟩ := filter_cases hf
    exact .filter closes hp spelled
  · exact .listWildcard spelled
  · exact .index hi spelled

theorem spelled_of_tokens (h : tokens size cs = .ok found) : Spelled cs found := by
  fun_induction tokens size cs generalizing found with
  | case1 =>
      cases h
      exact .nil
  | case2 more ih =>
      obtain ⟨found, hf, rfl⟩ := Lexeme.map_eq_ok_iff.1 h
      exact .deepBracket (ih hf)
  | case3 => cases h
  | case4 => cases h
  | case5 c more _ _ token after hm notFunction ih =>
      obtain ⟨found, hf, rfl⟩ := Lexeme.map_eq_ok_iff.1 h
      rcases member_cases hm with ⟨name, hn, hc, rfl⟩ | ⟨f, -, rfl⟩
      · rw [hc]
        exact .deepName hn (ih hf)
      · exact absurd rfl notFunction
  | case6 => cases h
  | case7 => cases h
  | case8 => cases h
  | case9 rest _ token after hm ih =>
      obtain ⟨found, hf, rfl⟩ := Lexeme.map_eq_ok_iff.1 h
      exact spelled_of_member hm (ih hf)
  | case10 => cases h
  | case11 rest token after hb ih =>
      obtain ⟨found, hf, rfl⟩ := Lexeme.map_eq_ok_iff.1 h
      exact spelled_of_bracket hb (ih hf)
  | case12 => cases h

theorem tokens_deep {c : Char} {rest : List Char} (first : isNameCharacter c = true)
    (h : member size (c :: rest) = .ok (token, after)) (notFunction : token.isFunction = false) :
    tokens size ('.' :: '.' :: c :: rest) =
      (tokens size after).map fun rest => .deepScan :: token :: rest := by
  rw [tokens.eq_def]
  simp only
  split
  · rename_i hc
    cases hc
    cases first
  · rename_i hc
    cases hc
    rw [if_pos first]
    split
    · rename_i hm
      rw [h] at hm
      cases hm
    · rename_i hm
      rw [h] at hm
      cases hm
      rw [notFunction]
      rfl
  · rename_i hc
    cases hc

theorem Spelled.tokens (h : Spelled cs found) : Path.tokens size cs = .ok found := by
  induction h with
  | nil => rw [Path.tokens]
  | @name name rest found hn spelled ih =>
      -- Two dots in a row are a descent, and no name begins with one.
      have plain : ∀ more, name ++ rest ≠ '.' :: more := by
        intro more h
        cases name with
        | nil => exact hn.nonempty rfl
        | cons c name =>
            cases h
            cases hn.characters '.' List.mem_cons_self
      rw [tokens_dot plain (member_name hn spelled.opens), ih]
      rfl
  | @function f rest found spelled ih =>
      have plain : ∀ more, f.name.toList ++ '(' :: ')' :: rest ≠ '.' :: more := by
        cases f <;> rintro more ⟨⟩
      rw [tokens_dot plain (member_function size f rest), ih]
      rfl
  | index hi spelled ih =>
      rw [tokens_bracket (bracket_index hi), ih]
      rfl
  | listWildcard spelled ih =>
      rw [tokens_bracket bracket_star, ih]
      rfl
  | filter closes hp spelled ih =>
      rw [tokens_bracket (bracket_filter.trans (filter_inside closes hp)), ih]
      rfl
  | @deepName name rest found hn spelled ih =>
      cases name with
      | nil => exact absurd rfl hn.nonempty
      | cons c name =>
          have read : member size (c :: (name ++ rest)) =
              .ok (tokenOfName (c :: name), rest) := member_name hn spelled.opens
          rw [List.cons_append, tokens_deep (hn.characters c List.mem_cons_self) read
            (isFunction_tokenOfName _), ih]
          rfl
  | deepBracket spelled ih =>
      rw [Path.tokens, ih]
      rfl

theorem tokens_eq_ok_iff : tokens size cs = .ok found ↔ Spelled cs found :=
  ⟨spelled_of_tokens, Spelled.tokens⟩

end Tokens

end RecordPath.Path
