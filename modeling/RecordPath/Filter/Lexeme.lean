import RecordPath.Filter.Fault
import RecordPath.Json.Numeral
import RecordPath.Text.Alphanumeric
import RecordPath.Text.Blank

namespace RecordPath

inductive Lexeme where
  | operand (operand : Operand)
  | compare (op : Comparison)
  /-- The word and its opening parenthesis. -/
  | quantifier (quantifier : Quantifier)
  | and
  | or
  | not
  | opening
  | closing
  | comma
  deriving DecidableEq, Repr

namespace Lexeme

open Text

theorem map_eq_ok_iff {ε α β : Type} {f : α → β} {x : Except ε α} {b : β} :
    x.map f = .ok b ↔ ∃ a, x = .ok a ∧ f a = b := by
  cases x <;> simp [Except.map]

def isQuote (c : Char) : Bool :=
  c = '\x27' || c = '\x22'

def isFieldCharacter (c : Char) : Bool :=
  isAlphanumeric c || c = '_' || c = '-'

def isWordCharacter (c : Char) : Bool :=
  c.isAlphanum || c = '_'

def isNumberCharacter (c : Char) : Bool :=
  c.isDigit || c = '.' || c = 'e' || c = 'E' || c = '+' || c = '-'

def unescape : Char → Char
  | 'n' => '\n'
  | 't' => '\t'
  | 'r' => '\r'
  | c => c

def string (quote : Char) : List Char → Except FilterFault (List Char × List Char)
  | [] => .error .unclosedString
  | ['\\'] => .error .danglingEscape
  | '\\' :: e :: rest => (string quote rest).map fun (text, after) => (unescape e :: text, after)
  | c :: rest =>
      if c = quote then .ok ([], rest)
      else (string quote rest).map fun (text, after) => (c :: text, after)

theorem length_string_le {quote : Char} {cs text after : List Char}
    (h : string quote cs = .ok (text, after)) : after.length ≤ cs.length := by
  fun_induction string quote cs generalizing text after with
  | case1 => cases h
  | case2 => cases h
  | case3 e rest ih =>
      obtain ⟨result, hr, he⟩ := map_eq_ok_iff.1 h
      cases he
      have := ih hr
      simp only [List.length_cons]
      omega
  | case4 => cases h; simp
  | case5 c rest _ _ _ ih =>
      obtain ⟨result, hr, he⟩ := map_eq_ok_iff.1 h
      cases he
      have := ih hr
      simp only [List.length_cons]
      omega

def bracketedIndex (cs : List Char) : Except FilterFault (Nat × List Char) :=
  let content := cs.takeWhile (· != ']')
  match cs.dropWhile (· != ']') with
  | [] => .error .unclosedIndex
  | _ :: after =>
      match index? content with
      | some i => .ok (i, after)
      | none => .error (.invalidIndex (String.ofList content))

theorem length_bracketedIndex_le {cs after : List Char} {i : Nat}
    (h : bracketedIndex cs = .ok (i, after)) : after.length ≤ cs.length := by
  have := length_dropWhile_le (· != ']') cs
  simp only [bracketedIndex] at h
  split at h
  · cases h
  · rename_i c rest hd
    rw [hd] at this
    split at h
    · cases h; simp at this; omega
    · cases h

def bracketedName (quote : Char) (cs : List Char) : Except FilterFault (String × List Char) :=
  match string quote cs with
  | .error fault => .error fault
  | .ok (name, ']' :: after) => .ok (String.ofList name, after)
  | .ok _ => .error .unclosedName

theorem length_bracketedName_le {quote : Char} {cs after : List Char} {name : String}
    (h : bracketedName quote cs = .ok (name, after)) : after.length ≤ cs.length := by
  simp only [bracketedName] at h
  split at h
  · cases h
  · rename_i text rest hs
    cases h
    have := length_string_le hs
    simp at this
    omega
  · cases h

def bracketedStep (cs : List Char) : Except FilterFault (Step × List Char) :=
  match cs with
  | [] => .error .unclosedIndex
  | c :: rest =>
      if isQuote c then (bracketedName c rest).map fun (name, after) => (.key name, after)
      else (bracketedIndex (c :: rest)).map fun (i, after) => (.index i, after)

theorem length_bracketedStep_le {cs after : List Char} {step : Step}
    (h : bracketedStep cs = .ok (step, after)) : after.length ≤ cs.length := by
  cases cs with
  | nil => cases h
  | cons c rest =>
      simp only [bracketedStep] at h
      split at h
      · obtain ⟨result, hb, he⟩ := map_eq_ok_iff.1 h
        cases he
        exact Nat.le_succ_of_le (length_bracketedName_le hb)
      · obtain ⟨result, hb, he⟩ := map_eq_ok_iff.1 h
        cases he
        exact length_bracketedIndex_le hb

def steps : List Char → Except FilterFault (Location × List Char)
  | [] => .ok ([], [])
  | c :: rest =>
      if c = '.' then
        match rest.takeWhile isFieldCharacter with
        | [] => .error .emptyName
        | name =>
            (steps (rest.dropWhile isFieldCharacter)).map fun (path, after) =>
              (.key (String.ofList name) :: path, after)
      else if c = '[' then
        match _ : bracketedStep rest with
        | .error fault => .error fault
        | .ok (step, more) => (steps more).map fun (path, after) => (step :: path, after)
      else .ok ([], c :: rest)
termination_by cs => cs.length
decreasing_by
  · have := length_dropWhile_le isFieldCharacter rest
    simp only [List.length_cons]
    omega
  · rename_i h
    have := length_bracketedStep_le h
    simp only [List.length_cons]
    omega

theorem length_steps_le {cs after : List Char} {path : Location}
    (h : steps cs = .ok (path, after)) : after.length ≤ cs.length := by
  fun_induction steps cs generalizing path after with
  | case1 => cases h; simp
  | case2 => cases h
  | case3 rest _ ih =>
      obtain ⟨result, hr, he⟩ := map_eq_ok_iff.1 h
      cases he
      have := ih hr
      have := length_dropWhile_le isFieldCharacter rest
      simp only [List.length_cons]
      omega
  | case4 => cases h
  | case5 rest step more hb _ ih =>
      obtain ⟨result, hr, he⟩ := map_eq_ok_iff.1 h
      cases he
      have := ih hr
      have := length_bracketedStep_le hb
      simp only [List.length_cons]
      omega
  | case6 => cases h; simp

def number (c : Char) (rest : List Char) : Except FilterFault (Lexeme × List Char) :=
  let text := c :: rest.takeWhile isNumberCharacter
  match (Numeral.ofText? text).bind Numeral.number? with
  | some n => .ok (.operand (.literal (.number n)), rest.dropWhile isNumberCharacter)
  | none => .error (.invalidNumber (String.ofList text))

def word (name : String) (rest : List Char) : Except FilterFault (Lexeme × List Char) :=
  match name with
  | "true" => .ok (.operand (.literal (.bool true)), rest)
  | "false" => .ok (.operand (.literal (.bool false)), rest)
  | "null" => .ok (.operand (.literal .null), rest)
  | _ =>
      match trimStart rest with
      | '(' :: inner =>
          match name with
          | "all" => .ok (.quantifier .all, inner)
          | "any" => .ok (.quantifier .any, inner)
          | _ =>
              match RecordField.ofName? name with
              | none => .error (.unknownFunction name)
              | some field =>
                  match trimStart inner with
                  | ')' :: after => .ok (.operand (.recordField field), after)
                  | _ => .error (.functionArguments name)
      | _ => .error (.unknownWord name)

def startsNumber (c : Char) (rest : List Char) : Bool :=
  c.isDigit || (c = '-' && (rest.head?.any Char.isDigit))

def next (c : Char) (rest : List Char) : Except FilterFault (Lexeme × List Char) :=
  match c, rest with
  | '(', rest => .ok (.opening, rest)
  | ')', rest => .ok (.closing, rest)
  | ',', rest => .ok (.comma, rest)
  | '&', '&' :: rest => .ok (.and, rest)
  | '|', '|' :: rest => .ok (.or, rest)
  | '=', '=' :: rest => .ok (.compare .eq, rest)
  | '!', '=' :: rest => .ok (.compare .ne, rest)
  | '!', rest => .ok (.not, rest)
  | '<', '=' :: rest => .ok (.compare .le, rest)
  | '<', rest => .ok (.compare .lt, rest)
  | '>', '=' :: rest => .ok (.compare .ge, rest)
  | '>', rest => .ok (.compare .gt, rest)
  | '@', rest => (steps rest).map fun (path, after) => (.operand (.path path), after)
  | c, rest =>
      if isQuote c then
        (string c rest).map fun (text, after) =>
          (.operand (.literal (.string (String.ofList text))), after)
      else if startsNumber c rest then number c rest
      else if c.isAlpha || c = '_' then
        word (String.ofList (c :: rest.takeWhile isWordCharacter)) (rest.dropWhile isWordCharacter)
      else .error (.unexpectedCharacter c)

theorem length_number_le {c : Char} {rest after : List Char} {lexeme : Lexeme}
    (h : number c rest = .ok (lexeme, after)) : after.length ≤ rest.length := by
  simp only [number] at h
  split at h
  · cases h; exact length_dropWhile_le _ _
  · cases h

theorem length_word_le {name : String} {rest after : List Char} {lexeme : Lexeme}
    (h : word name rest = .ok (lexeme, after)) : after.length ≤ rest.length := by
  have trimmed := length_trimStart_le rest
  unfold word at h
  split at h
  · cases h; simp
  · cases h; simp
  · cases h; simp
  · split at h
    · rename_i inner hi
      have trimmedInner := length_trimStart_le inner
      rw [hi, List.length_cons] at trimmed
      split at h
      · cases h; omega
      · cases h; omega
      · split at h
        · cases h
        · split at h
          · rename_i more hm
            cases h
            rw [hm, List.length_cons] at trimmedInner
            omega
          · cases h
    · cases h

theorem length_next_le {c : Char} {rest after : List Char} {lexeme : Lexeme}
    (h : next c rest = .ok (lexeme, after)) : after.length ≤ rest.length := by
  unfold next at h
  split at h
  case h_13 =>
    obtain ⟨result, hs, he⟩ := map_eq_ok_iff.1 h
    cases he
    exact length_steps_le hs
  case h_14 =>
    split at h
    · obtain ⟨result, hs, he⟩ := map_eq_ok_iff.1 h
      cases he
      exact length_string_le hs
    · split at h
      · exact length_number_le h
      · split at h
        · have := length_word_le h
          have := length_dropWhile_le isWordCharacter rest
          omega
        · cases h
  all_goals cases h; simp

def ofText : List Char → Except FilterFault (List Lexeme)
  | [] => .ok []
  | c :: rest =>
      if isBlank c then ofText rest
      else
        match _ : next c rest with
        | .error fault => .error fault
        | .ok (lexeme, after) => (ofText after).map (lexeme :: ·)
termination_by cs => cs.length
decreasing_by
  · simp
  · rename_i h
    have := length_next_le h
    simp only [List.length_cons]
    omega

end Lexeme

end RecordPath
