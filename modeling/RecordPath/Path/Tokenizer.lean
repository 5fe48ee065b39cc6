import RecordPath.Error
import RecordPath.Filter.Parser

namespace RecordPath

namespace Path

open Text

def isNameCharacter (c : Char) : Bool :=
  !(c = '.' || c = '[' || c = ']' || c = '(' || c = ')')

def tokenOfName (name : List Char) : Token :=
  if name = ['*'] then .wildcard else .key (String.ofList name)

/-- The step after a dot, and what follows it; `size` is the length of the whole path. -/
def member (size : Nat) (cs : List Char) : Except PathFault (Token × List Char) :=
  let name := cs.takeWhile isNameCharacter
  if name = [] then .error (.emptySegment (size - cs.length))
  else
    match cs.dropWhile isNameCharacter with
    | '(' :: ')' :: after =>
        match AggregateFunction.ofName? (String.ofList name) with
        | some function => .ok (.function function, after)
        | none => .error (.unknownFunction (String.ofList name))
    | '(' :: _ => .error (.functionArguments (String.ofList name))
    | after => .ok (tokenOfName name, after)

theorem length_member_le {size : Nat} {cs after : List Char} {token : Token}
    (h : member size cs = .ok (token, after)) : after.length ≤ cs.length := by
  have := length_dropWhile_le isNameCharacter cs
  simp only [member] at h
  split at h
  · cases h
  · split at h
    · rename_i rest hd
      rw [hd] at this
      split at h
      · cases h
        simp only [List.length_cons] at this
        omega
      · cases h
    · cases h
    · cases h
      exact this

def keep (c : Char) : List Char × List Char → List Char × List Char
  | (inside, after) => (c :: inside, after)

/-- The text up to the parenthesis that closes an open one with `depth` more open inside it, and
what follows it. Parentheses in quotes do not count, nor does a character after a backslash there
end the quote. -/
def splitParenthesis : Nat → Option Char → List Char → Option (List Char × List Char)
  | _, _, [] => none
  | _, some _, ['\\'] => none
  | depth, some quote, '\\' :: c :: rest =>
      (splitParenthesis depth (some quote) rest).map fun split => keep '\\' (keep c split)
  | depth, some quote, c :: rest =>
      (splitParenthesis depth (if c = quote then none else some quote) rest).map (keep c)
  | depth, none, c :: rest =>
      if Lexeme.isQuote c then (splitParenthesis depth (some c) rest).map (keep c)
      else if c = '(' then (splitParenthesis (depth + 1) none rest).map (keep c)
      else if c = ')' then
        match depth with
        | 0 => some ([], rest)
        | depth + 1 => (splitParenthesis depth none rest).map (keep c)
      else (splitParenthesis depth none rest).map (keep c)

theorem length_splitParenthesis_lt {depth : Nat} {quote : Option Char}
    {cs inside after : List Char} (h : splitParenthesis depth quote cs = some (inside, after)) :
    after.length < cs.length := by
  fun_induction splitParenthesis depth quote cs generalizing inside after with
  | case1 => cases h
  | case2 => cases h
  | case3 depth quote c rest ih =>
      obtain ⟨split, hs, he⟩ := Option.map_eq_some_iff.1 h
      cases he
      have := ih hs
      simp only [List.length_cons]
      omega
  | case4 depth quote c rest _ _ ih =>
      obtain ⟨split, hs, he⟩ := Option.map_eq_some_iff.1 h
      cases he
      exact Nat.lt_succ_of_lt (ih hs)
  | case5 depth c rest _ ih =>
      obtain ⟨split, hs, he⟩ := Option.map_eq_some_iff.1 h
      cases he
      exact Nat.lt_succ_of_lt (ih hs)
  | case6 depth rest _ ih =>
      obtain ⟨split, hs, he⟩ := Option.map_eq_some_iff.1 h
      cases he
      exact Nat.lt_succ_of_lt (ih hs)
  | case7 => cases h; simp
  | case8 rest _ _ depth ih =>
      obtain ⟨split, hs, he⟩ := Option.map_eq_some_iff.1 h
      cases he
      exact Nat.lt_succ_of_lt (ih hs)
  | case9 depth c rest _ _ _ ih =>
      obtain ⟨split, hs, he⟩ := Option.map_eq_some_iff.1 h
      cases he
      exact Nat.lt_succ_of_lt (ih hs)

def filter (cs : List Char) : Except PathFault (Token × List Char) :=
  match cs with
  | '(' :: rest =>
      match splitParenthesis 0 none rest with
      | none => .error .unclosedFilter
      | some (inside, ']' :: after) =>
          match Predicate.ofText inside with
          | .error fault => .error (.filter fault)
          | .ok predicate => .ok (.filter (String.ofList (trim inside)) predicate, after)
      | some _ => .error .filterClosing
  | _ => .error .filterOpening

theorem length_filter_le {cs after : List Char} {token : Token}
    (h : filter cs = .ok (token, after)) : after.length ≤ cs.length := by
  unfold filter at h
  split at h
  · split at h
    · cases h
    · rename_i hs
      have := length_splitParenthesis_lt hs
      split at h
      · cases h
      · cases h
        simp only [List.length_cons] at this ⊢
        omega
    · cases h
  · cases h

def bracket (size : Nat) (cs : List Char) : Except PathFault (Token × List Char) :=
  match cs with
  | '?' :: rest => filter rest
  | _ =>
      let content := cs.takeWhile (· != ']')
      match cs.dropWhile (· != ']') with
      | [] => .error (.unclosedBracket (size - cs.length - 1))
      | _ :: after =>
          if content = ['*'] then .ok (.listWildcard, after)
          else
            match index? content with
            | some i => .ok (.index i, after)
            | none => .error (.invalidIndex (String.ofList content))

theorem length_bracket_le {size : Nat} {cs after : List Char} {token : Token}
    (h : bracket size cs = .ok (token, after)) : after.length ≤ cs.length := by
  unfold bracket at h
  split at h
  · exact Nat.le_succ_of_le (length_filter_le h)
  · have := length_dropWhile_le (· != ']') cs
    simp only at h
    split at h
    · cases h
    · rename_i hd
      rw [hd, List.length_cons] at this
      split at h
      · cases h; omega
      · split at h
        · cases h; omega
        · cases h

def tokens (size : Nat) : List Char → Except PathFault (List Token)
  | [] => .ok []
  | '.' :: '.' :: rest =>
      match rest with
      | '[' :: more => (tokens size ('[' :: more)).map (.deepScan :: ·)
      | c :: more =>
          if isNameCharacter c then
            match _ : member size (c :: more) with
            | .error fault => .error fault
            | .ok (token, after) =>
                if token.isFunction then .error .functionAfterScan
                else (tokens size after).map fun rest => .deepScan :: token :: rest
          else .error .scanWithoutStep
      | [] => .error .scanWithoutStep
  | '.' :: rest =>
      match _ : member size rest with
      | .error fault => .error fault
      | .ok (token, after) => (tokens size after).map (token :: ·)
  | '[' :: rest =>
      match _ : bracket size rest with
      | .error fault => .error fault
      | .ok (token, after) => (tokens size after).map (token :: ·)
  | c :: rest => .error (.unexpectedCharacter c (size - (rest.length + 1)))
termination_by cs => cs.length
decreasing_by
  · simp
  · rename_i h _
    have := length_member_le h
    simp only [List.length_cons] at *
    omega
  · rename_i h
    have := length_member_le h
    simp only [List.length_cons]
    omega
  · rename_i h
    have := length_bracket_le h
    simp only [List.length_cons]
    omega

def functionsLast : List Token → Bool
  | [] => true
  | [_] => true
  | token :: rest => !token.isFunction && functionsLast rest

def readSteps (cs : List Char) : Except PathFault (List Token) :=
  match tokens (cs.length + 1) cs with
  | .error fault => .error fault
  | .ok steps => if functionsLast steps then .ok steps else .error .functionNotLast

def tokenize (path : String) : Except DocumentError (List Token) :=
  match path.toList with
  | '$' :: rest =>
      match readSteps rest with
      | .error fault => .error (.pathFormat path fault)
      | .ok steps => .ok steps
  | _ => .error (.rootMissing path)

end Path

end RecordPath
