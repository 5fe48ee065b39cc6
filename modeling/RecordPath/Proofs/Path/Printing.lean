import RecordPath.Proofs.Filter.Trimming
import RecordPath.Proofs.Path.Division

namespace RecordPath

namespace Token

def isSelector : Token → Bool
  | .deepScan => false
  | .function _ => false
  | _ => true

def WellFormed : Token → Prop
  | .key name => Path.IsName name.toList ∧ name ≠ "*"
  | .index i => i < Text.indexBound
  | .filter source predicate =>
      Text.trim source.toList = source.toList ∧ Predicate.ofText source.toList = .ok predicate
  | _ => True

def printed (afterScan : Bool) : Token → List Char
  | .key name => if afterScan then name.toList else (Token.key name).chars
  | .wildcard => if afterScan then ['*'] else Token.wildcard.chars
  | token => token.chars

end Token

namespace Path

structure WellFormed (found : List Token) : Prop where
  tokens : ∀ token ∈ found, token.WellFormed
  scans : ∀ i, found[i]? = some .deepScan →
    ∃ next, found[i + 1]? = some next ∧ next.isSelector = true
  functions : ∀ i f, found[i]? = some (.function f) → i + 1 = found.length

def printedFrom (afterScan : Bool) : List Token → List Char
  | [] => []
  | token :: rest => token.printed afterScan ++ printedFrom token.isDeepScan rest

def printed (found : List Token) : String :=
  rooted (printedFrom false found)

section WellFormed

variable {cs : List Char} {found : List Token} {token : Token}

theorem WellFormed.tail (h : WellFormed (token :: found)) : WellFormed found where
  tokens other ho := h.tokens other (List.mem_cons_of_mem token ho)
  scans i hi := h.scans (i + 1) hi
  functions i f hi := Nat.succ.inj (h.functions (i + 1) f hi)

theorem WellFormed.init (h : WellFormed (found ++ [token]))
    (descent : found.getLast? ≠ some .deepScan) : WellFormed found where
  tokens other ho := h.tokens other (List.mem_append_left _ ho)
  scans i hi := by
    have before := (List.getElem?_eq_some_iff.1 hi).1
    obtain ⟨next, there, selector⟩ := h.scans i (by rw [List.getElem?_append_left before, hi])
    rcases Nat.lt_or_ge (i + 1) found.length with inside | outside
    · rw [List.getElem?_append_left inside] at there
      exact ⟨next, there, selector⟩
    · have last : found.length - 1 = i := by omega
      rw [List.getLast?_eq_getElem?, last, hi] at descent
      exact absurd rfl descent
  functions i f hi := by
    have before := (List.getElem?_eq_some_iff.1 hi).1
    have last := h.functions i f (by rw [List.getElem?_append_left before, hi])
    rw [List.length_append, List.length_singleton] at last
    omega

theorem functionsLast_iff : functionsLast found = true ↔
    ∀ i f, found[i]? = some (.function f) → i + 1 = found.length := by
  fun_induction functionsLast found with
  | case1 => simp
  | case2 token =>
      refine iff_of_true rfl fun i f hi => ?_
      cases i with
      | zero => rfl
      | succ i => cases hi
  | case3 token rest more ih =>
      rw [Bool.and_eq_true, ih]
      constructor
      · rintro ⟨plain, last⟩ i f hi
        cases i with
        | zero =>
            cases hi
            cases plain
        | succ i => exact congrArg Nat.succ (last i f hi)
      · intro last
        refine ⟨?_, fun i f hi => Nat.succ.inj (last (i + 1) f hi)⟩
        cases token with
        | function f =>
            have empty : 0 = rest.length := Nat.succ.inj (last 0 f rfl)
            exact absurd (List.length_eq_zero_iff.1 empty.symm) more
        | _ => rfl

theorem wellFormed_tokenOfName {name : List Char} (h : IsName name) :
    (tokenOfName name).WellFormed := by
  unfold tokenOfName
  split
  · trivial
  · rename_i plain
    refine ⟨by rwa [String.toList_ofList], fun star => plain ?_⟩
    rw [← String.toList_ofList (l := name), star]
    rfl

theorem isSelector_tokenOfName (name : List Char) : (tokenOfName name).isSelector = true := by
  unfold tokenOfName
  split <;> rfl

theorem wellFormed_of_spelled (h : Spelled cs found) : ∀ token ∈ found, token.WellFormed := by
  induction h with
  | nil => exact fun _ hm => absurd hm List.not_mem_nil
  | name hn _ ih => exact List.forall_mem_cons.2 ⟨wellFormed_tokenOfName hn, ih⟩
  | function f _ ih => exact List.forall_mem_cons.2 ⟨trivial, ih⟩
  | index hi _ ih =>
      have bound := (Option.filter_eq_some_iff.1 hi).2
      exact List.forall_mem_cons.2 ⟨by simpa [Token.WellFormed] using bound, ih⟩
  | listWildcard _ ih => exact List.forall_mem_cons.2 ⟨trivial, ih⟩
  | filter _ hp _ ih =>
      refine List.forall_mem_cons.2 ⟨?_, ih⟩
      rw [Token.WellFormed, String.toList_ofList]
      exact ⟨Text.trim_trim _, Predicate.ofText_trim hp⟩
  | deepName hn _ ih =>
      exact List.forall_mem_cons.2 ⟨trivial, List.forall_mem_cons.2 ⟨wellFormed_tokenOfName hn, ih⟩⟩
  | deepBracket _ ih => exact List.forall_mem_cons.2 ⟨trivial, ih⟩

theorem isSelector_of_bracket {rest : List Char} (h : Spelled ('[' :: rest) found) :
    ∃ next, found[0]? = some next ∧ next.isSelector = true := by
  cases h with
  | index => exact ⟨_, rfl, rfl⟩
  | listWildcard => exact ⟨_, rfl, rfl⟩
  | filter => exact ⟨_, rfl, rfl⟩

theorem scans_cons (plain : token.isDeepScan = false)
    (h : ∀ i, found[i]? = some .deepScan →
      ∃ next, found[i + 1]? = some next ∧ next.isSelector = true) (i : Nat)
    (hi : (token :: found)[i]? = some .deepScan) :
    ∃ next, (token :: found)[i + 1]? = some next ∧ next.isSelector = true := by
  cases i with
  | zero =>
      cases hi
      cases plain
  | succ i => exact h i hi

theorem isDeepScan_tokenOfName (name : List Char) : (tokenOfName name).isDeepScan = false := by
  unfold tokenOfName
  split <;> rfl

theorem scans_of_spelled (h : Spelled cs found) : ∀ i, found[i]? = some .deepScan →
    ∃ next, found[i + 1]? = some next ∧ next.isSelector = true := by
  induction h with
  | nil => rintro i ⟨⟩
  | name _ _ ih => exact scans_cons (isDeepScan_tokenOfName _) ih
  | function f _ ih => exact scans_cons rfl ih
  | index _ _ ih => exact scans_cons rfl ih
  | listWildcard _ ih => exact scans_cons rfl ih
  | filter _ _ _ ih => exact scans_cons rfl ih
  | @deepName name _ _ _ _ ih =>
      intro i hi
      cases i with
      | zero => exact ⟨_, rfl, isSelector_tokenOfName name⟩
      | succ i => exact scans_cons (isDeepScan_tokenOfName name) ih i hi
  | deepBracket spelled ih =>
      intro i hi
      cases i with
      | zero => exact isSelector_of_bracket spelled
      | succ i => exact ih i hi

theorem tokenOfName_toList {name : String} (h : name ≠ "*") :
    tokenOfName name.toList = .key name := by
  have plain : name.toList ≠ ['*'] := by
    intro star
    rw [← String.ofList_toList (s := name), star] at h
    exact h rfl
  rw [tokenOfName, if_neg plain, String.ofList_toList]

theorem isName_star : IsName ['*'] :=
  ⟨by decide, List.all_eq_true.1 (by decide)⟩

theorem spelled_cons (h : token.WellFormed) (plain : token.isDeepScan = false)
    (rest : Spelled (printedFrom false found) found) :
    Spelled (printedFrom false (token :: found)) (token :: found) := by
  rw [printedFrom, plain]
  cases token with
  | key name =>
      have spelled := Spelled.name h.1 rest
      rwa [tokenOfName_toList h.2] at spelled
  | index i =>
      have spelled := Spelled.index (Text.index?_natural h) rest
      simpa [Token.printed, Token.chars, Step.chars] using spelled
  | wildcard => exact .name isName_star rest
  | listWildcard => exact .listWildcard rest
  | deepScan => cases plain
  | filter source predicate =>
      have spelled := Spelled.filter (Predicate.closes_of_ofText h.2) h.2 rest
      rw [h.1, String.ofList_toList] at spelled
      simpa [Token.printed, Token.chars] using spelled
  | function f =>
      have spelled := Spelled.function f rest
      simpa [Token.printed, Token.chars] using spelled

theorem spelled_scan (h : token.WellFormed) (selector : token.isSelector = true)
    (rest : Spelled (printedFrom false found) found) :
    Spelled ('.' :: '.' :: printedFrom true (token :: found)) (.deepScan :: token :: found) := by
  cases token with
  | key name =>
      have spelled := Spelled.deepName h.1 rest
      rwa [tokenOfName_toList h.2] at spelled
  | index i => exact .deepBracket (spelled_cons h rfl rest)
  | wildcard => exact .deepName isName_star rest
  | listWildcard => exact .deepBracket (spelled_cons h rfl rest)
  | deepScan => cases selector
  | filter source predicate => exact .deepBracket (spelled_cons h rfl rest)
  | function f => cases selector

theorem spelled_printedFrom : ∀ {found : List Token}, WellFormed found →
    Spelled (printedFrom false found) found
  | [], _ => .nil
  | token :: rest, h => by
      cases scan : token.isDeepScan with
      | false =>
          have token' := h.tokens token List.mem_cons_self
          exact spelled_cons token' scan (spelled_printedFrom h.tail)
      | true =>
          obtain rfl : token = .deepScan := by cases token <;> first | rfl | cases scan
          -- The step after the descent is spelled with it, so the induction goes on behind both.
          obtain ⟨next, first, selector⟩ := h.scans 0 rfl
          cases rest with
          | nil => cases first
          | cons _ rest =>
              cases first
              have next' := h.tail.tokens next List.mem_cons_self
              exact spelled_scan next' selector (spelled_printedFrom h.tail.tail)
termination_by found => found.length

theorem tokenize_printed (h : WellFormed found) : tokenize (printed found) = .ok found :=
  tokenize_rooted (readSteps_eq_ok_iff.2 ⟨spelled_printedFrom h, functionsLast_iff.2 h.functions⟩)

theorem wellFormed_of_tokenize {path : String} (h : tokenize path = .ok found) :
    WellFormed found := by
  obtain ⟨cs, -, hr⟩ := tokenize_eq_ok_iff.1 h
  obtain ⟨spelled, last⟩ := readSteps_eq_ok_iff.1 hr
  exact ⟨wellFormed_of_spelled spelled, scans_of_spelled spelled, functionsLast_iff.1 last⟩

end WellFormed

theorem tokenize_printed_iff_wellFormed :
    (∀ found, tokenize (printed found) = .ok found ↔ WellFormed found) ∧
      ∀ path found, tokenize path = .ok found →
        WellFormed found ∧ tokenize (printed found) = .ok found := by
  refine ⟨fun found => ⟨wellFormed_of_tokenize, tokenize_printed⟩, fun path found h => ?_⟩
  have wellFormed := wellFormed_of_tokenize h
  exact ⟨wellFormed, tokenize_printed wellFormed⟩

theorem wellFormed_quoted_parenthesis :
    let found : List Token :=
      [.deepScan, .wildcard,
        .filter "@.b == '('" (.compare (.path [.key "b"]) .eq (.literal (.string "("))),
        .function .length]
    tokenize "$..*[?( @.b == '(' )].length()" = .ok found ∧
      WellFormed found ∧ tokenize (printed found) = .ok found := by
  have read : tokenize "$..*[?( @.b == '(' )].length()" = .ok
      [.deepScan, .wildcard,
        .filter "@.b == '('" (.compare (.path [.key "b"]) .eq (.literal (.string "("))),
        .function .length] := by
    decide +kernel
  exact ⟨read, tokenize_printed_iff_wellFormed.2 _ _ read⟩

end Path

end RecordPath
