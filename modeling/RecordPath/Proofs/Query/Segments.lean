import RecordPath.Proofs.Path.Printing
import RecordPath.Proofs.Query.Conditions

namespace RecordPath

open Query Text

namespace Token

def selector (record : RecordContext) : Token → Selector
  | .key name => .child (Step.asRead (.key name))
  | .index i => .child (.index i)
  | .filter _ predicate => .filter (predicate.condition record)
  | _ => .all

def inBounds (record : RecordContext) : Token → Bool
  | .index i => (Step.index i).inBounds
  | .filter _ predicate => predicate.inBounds record
  | _ => true

def startsPlain : Token → Bool
  | .key name => (Step.key name).startsPlain
  | .filter _ predicate => predicate.startsPlain
  | _ => true

def isTaken (record : RecordContext) (token : Token) : Bool :=
  token.inBounds record && token.startsPlain

end Token

theorem Residual.function?_eq_none {residual : Residual}
    (h : ∀ f, .function f ∉ residual.tokens) : residual.function? = none := by
  unfold function?
  split
  · rename_i f hf
    exact absurd (List.mem_of_getLast? hf) (h f)
  · rfl

namespace Query

def expression (record : RecordContext) : List Token → Expression
  | [] => []
  | .deepScan :: token :: rest => ⟨true, token.selector record⟩ :: expression record rest
  | .function _ :: rest => expression record rest
  | token :: rest => ⟨false, token.selector record⟩ :: expression record rest

end Query

section Selectors

variable {record : RecordContext} {name : String} {cs rest : List Char} {token : Token}

theorem readDotted?_name (bare : Path.isBare name.toList = true) (ends : EndsName rest) :
    readDotted? (name.toList ++ rest) =
      if (Token.key name).isTaken record = true then
        some ((Token.key name).selector record, rest)
      else none := by
  have written : (Step.key name).written = .bare name.toList := by simp [Step.written, bare]
  unfold readDotted?
  split
  · rename_i more hm
    cases hn : name.toList with
    | nil =>
        rw [hn] at bare
        cases bare
    | cons c cs =>
        rw [hn] at hm bare
        cases hm
        cases bare
  · simp only [readBare?_of_isBare bare ends, ← written, Step.written_step?, Token.isTaken,
      Token.inBounds, Token.startsPlain, Bool.true_and]
    cases (Step.key name).startsPlain <;> rfl

theorem readBracketedSelector?_step (star : cs.head? ≠ some '*') (filter : cs.head? ≠ some '?') :
    readBracketedSelector? cs =
      match readBracketed? cs with
      | none => none
      | some (step, after) => step.step?.map fun step => (.child step, after) := by
  unfold readBracketedSelector?
  split
  · exact absurd rfl star
  · exact absurd rfl filter
  · rfl

theorem readBracketedSelector?_quoted (name rest : List Char) :
    readBracketedSelector? (quotedByNumber '\x27' name ++ ']' :: rest) =
      some (.child (.key (String.ofList name)), rest) := by
  rw [readBracketedSelector?_step (by rintro ⟨⟩) (by rintro ⟨⟩), readBracketed?_quoted]
  rfl

theorem readBracketedSelector?_natural (i : Nat) (rest : List Char) :
    readBracketedSelector? (natural i ++ ']' :: rest) =
      if (Step.index i).inBounds = true then some (.child (.index i), rest) else none := by
  have digit := isDigit_head?_natural i (']' :: rest)
  rw [readBracketedSelector?_step (fun star => by cases digit '*' star)
    (fun filter => by cases digit '?' filter), readBracketed?_natural]
  cases (Step.index i).inBounds <;> rfl

theorem readBracketedSelector?_filter {p : Predicate} (reads : p.ReadsBack record) :
    readBracketedSelector? ('?' :: '(' :: (p.chars record ++ ')' :: ']' :: rest)) =
      if p.isTaken record = true then some (.filter (p.condition record), rest) else none := by
  simp only [readBracketedSelector?, reads rest]
  cases p.isTaken record <;> rfl

theorem readBracketedSelector?_query (selector : token.isSelector = true)
    (filters : ∀ source p, token = .filter source p → p.ReadsBack record)
    (opens : token.query record true = '[' :: cs) :
    readBracketedSelector? (cs ++ rest) =
      if token.isTaken record = true then some (token.selector record, rest) else none := by
  cases token with
  | key name =>
      cases bare : Path.isBare name.toList with
      | true =>
          simp only [Token.query, bare, if_true] at opens
          rw [opens] at bare
          cases bare
      | false =>
          have text : cs = quotedByNumber '\x27' name.toList ++ [']'] := by
            simpa [Token.query, bare, Path.bracketed] using opens.symm
          rw [text, List.append_assoc, List.singleton_append, readBracketedSelector?_quoted]
          simp [Token.selector, Token.isTaken, Token.inBounds, Token.startsPlain, Step.startsPlain,
            Step.asRead, Step.nameAsRead, bare]
  | index i =>
      have text : cs = natural i ++ [']'] := (List.cons.inj opens).2.symm
      rw [text, List.append_assoc, List.singleton_append, readBracketedSelector?_natural]
      simp only [Token.isTaken, Token.inBounds, Token.startsPlain, Bool.and_true]
      rfl
  | wildcard => cases opens
  | listWildcard =>
      cases opens
      rfl
  | deepScan => cases selector
  | filter source p =>
      have text : cs = '?' :: '(' :: (p.chars record ++ [')', ']']) := by
        simpa [Token.query] using opens.symm
      have regroup : cs ++ rest = '?' :: '(' :: (p.chars record ++ ')' :: ']' :: rest) := by
        simp [text]
      rw [regroup]
      exact readBracketedSelector?_filter (filters source p rfl)
  | function f => cases selector

theorem query_cases (record : RecordContext) (selector : token.isSelector = true) :
    (∃ cs, token.query record true = '[' :: cs ∧ token.query record false = '[' :: cs) ∨
    ∃ c cs, c ≠ '.' ∧ c ≠ '[' ∧ token.query record true = c :: cs ∧
      token.query record false = '.' :: c :: cs ∧
      ∀ rest, EndsName rest → readDotted? (c :: cs ++ rest) =
        if token.isTaken record = true then some (token.selector record, rest) else none := by
  cases token with
  | key name =>
      cases bare : Path.isBare name.toList with
      | true =>
          cases hn : name.toList with
          | nil =>
              rw [hn] at bare
              cases bare
          | cons c cs =>
              have first := isBareCharacter_of_isBare bare c (by rw [hn]; exact List.mem_cons_self)
              refine .inr ⟨c, cs, ?_, ?_, ?_, ?_, fun rest ends => ?_⟩
              · rintro rfl
                cases first
              · rintro rfl
                cases first
              · rw [Token.query, if_pos bare, if_pos rfl, hn]
              · rw [Token.query, if_pos bare, if_neg Bool.false_ne_true, hn]
              · rw [← hn]
                exact readDotted?_name bare ends
      | false =>
          refine .inl ⟨quotedByNumber '\x27' name.toList ++ [']'], ?_, ?_⟩ <;>
            simp [Token.query, bare, Path.bracketed]
  | index i => exact .inl ⟨_, rfl, rfl⟩
  | wildcard => exact .inr ⟨'*', [], by decide, by decide, rfl, rfl, fun rest _ => rfl⟩
  | listWildcard => exact .inl ⟨_, rfl, rfl⟩
  | deepScan => cases selector
  | filter source p => exact .inl ⟨_, rfl, rfl⟩
  | function f => cases selector

theorem readSegment?_dot {c : Char} (h : c ≠ '.') : readSegment? ('.' :: c :: cs) =
    (readDotted? (c :: cs)).map fun (selector, after) => (⟨false, selector⟩, after) := by
  rw [readSegment?]
  · rintro rest ⟨⟩
    exact h rfl
  · rintro rest ⟨⟩
    exact h rfl

theorem readSegment?_dots {c : Char} (h : c ≠ '[') : readSegment? ('.' :: '.' :: c :: cs) =
    (readDotted? (c :: cs)).map fun (selector, after) => (⟨true, selector⟩, after) := by
  rw [readSegment?]
  rintro rest ⟨⟩
  exact h rfl

theorem readSegment?_query (selector : token.isSelector = true)
    (filters : ∀ source p, token = .filter source p → p.ReadsBack record) (ends : EndsName rest) :
    readSegment? (token.query record false ++ rest) =
      if token.isTaken record = true then some (⟨false, token.selector record⟩, rest)
      else none := by
  rcases query_cases record selector with ⟨cs, deep, flat⟩ | ⟨c, cs, dot, _, _, flat, dotted⟩
  · rw [flat, List.cons_append]
    simp only [readSegment?, readBracketedSelector?_query selector filters deep]
    cases token.isTaken record <;> rfl
  · have read := dotted rest ends
    rw [List.cons_append] at read
    rw [flat, List.cons_append, List.cons_append, readSegment?_dot dot, read]
    cases token.isTaken record <;> rfl

theorem readSegment?_deep_query (selector : token.isSelector = true)
    (filters : ∀ source p, token = .filter source p → p.ReadsBack record) (ends : EndsName rest) :
    readSegment? ('.' :: '.' :: (token.query record true ++ rest)) =
      if token.isTaken record = true then some (⟨true, token.selector record⟩, rest)
      else none := by
  rcases query_cases record selector with ⟨cs, deep, flat⟩ | ⟨c, cs, _, opening, deep, _, dotted⟩
  · rw [deep, List.cons_append]
    simp only [readSegment?, readBracketedSelector?_query selector filters deep]
    cases token.isTaken record <;> rfl
  · have read := dotted rest ends
    rw [List.cons_append] at read
    rw [deep, List.cons_append, readSegment?_dots opening, read]
    cases token.isTaken record <;> rfl

end Selectors

namespace Query

variable {record : RecordContext} {cs : List Char} {fuel : Nat} {found : List Token}
  {query : Expression} {token : Token}

theorem readSegments?_next {segment : Segment} {after : List Char} {taken others : Bool}
    (nonempty : cs ≠ [])
    (first : readSegment? cs = if taken = true then some (segment, after) else none)
    (more : readSegments? fuel after = if others = true then some query else none) :
    readSegments? (fuel + 1) cs =
      if (taken && others) = true then some (segment :: query) else none := by
  cases cs with
  | nil => exact absurd rfl nonempty
  | cons c cs => cases taken <;> cases others <;> simp [readSegments?, first, more]

theorem readSegments?_refused (fuel : Nat) (nonempty : cs ≠ []) (first : readSegment? cs = none) :
    readSegments? fuel cs = none := by
  cases cs with
  | nil => exact absurd rfl nonempty
  | cons c cs =>
      cases fuel with
      | zero => rfl
      | succ fuel => simp [readSegments?, first]

theorem endsName_renderFrom (found : List Token) : EndsName (renderFrom record false found) := by
  induction found with
  | nil => rintro c ⟨⟩
  | cons token rest ih =>
      rw [renderFrom]
      cases token with
      | key name =>
          rw [Token.query]
          split
          · rintro c ⟨⟩
            decide
          · rintro c ⟨⟩
            decide
      | function f => exact ih
      | _ =>
          rintro c ⟨⟩
          decide

theorem isSelector_of_plain (scan : token.isDeepScan = false) (plain : token.isFunction = false) :
    token.isSelector = true := by
  cases token with
  | deepScan => cases scan
  | function f => cases plain
  | _ => rfl

theorem isDeepScan_of_isSelector (selector : token.isSelector = true) :
    token.isDeepScan = false := by
  cases token <;> first | rfl | cases selector

theorem expression_cons (selector : token.isSelector = true) (found : List Token) :
    expression record (token :: found) =
      ⟨false, token.selector record⟩ :: expression record found := by
  cases token <;> first | rfl | cases selector

theorem exists_token_of_mem_expression {segment : Segment}
    (h : segment ∈ expression record found) :
    ∃ token ∈ found, segment.selector = token.selector record := by
  fun_induction expression record found with
  | case1 => cases h
  | case2 token rest ih =>
      rcases List.mem_cons.1 h with rfl | more
      · exact ⟨token, List.mem_cons_of_mem _ List.mem_cons_self, rfl⟩
      · obtain ⟨other, ho, same⟩ := ih more
        exact ⟨other, List.mem_cons_of_mem _ (List.mem_cons_of_mem _ ho), same⟩
  | case3 f rest ih =>
      obtain ⟨other, ho, same⟩ := ih h
      exact ⟨other, List.mem_cons_of_mem _ ho, same⟩
  | case4 token rest _ _ ih =>
      rcases List.mem_cons.1 h with rfl | more
      · exact ⟨token, List.mem_cons_self, rfl⟩
      · obtain ⟨other, ho, same⟩ := ih more
        exact ⟨other, List.mem_cons_of_mem _ ho, same⟩

theorem expression_ne_nil (nonempty : found ≠ []) (plain : ∀ f, .function f ∉ found) :
    expression record found ≠ [] := by
  fun_cases expression record found with
  | case1 => exact absurd rfl nonempty
  | case2 token rest => exact List.cons_ne_nil _ _
  | case3 f rest => exact absurd List.mem_cons_self (plain f)
  | case4 token rest => exact List.cons_ne_nil _ _

theorem expression_concat (descent : found.getLast? ≠ some .deepScan)
    (selector : token.isSelector = true) :
    expression record (found ++ [token]) =
      expression record found ++ [⟨false, token.selector record⟩] := by
  have inner {first : Token} {rest : List Token}
      (h : (first :: rest).getLast? ≠ some .deepScan) : rest.getLast? ≠ some .deepScan := by
    intro descent
    rw [List.getLast?_cons, descent] at h
    exact h rfl
  fun_induction expression record found with
  | case1 => exact expression_cons selector []
  | case2 next rest ih =>
      rw [List.cons_append, List.cons_append, expression, ih (inner (inner descent)),
        List.cons_append]
  | case3 f rest ih => rw [List.cons_append, expression, ih (inner descent)]
  | case4 next rest scan plain ih =>
      have first : next.isSelector = true := by
        cases next with
        | deepScan =>
            cases rest with
            | nil => exact absurd rfl descent
            | cons second rest => exact absurd rfl (scan second rest rfl)
        | function f => exact absurd rfl (plain f)
        | _ => rfl
      rw [List.cons_append, expression_cons first, ih (inner descent), List.cons_append]

theorem query_ne_nil (record : RecordContext) (selector : token.isSelector = true) :
    token.query record false ≠ [] := by
  rcases query_cases record selector with ⟨cs, -, flat⟩ | ⟨c, cs, -, -, -, flat, -⟩ <;>
    simp [flat]

theorem readSegment?_of_not_isSelector {rest : List Token}
    (functions : ∀ i f, (token :: rest)[i]? = some (.function f) → i + 1 = (token :: rest).length)
    (selector : token.isSelector = false) :
    readSegment? ('.' :: '.' :: renderFrom record true (token :: rest)) = none := by
  cases token with
  | deepScan => rfl
  | function f =>
      have length : 0 = rest.length := Nat.succ.inj (functions 0 f rfl)
      obtain rfl := List.length_eq_zero_iff.1 length.symm
      rfl
  | _ => cases selector

def scansSelect : List Token → Bool
  | [] => true
  | token :: rest => (!token.isDeepScan || rest.head?.any Token.isSelector) && scansSelect rest

theorem scansSelect_of_scans (scans : ∀ i, found[i]? = some .deepScan →
    ∃ next, found[i + 1]? = some next ∧ next.isSelector = true) : scansSelect found = true := by
  induction found with
  | nil => rfl
  | cons token rest ih =>
      rw [scansSelect, ih fun i hi => scans (i + 1) hi, Bool.and_true]
      cases token with
      | deepScan =>
          obtain ⟨next, first, selector⟩ := scans 0 rfl
          rw [List.getElem?_cons_succ, ← List.head?_eq_getElem?] at first
          rw [first]
          exact selector
      | _ => rfl

def isTaken (record : RecordContext) (found : List Token) : Bool :=
  scansSelect found && found.all (Token.isTaken record)

theorem isTaken_cons (scan : token.isDeepScan = false) (rest : List Token) :
    isTaken record (token :: rest) = (token.isTaken record && isTaken record rest) := by
  simp only [isTaken, scansSelect, scan, Bool.not_false, Bool.true_or, Bool.true_and,
    List.all_cons, Bool.and_left_comm]

theorem isTaken_scan (selector : token.isSelector = true) (rest : List Token) :
    isTaken record (.deepScan :: token :: rest) =
      (token.isTaken record && isTaken record rest) := by
  have scan : (Token.deepScan).isTaken record = true := rfl
  rw [← isTaken_cons (isDeepScan_of_isSelector selector)]
  simp only [isTaken, scansSelect, List.head?_cons, Option.any_some, selector, Bool.or_true,
    Bool.true_and, List.all_cons, scan]

-- A path is read as what the query takes it for, if the query takes it.
def ReadsSegments (record : RecordContext) (found : List Token) : Prop :=
  ∀ fuel, (renderFrom record false found).length ≤ fuel →
    readSegments? fuel (renderFrom record false found) =
      if isTaken record found = true then some (expression record found) else none

variable {rest : List Token}

theorem readsSegments_function
    (functions : ∀ i f, (token :: rest)[i]? = some (.function f) → i + 1 = (token :: rest).length)
    (plain : token.isFunction = true) : ReadsSegments record (token :: rest) := by
  cases token with
  | function f =>
      have length : 0 = rest.length := Nat.succ.inj (functions 0 f rfl)
      obtain rfl := List.length_eq_zero_iff.1 length.symm
      intro fuel enough
      cases fuel <;> rfl
  | _ => cases plain

theorem readsSegments_step (selector : token.isSelector = true)
    (filter : ∀ source p, token = .filter source p → p.ReadsBack record)
    (others : ReadsSegments record rest) : ReadsSegments record (token :: rest) := by
  intro fuel enough
  have scan := isDeepScan_of_isSelector selector
  have selected := query_ne_nil record selector
  have nonempty := List.append_ne_nil_of_left_ne_nil selected (renderFrom record false rest)
  have least := List.length_pos_of_ne_nil selected
  rw [renderFrom, scan] at enough ⊢
  rw [List.length_append] at enough
  obtain ⟨fuel, rfl⟩ := Nat.exists_eq_add_of_le' (show 1 ≤ fuel by omega)
  have more := others fuel (by omega)
  rw [isTaken_cons scan, expression_cons selector]
  exact readSegments?_next nonempty
    (readSegment?_query selector filter (endsName_renderFrom rest)) more

theorem readsSegments_scan (selector : token.isSelector = true)
    (filter : ∀ source p, token = .filter source p → p.ReadsBack record)
    (others : ReadsSegments record rest) : ReadsSegments record (.deepScan :: token :: rest) := by
  intro fuel enough
  have nonempty : renderFrom record false (.deepScan :: token :: rest) ≠ [] := by rintro ⟨⟩
  rw [renderFrom, renderFrom, Token.isDeepScan, isDeepScan_of_isSelector selector]
    at enough nonempty ⊢
  simp only [Token.query, List.length_append, List.length_cons] at enough
  obtain ⟨fuel, rfl⟩ := Nat.exists_eq_add_of_le' (show 1 ≤ fuel by omega)
  have more := others fuel (by omega)
  rw [isTaken_scan selector, expression]
  exact readSegments?_next nonempty
    (readSegment?_deep_query selector filter (endsName_renderFrom rest)) more

theorem readsSegments_scan_refused
    (functions : ∀ i f, rest[i]? = some (.function f) → i + 1 = rest.length)
    (unselective : rest.head?.any Token.isSelector = false) :
    ReadsSegments record (.deepScan :: rest) := by
  intro fuel _
  have nonempty : renderFrom record false (.deepScan :: rest) ≠ [] := by rintro ⟨⟩
  have refused : readSegment? (renderFrom record false (.deepScan :: rest)) = none := by
    cases rest with
    | nil => rfl
    | cons token rest => exact readSegment?_of_not_isSelector functions unselective
  rw [readSegments?_refused fuel nonempty refused, isTaken, scansSelect, unselective]
  rfl

-- Not by induction on the path: a descent and the step after it make one segment.
theorem readsSegments : ∀ {found : List Token},
    (∀ i f, found[i]? = some (.function f) → i + 1 = found.length) →
    (∀ source p, .filter source p ∈ found → p.ReadsBack record) → ReadsSegments record found
  | [], _, _ => fun fuel _ => by
      cases fuel <;> rfl
  | token :: rest, functions, filters => by
      have first : ∀ source p, token = .filter source p → p.ReadsBack record :=
        fun source p hp => filters source p (by rw [hp]; exact List.mem_cons_self)
      have others : ∀ i f, rest[i]? = some (.function f) → i + 1 = rest.length :=
        fun i f hi => Nat.succ.inj (functions (i + 1) f hi)
      have inner : ∀ source p, .filter source p ∈ rest → p.ReadsBack record :=
        fun source p hp => filters source p (List.mem_cons_of_mem _ hp)
      cases plain : token.isFunction with
      | true => exact readsSegments_function functions plain
      | false =>
          cases scan : token.isDeepScan with
          | false =>
              exact readsSegments_step (isSelector_of_plain scan plain) first
                (readsSegments others inner)
          | true =>
              obtain rfl : token = .deepScan := by cases token <;> first | rfl | cases scan
              cases selector : rest.head?.any Token.isSelector with
              | false => exact readsSegments_scan_refused others selector
              | true =>
                  cases rest with
                  | nil => cases selector
                  | cons next rest =>
                      exact readsSegments_scan selector
                        (fun source p hp => inner source p (by rw [hp]; exact List.mem_cons_self))
                        (readsSegments (fun i f hi => Nat.succ.inj (others (i + 1) f hi))
                          fun source p hp => inner source p (List.mem_cons_of_mem _ hp))
termination_by found => found.length

theorem ofText?_render (functions : ∀ i f, found[i]? = some (.function f) → i + 1 = found.length)
    (filters : ∀ source p, .filter source p ∈ found → p.ReadsBack record) :
    Expression.ofText? (render record found) =
      if nesting 0 none (render record found) ≤ nestingBound ∧ isTaken record found = true then
        some (expression record found)
      else none := by
  have read := readsSegments functions filters _ (Nat.le_refl _)
  by_cases bound : nesting 0 none (render record found) ≤ nestingBound
  · simp only [Expression.ofText?, bound, true_and]
    exact read
  · simp only [Expression.ofText?, bound, false_and, if_false]

theorem expression_of_ofText?
    (functions : ∀ i f, found[i]? = some (.function f) → i + 1 = found.length)
    (filters : ∀ source p, .filter source p ∈ found → p.ReadsBack record)
    (h : Expression.ofText? (render record found) = some query) :
    query = expression record found := by
  rw [ofText?_render functions filters] at h
  split at h
  · exact (Option.some.inj h).symm
  · cases h

end Query

end RecordPath
