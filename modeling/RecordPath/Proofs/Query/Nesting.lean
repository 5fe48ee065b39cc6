import RecordPath.Proofs.Query.Conditions

namespace RecordPath

namespace Step

def nesting : Step → Nat
  | .key name => if Path.isBare name.toList then 0 else 1
  | .index _ => 1

end Step

def Location.nesting (steps : Location) : Nat :=
  steps.foldr (fun step deepest => max step.nesting deepest) 0

namespace Operand

def nesting : Operand → Nat
  | .path steps => steps.nesting
  | _ => 0

end Operand

namespace Predicate

def nesting : Predicate → Nat
  | .compare left _ right => max left.nesting right.nesting
  | .present path => path.nesting
  | .not inner => nesting inner + 1
  | .and left right => max (nesting left) (nesting right) + 1
  | .or left right => max (nesting left) (nesting right) + 1
  | .quantified .any path condition => max path.nesting (nesting condition + 1)
  | .quantified .all path condition => max path.nesting (nesting condition + 2)

end Predicate

namespace Token

def nesting : Token → Nat
  | .key name => (Step.key name).nesting
  | .index _ => 1
  | .listWildcard => 1
  | .filter _ predicate => predicate.nesting + 2
  | _ => 0

end Token

namespace Query

open Text

variable {depth deep deeper : Nat} {c quote opening closing : Char} {cs ds rest : List Char}
  {numeral : Numeral}

def Nests (deep : Nat) (cs : List Char) : Prop :=
  ∀ depth rest, nesting depth none (cs ++ rest) = max (depth + deep) (nesting depth none rest)

theorem le_nesting (depth : Nat) (quote : Option Char) (cs : List Char) :
    depth ≤ nesting depth quote cs := by
  fun_induction nesting depth quote cs with
  | case1 | case2 => exact Nat.le_refl _
  | case3 _ _ _ _ ih | case4 _ _ _ _ _ ih | case5 _ _ _ _ ih | case8 _ _ _ _ _ _ ih => exact ih
  | case6 | case7 => exact Nat.le_max_left _ _

theorem nests_nil : Nests 0 [] :=
  fun depth rest => (Nat.max_eq_right (le_nesting depth none rest)).symm

theorem Nests.append (front : Nests deep cs) (back : Nests deeper ds) :
    Nests (max deep deeper) (cs ++ ds) := by
  intro depth rest
  rw [List.append_assoc, front, back]
  omega

theorem Nests.enclosed (inner : Nests deep cs)
    (pair : opening = '(' ∧ closing = ')' ∨ opening = '[' ∧ closing = ']') :
    Nests (deep + 1) (opening :: (cs ++ [closing])) := by
  intro depth rest
  have least := le_nesting depth none rest
  have text : opening :: (cs ++ [closing]) ++ rest = opening :: (cs ++ closing :: rest) := by simp
  have opened : nesting depth none (opening :: (cs ++ closing :: rest)) =
      max depth (nesting (depth + 1) none (cs ++ closing :: rest)) := by
    rcases pair with ⟨rfl, rfl⟩ | ⟨rfl, rfl⟩ <;> rfl
  have closed : nesting (depth + 1) none (closing :: rest) =
      max (depth + 1) (nesting depth none rest) := by
    rcases pair with ⟨rfl, rfl⟩ | ⟨rfl, rfl⟩ <;> rfl
  rw [text, opened, inner, closed]
  omega

def isFlat (c : Char) : Bool :=
  !(['\x27', '\x22', '(', '[', ')', ']'].contains c)

theorem nesting_cons_of_isFlat (flat : isFlat c = true) (depth : Nat) (rest : List Char) :
    nesting depth none (c :: rest) = nesting depth none rest := by
  simp only [isFlat, Bool.not_eq_true', List.contains_eq_mem, decide_eq_false_iff_not,
    List.mem_cons, List.not_mem_nil, or_false, not_or] at flat
  obtain ⟨single, double, group, list, groupEnd, listEnd⟩ := flat
  rw [nesting, if_neg (not_or.2 ⟨single, double⟩), if_neg (not_or.2 ⟨group, list⟩),
    if_neg (not_or.2 ⟨groupEnd, listEnd⟩)]

theorem Nests.cons (c : Char) (flat : isFlat c = true) (back : Nests deep cs) :
    Nests deep (c :: cs) := by
  intro depth rest
  rw [List.cons_append, nesting_cons_of_isFlat flat, back]

theorem nests_flat (flat : cs.all isFlat = true) : Nests 0 cs := by
  induction cs with
  | nil => exact nests_nil
  | cons c cs ih =>
      rw [List.all_cons, Bool.and_eq_true] at flat
      exact (ih flat.2).cons c flat.1

theorem Nests.joined {sign : List Char} (left : Nests deep cs) (flat : sign.all isFlat = true)
    (right : Nests deeper ds) :
    Nests (max deep deeper + 1) ('(' :: cs ++ sign ++ ds ++ [')']) := by
  have inner := left.append ((nests_flat flat).append right)
  rw [Nat.zero_max] at inner
  simpa using inner.enclosed (.inl ⟨rfl, rfl⟩)

section Quoted

theorem nesting_quoted_cons (unquoted : c ≠ quote) (plain : c ≠ '\\') :
    nesting depth (some quote) (c :: rest) = nesting depth (some quote) rest := by
  rw [nesting]
  · rw [if_neg unquoted]
  · exact plain

theorem nesting_controlEscape (hq : quote = '\x27' ∨ quote = '\x22') :
    nesting depth (some quote) (controlEscape c ++ rest) = nesting depth (some quote) rest := by
  have digit (n : Nat) : hexDigit n ≠ quote ∧ hexDigit n ≠ '\\' := by
    have all : ∀ d < 16, Nat.digitChar d ≠ '\x27' ∧ Nat.digitChar d ≠ '\x22' ∧
        Nat.digitChar d ≠ '\\' := by decide
    obtain ⟨single, double, plain⟩ := all (n % 16) (Nat.mod_lt n (by decide))
    rcases hq with rfl | rfl
    · exact ⟨single, plain⟩
    · exact ⟨double, plain⟩
  simp only [controlEscape, fourHex, List.cons_append, List.nil_append]
  rw [nesting, nesting_quoted_cons (digit _).1 (digit _).2,
    nesting_quoted_cons (digit _).1 (digit _).2, nesting_quoted_cons (digit _).1 (digit _).2,
    nesting_quoted_cons (digit _).1 (digit _).2]

theorem nesting_escapeByNumber (hq : quote = '\x27' ∨ quote = '\x22') :
    nesting depth (some quote) (escapeByNumber quote c ++ rest) =
      nesting depth (some quote) rest := by
  unfold escapeByNumber
  split
  · rfl
  · rename_i special
    obtain ⟨unquoted, plain⟩ := not_or.1 special
    split
    · exact nesting_controlEscape hq
    · exact nesting_quoted_cons unquoted plain

theorem nesting_escape (hq : quote = '\x27' ∨ quote = '\x22') :
    nesting depth (some quote) (escape quote c ++ rest) = nesting depth (some quote) rest := by
  unfold escape
  split
  · rfl
  split
  · rfl
  split
  · rfl
  split
  · rfl
  split
  · rfl
  · exact nesting_escapeByNumber hq

theorem nests_quoted_flatMap {encode : Char → List Char} (hq : quote = '\x27' ∨ quote = '\x22')
    (step : ∀ depth c rest,
      nesting depth (some quote) (encode c ++ rest) = nesting depth (some quote) rest) :
    Nests 0 (quote :: cs.flatMap encode ++ [quote]) := by
  intro depth rest
  have start (more : List Char) :
      nesting depth none (quote :: more) = nesting depth (some quote) more := by
    rcases hq with rfl | rfl <;> rfl
  have inside : nesting depth (some quote) (cs.flatMap encode ++ quote :: rest) =
      nesting depth (some quote) (quote :: rest) := by
    induction cs with
    | nil => rfl
    | cons c cs ih => rw [List.flatMap_cons, List.append_assoc, step, ih]
  have close : nesting depth (some quote) (quote :: rest) = nesting depth none rest := by
    rcases hq with rfl | rfl <;> rfl
  have text : quote :: cs.flatMap encode ++ [quote] ++ rest =
      quote :: (cs.flatMap encode ++ quote :: rest) := by simp
  rw [text, start, inside, close]
  exact nests_nil depth rest

theorem nests_quoted (cs : List Char) : Nests 0 (quoted '\x22' cs) :=
  nests_quoted_flatMap (.inr rfl) fun _ _ _ => nesting_escape (.inr rfl)

theorem nests_quotedByNumber (cs : List Char) : Nests 0 (quotedByNumber '\x27' cs) :=
  nests_quoted_flatMap (.inl rfl) fun _ _ _ => nesting_escapeByNumber (.inl rfl)

end Quoted

section Pieces

variable {record : RecordContext} {value : Json}

theorem isFlat_of_isBareCharacter (bare : Path.isBareCharacter c = true) : isFlat c = true := by
  rw [isFlat, Bool.not_eq_true', List.contains_eq_mem, decide_eq_false_iff_not]
  simp only [List.mem_cons, List.not_mem_nil, or_false, not_or]
  refine ⟨?_, ?_, ?_, ?_, ?_, ?_⟩ <;>
  · rintro rfl
    cases bare

theorem nests_bareCharacters (bare : ∀ c ∈ cs, Path.isBareCharacter c = true) : Nests 0 cs :=
  nests_flat (List.all_eq_true.2 fun c hc => isFlat_of_isBareCharacter (bare c hc))

theorem nests_digits (digits : ∀ c ∈ cs, c.isDigit = true) : Nests 0 cs :=
  nests_bareCharacters fun c hc => by rw [Path.isBareCharacter, digits c hc, Bool.or_true]

theorem nests_natural (n : Nat) : Nests 0 (natural n) :=
  nests_digits (isDigit_natural n)

theorem nests_bareName {name : List Char} (bare : Path.isBare name = true) : Nests 0 name :=
  nests_bareCharacters (isBareCharacter_of_isBare bare)

theorem nests_bracketed (name : List Char) : Nests 1 (Path.bracketed name) :=
  (nests_quotedByNumber name).enclosed (.inr ⟨rfl, rfl⟩)

theorem nests_bracketedIndex (i : Nat) : Nests 1 (Path.bracketedIndex i) :=
  (nests_natural i).enclosed (.inr ⟨rfl, rfl⟩)

theorem nests_step (step : Step) : Nests step.nesting (Path.step step) := by
  cases step with
  | key name =>
      rw [Step.nesting, Path.step]
      split
      · rename_i bare
        exact (nests_bareName bare).cons '.' rfl
      · exact nests_bracketed name.toList
  | index i => exact nests_bracketedIndex i

theorem nests_flatMap_step (steps : Location) : Nests steps.nesting (steps.flatMap Path.step) := by
  induction steps with
  | nil => exact nests_nil
  | cons step steps ih => exact (nests_step step).append ih

theorem nests_relative (steps : Location) : Nests steps.nesting (Path.relative steps) :=
  (nests_flatMap_step steps).cons '@' rfl

theorem nests_numeral (wellFormed : numeral.WellFormed) : Nests 0 numeral.text := by
  have sign : Nests 0 (if numeral.negative then ['-'] else []) := by
    split
    · exact nests_flat rfl
    · exact nests_nil
  have fraction : Nests 0 (Numeral.fractionText numeral.fraction) := by
    cases hf : numeral.fraction with
    | nil => exact nests_nil
    | cons d ds =>
        have all := nests_digits wellFormed.fraction
        rw [hf] at all
        exact all.cons '.' rfl
  have exponent : Nests 0 (Numeral.exponentText numeral.exponent) := by
    cases he : numeral.exponent with
    | none => exact nests_nil
    | some e =>
        have all := nests_digits (wellFormed.exponent e he).2
        have signed : isFlat (if e.1 then '-' else '+') = true := by
          split <;> rfl
        exact (all.cons _ signed).cons 'e' rfl
  exact sign.append ((nests_digits wellFormed.whole).append (fraction.append exponent))

theorem nests_literal (literal : value.IsLiteral) : Nests 0 value.chars := by
  cases value with
  | null => exact nests_flat rfl
  | bool b =>
      cases b <;>
      · exact nests_flat rfl
  | string s => exact nests_quoted s.toList
  | number n =>
      obtain ⟨numeral, text, wellFormed, -⟩ := Number.exists_readAs literal
      rw [Json.chars, text]
      exact nests_numeral wellFormed
  | array items => exact literal.elim
  | object members => exact literal.elim

theorem nests_operand (record : RecordContext) {operand : Operand}
    (wellFormed : operand.WellFormed) : Nests operand.nesting (operand.chars record) := by
  cases operand with
  | path steps => exact nests_relative steps
  | literal value => exact nests_literal wellFormed
  | recordField field => exact nests_natural (record.value field)

theorem nests_predicate (record : RecordContext) {p : Predicate} (wellFormed : p.WellFormed) :
    Nests p.nesting (p.chars record) := by
  induction p with
  | compare left op right =>
      have sign : Nests 0 op.symbol.toList := nests_flat (by cases op <;> rfl)
      have back := sign.append ((nests_operand record wellFormed.2).cons ' ' rfl)
      have whole := (nests_operand record wellFormed.1).append (back.cons ' ' rfl)
      rw [Nat.zero_max] at whole
      simpa [Predicate.chars, Predicate.nesting] using whole
  | present path => exact nests_relative path
  | not inner ih =>
      have group := (ih wellFormed).enclosed (.inl ⟨rfl, rfl⟩)
      exact group.cons '!' rfl
  | and left right ihl ihr => exact (ihl wellFormed.1).joined rfl (ihr wellFormed.2)
  | or left right ihl ihr => exact (ihl wellFormed.1).joined rfl (ihr wellFormed.2)
  | quantified quantifier path condition ih =>
      have inner := ih wellFormed
      cases quantifier with
      | any =>
          have filter := (inner.cons '?' rfl).enclosed (.inr ⟨rfl, rfl⟩)
          simpa [Predicate.chars, Predicate.nesting] using (nests_relative path).append filter
      | all =>
          have group := (inner.enclosed (.inl ⟨rfl, rfl⟩)).cons '!' rfl
          have filter := (group.cons '?' rfl).enclosed (.inr ⟨rfl, rfl⟩)
          have whole := ((nests_relative path).append filter).cons '!' rfl
          simpa [Predicate.chars, Predicate.nesting] using whole

theorem nests_token {token : Token} (filters : ∀ source p, token = .filter source p → p.WellFormed)
    (afterScan : Bool) : Nests token.nesting (token.query record afterScan) := by
  cases token with
  | key name =>
      rw [Token.nesting, Step.nesting, Token.query]
      split
      · rename_i bare
        split
        · exact nests_bareName bare
        · exact (nests_bareName bare).cons '.' rfl
      · exact nests_bracketed name.toList
  | index i => exact nests_bracketedIndex i
  | wildcard =>
      cases afterScan <;>
      · exact nests_flat rfl
  | listWildcard =>
      have star : Nests 0 ['*'] := nests_flat rfl
      exact star.enclosed (.inr ⟨rfl, rfl⟩)
  | deepScan => exact nests_flat rfl
  | filter source p =>
      have group := (nests_predicate record (filters source p rfl)).enclosed (.inl ⟨rfl, rfl⟩)
      have filter := (group.cons '?' rfl).enclosed (.inr ⟨rfl, rfl⟩)
      simpa [Token.query, Token.nesting] using filter
  | function f => exact nests_nil

end Pieces

theorem nesting_renderFrom_le_iff (record : RecordContext) {found : List Token}
    (filters : ∀ source p, .filter source p ∈ found → p.WellFormed) (bound : Nat)
    (afterScan : Bool) : nesting 0 none (renderFrom record afterScan found) ≤ bound ↔
      ∀ token ∈ found, token.nesting ≤ bound := by
  induction found generalizing afterScan with
  | nil => exact iff_of_true (Nat.zero_le bound) (List.forall_mem_nil _)
  | cons token rest ih =>
      have first : ∀ source p, token = .filter source p → p.WellFormed := fun source p hp =>
        filters source p (by rw [hp]; exact List.mem_cons_self)
      have others := ih (fun source p hp => filters source p (List.mem_cons_of_mem _ hp))
        token.isDeepScan
      rw [renderFrom, nests_token first, Nat.zero_add, Nat.max_le, others, List.forall_mem_cons]

theorem nesting_render_le_iff (record : RecordContext) {found : List Token}
    (filters : ∀ source p, .filter source p ∈ found → p.WellFormed) (bound : Nat) :
    nesting 0 none (render record found) ≤ bound ↔ ∀ token ∈ found, token.nesting ≤ bound :=
  nesting_renderFrom_le_iff record filters bound false

end Query

end RecordPath
