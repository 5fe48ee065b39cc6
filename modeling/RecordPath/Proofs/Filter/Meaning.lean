import RecordPath.Proofs.Query.Segments

namespace RecordPath

open Query Text

section Literals

variable {c : Char} {cs rest after : List Char} {lexeme : Lexeme} {lexemes : List Lexeme}
  {level : Predicate.Level} {p : Predicate} {numeral : Numeral} {n : Number}

theorem Numeral.finite_of_number? (h : numeral.number? = some n) : n.Finite := by
  unfold number? at h
  split at h
  · cases h
    trivial
  · obtain ⟨x, hx, rfl⟩ := Option.map_eq_some_iff.1 h
    exact (Option.filter_eq_some_iff.1 hx).2

namespace Lexeme

def WellFormed : Lexeme → Prop
  | .operand o => o.WellFormed
  | _ => True

theorem wellFormed_of_number (h : number c rest = .ok (lexeme, after)) : lexeme.WellFormed := by
  simp only [number] at h
  split at h
  · rename_i n hn
    cases h
    obtain ⟨numeral, -, hm⟩ := Option.bind_eq_some_iff.1 hn
    exact Numeral.finite_of_number? hm
  · cases h

theorem wellFormed_of_word {name : String} (h : word name rest = .ok (lexeme, after)) :
    lexeme.WellFormed := by
  unfold word at h
  split at h
  · cases h; trivial
  · cases h; trivial
  · cases h; trivial
  · split at h
    · split at h
      · cases h; trivial
      · cases h; trivial
      · split at h
        · cases h
        · split at h
          · cases h; trivial
          · cases h
    · cases h

theorem wellFormed_of_next (h : next c rest = .ok (lexeme, after)) : lexeme.WellFormed := by
  unfold next at h
  split at h
  case h_13 =>
    obtain ⟨result, -, he⟩ := map_eq_ok_iff.1 h
    cases he
    trivial
  case h_14 =>
    split at h
    · obtain ⟨result, -, he⟩ := map_eq_ok_iff.1 h
      cases he
      trivial
    · split at h
      · exact wellFormed_of_number h
      · split at h
        · exact wellFormed_of_word h
        · cases h
  all_goals cases h; trivial

theorem wellFormed_of_ofText (h : ofText cs = .ok lexemes) :
    ∀ lexeme ∈ lexemes, lexeme.WellFormed := by
  fun_induction ofText cs generalizing lexemes with
  | case1 =>
      cases h
      exact List.forall_mem_nil _
  | case2 c rest blank ih => exact ih h
  | case3 => cases h
  | case4 c rest blank lexeme after hn ih =>
      obtain ⟨more, hm, rfl⟩ := map_eq_ok_iff.1 h
      exact List.forall_mem_cons.2 ⟨wellFormed_of_next hn, ih hm⟩

end Lexeme

namespace Predicate

theorem Derives.wellFormed (h : Derives level lexemes p)
    (literals : ∀ lexeme ∈ lexemes, lexeme.WellFormed) : p.WellFormed := by
  induction h with
  | conjunction _ ih | negation _ ih | primary _ ih => exact ih literals
  | or _ _ ihl ihr | and _ _ ihl ihr =>
      obtain ⟨left, right⟩ := List.forall_mem_append.1 literals
      exact ⟨ihl left, ihr (List.forall_mem_cons.1 right).2⟩
  | not _ ih => exact ih (List.forall_mem_cons.1 literals).2
  | group _ ih =>
      exact ih (List.forall_mem_append.1 (List.forall_mem_cons.1 literals).2).1
  | quantified _ _ _ ih =>
      refine ih fun lexeme hl => literals lexeme ?_
      simp [hl]
  | compare left op right =>
      exact ⟨literals (.operand left) (by simp), literals (.operand right) (by simp)⟩
  | present path => trivial

theorem wellFormed_of_ofText (h : ofText cs = .ok p) : p.WellFormed := by
  unfold ofText at h
  split at h
  · cases h
  · rename_i lexemes hl
    exact (ofLexemes_eq_ok_iff.1 h).wellFormed (Lexeme.wellFormed_of_ofText hl)

end Predicate

end Literals

namespace Json

def valuesAt (item : Json) (path : Location) : List Json :=
  ((item.get? path).map children).getD [] |>.map Prod.snd

end Json

namespace Operand

def value (record : RecordContext) (item : Json) : Operand → Option Json
  | .path steps => item.get? steps
  | .literal value => some value
  | .recordField field => some (.nat (record.value field))

end Operand

namespace Predicate

def holds (record : RecordContext) : Predicate → Json → Bool
  | .compare left op right, item =>
      Comparison.holds op (left.value record item) (right.value record item)
  | .present path, item => (item.get? path).isSome
  | .not inner, item => !holds record inner item
  | .and left right, item => holds record left item && holds record right item
  | .or left right, item => holds record left item || holds record right item
  | .quantified .any path condition, item =>
      (item.valuesAt path).any fun value => holds record condition value
  | .quantified .all path condition, item =>
      (item.valuesAt path).all fun value => holds record condition value

end Predicate

namespace Step

def isExact : Step → Bool
  | .key name => !(Path.isBare name.toList &&
      (name.toList.head?.any isBlank || name.toList.getLast?.any isBlank))
  | .index _ => true

theorem trimStart_eq_self {cs : List Char} (h : cs.head?.any isBlank = false) :
    trimStart cs = cs := by
  cases cs with
  | nil => rfl
  | cons c cs => exact List.dropWhile_cons_of_neg (by simpa using h)

theorem asRead_of_isExact {step : Step} (h : step.isExact = true) : step.asRead = step := by
  cases step with
  | index i => rfl
  | key name =>
      cases bare : Path.isBare name.toList with
      | false => simp [asRead, nameAsRead, bare]
      | true =>
          have last : name.toList.getLast?.any isBlank = false := by
            simp only [isExact, bare, Bool.true_and, Bool.not_eq_true', Bool.or_eq_false_iff] at h
            exact h.2
          simp [asRead, nameAsRead, bare, trimEnd_eq_self_iff.2 last]

theorem asOperand_of_isExact {step : Step} (h : step.isExact = true) : step.asOperand = step := by
  cases step with
  | index i => rfl
  | key name =>
      cases bare : Path.isBare name.toList with
      | false => simp [asOperand, written, WrittenStep.operandStep, bare]
      | true =>
          simp only [isExact, bare, Bool.true_and, Bool.not_eq_true', Bool.or_eq_false_iff] at h
          simp [asOperand, written, WrittenStep.operandStep, bare, trim, trimStart_eq_self h.1,
            trimEnd_eq_self_iff.2 h.2]

end Step

namespace Operand

def asRead : Operand → Operand
  | .path steps => .path (steps.map Step.asOperand)
  | operand => operand

def isExact : Operand → Bool
  | .path steps => steps.all Step.isExact
  | _ => true

variable {operand : Operand}

theorem value_comparable (record : RecordContext) (item : Json) (operand : Operand) :
    (operand.comparable record).value item = operand.asRead.value record item := by
  cases operand <;> rfl

theorem asRead_of_isExact (h : operand.isExact = true) : operand.asRead = operand := by
  cases operand with
  | path steps =>
      have same := List.map_congr_left fun step hs =>
        Step.asOperand_of_isExact (List.all_eq_true.1 h step hs)
      rw [asRead, same, List.map_id']
  | literal value => rfl
  | recordField field => rfl

end Operand

namespace Predicate

/-- What a query takes a predicate for. A quantifier over the values of the item itself is decided
without looking at them. -/
def asRead : Predicate → Predicate
  | .compare left op right => .compare left.asRead op right.asRead
  | .present path => .present (path.map Step.asRead)
  | .not inner => .not (asRead inner)
  | .and left right => .and (asRead left) (asRead right)
  | .or left right => .or (asRead left) (asRead right)
  | .quantified .any [] _ => .not (.present [])
  | .quantified .all [] _ => .present []
  | .quantified quantifier path condition =>
      .quantified quantifier (path.map Step.asRead) (asRead condition)

def isExact : Predicate → Bool
  | .compare left _ right => left.isExact && right.isExact
  | .present path => path.all Step.isExact
  | .not inner => isExact inner
  | .and left right => isExact left && isExact right
  | .or left right => isExact left && isExact right
  | .quantified _ path condition => !path.isEmpty && path.all Step.isExact && isExact condition

variable {record : RecordContext} {p : Predicate}

theorem holds_selects {path : Location} {condition : Condition} (nonempty : path ≠ [])
    (item : Json) :
    (Condition.selects path condition).holds item =
      (item.valuesAt path).any fun value => condition.holds value := by
  cases path with
  | nil => exact absurd rfl nonempty
  | cons step path =>
      rw [Condition.holds, Json.valuesAt, List.any_map]
      cases item.get? (step :: path) <;> rfl

theorem holds_condition (record : RecordContext) (p : Predicate) (item : Json) :
    (p.condition record).holds item = p.asRead.holds record item := by
  induction p generalizing item with
  | compare left op right =>
      simp only [condition, asRead, holds, Condition.holds, Operand.value_comparable]
  | present path => rfl
  | not inner ih => simp only [condition, asRead, holds, Condition.holds, ih]
  | and left right ihl ihr => simp only [condition, asRead, holds, Condition.holds, ihl, ihr]
  | or left right ihl ihr => simp only [condition, asRead, holds, Condition.holds, ihl, ihr]
  | quantified quantifier path inner ih =>
      cases path with
      | nil => cases quantifier <;> rfl
      | cons step path =>
          have nonempty : (step :: path).map Step.asRead ≠ [] := List.cons_ne_nil _ _
          cases quantifier with
          | any =>
              simp only [condition, asRead, holds, holds_selects nonempty, ih]
          | all =>
              simp only [condition, asRead, holds, Condition.holds, holds_selects nonempty, ih,
                List.not_any_eq_all_not, Bool.not_not]

theorem asRead_of_isExact (h : p.isExact = true) : p.asRead = p := by
  have same {path : Location} (h : path.all Step.isExact = true) : path.map Step.asRead = path := by
    rw [List.map_congr_left fun step hs => Step.asRead_of_isExact (List.all_eq_true.1 h step hs),
      List.map_id']
  induction p with
  | compare left op right =>
      rw [isExact, Bool.and_eq_true] at h
      rw [asRead, Operand.asRead_of_isExact h.1, Operand.asRead_of_isExact h.2]
  | present path => rw [asRead, same h]
  | not inner ih => rw [asRead, ih h]
  | and left right ihl ihr | or left right ihl ihr =>
      rw [isExact, Bool.and_eq_true] at h
      rw [asRead, ihl h.1, ihr h.2]
  | quantified quantifier path condition ih =>
      rw [isExact, Bool.and_eq_true, Bool.and_eq_true] at h
      cases path with
      | nil => cases h.1.1
      | cons step path =>
          have names := same h.1.2
          cases quantifier <;> rw [asRead, names, ih h.2] <;> nofun

def candidates (test : Json → Bool) (document : Json) : List Node :=
  (document.children.filter fun child => test child.2).map fun child => ([child.1], child.2)

theorem select_filter (record : RecordContext) (source : String) (p : Predicate)
    (document : Json) :
    (expression record [.filter source p]).select document =
      candidates (p.asRead.holds record) document := by
  have segments : expression record [.filter source p] =
      [⟨false, .filter (p.condition record)⟩] := rfl
  rw [segments, Expression.select, Expression.selectFrom, Expression.selectFrom, Segment.select,
    if_neg Bool.false_ne_true, List.flatMap_singleton, Selector.select]
  simp only [holds_condition]
  rfl

theorem wellFormed_filter {text : List Char} (parsed : ofText text = .ok p)
    (trimmed : trim text = text) : Path.WellFormed [.filter (String.ofList text) p] where
  tokens token ht := by
    cases List.mem_singleton.1 ht
    exact ⟨by rw [String.toList_ofList, trimmed], by rw [String.toList_ofList, parsed]⟩
  scans i hi := by
    cases i with
    | zero => cases hi
    | succ i => cases hi
  functions i f hi := by
    cases i with
    | zero => cases hi
    | succ i => cases hi

/-- The query written for a predicate selects the items that it is true of, as the query takes it;
with exact names, and no quantifier over the values of the item itself, it takes it as it is. -/
theorem selects_where_holds {text : List Char} (parsed : ofText text = .ok p)
    (record : RecordContext) (source : String) {document : Json} {found : List Node}
    (accepted : nodes (render record [.filter source p]) document = .ok found) :
    found = candidates (p.asRead.holds record) document ∧
      (p.isExact = true → found = candidates (p.holds record) document) := by
  have selected : found = candidates (p.asRead.holds record) document := by
    have tokens := wellFormed_filter (ofText_trim parsed) (Text.trim_trim text)
    have filters : ∀ source q, .filter source q ∈ [Token.filter (String.ofList (trim text)) p] →
        q.ReadsBack record := by
      intro source q hq
      cases List.mem_singleton.1 hq
      exact readsBack record (wellFormed_of_ofText parsed)
    unfold nodes at accepted
    split at accepted
    · rename_i query hq
      cases accepted
      rw [expression_of_ofText? tokens.functions filters hq, select_filter]
    · cases accepted
  refine ⟨selected, fun exactly => ?_⟩
  rw [selected, asRead_of_isExact exactly]

theorem selects_where_holds_quantifier :
    let text := "any(@.tags, @ == 'red') && since_update() < 500".toList
    let p : Predicate := .and (.quantified .any [.key "tags"]
      (.compare (.path []) .eq (.literal (.string "red"))))
      (.compare (.recordField .sinceUpdate) .lt (.literal (.nat 500)))
    let record : RecordContext := ⟨3, 1000, 1400⟩
    let item : Json := .obj [("tags", .array [.string "blue", .string "red"])]
    let document : Json := .array [.obj [("tags", .string "red")], item]
    let found : List Node := [([.index 1], item)]
    ofText text = .ok p ∧ nodes (render record [.filter "" p]) document = .ok found ∧
      found = candidates (p.holds record) document := by
  intro text p record item document found
  have parsed : ofText text = .ok p := by decide +kernel
  have accepted : nodes (render record [.filter "" p]) document = .ok found := by decide +kernel
  exact ⟨parsed, accepted, (selects_where_holds parsed record "" accepted).2 (by decide +kernel)⟩

/-- A quantifier over the values of the item itself selects nothing, whatever it is true of. -/
theorem not_selects_where_holds_item :
    ∃ (p : Predicate) (record : RecordContext) (document : Json),
      ofText "any(@, @ == 'x')".toList = .ok p ∧
      nodes (render record [.filter "any(@, @ == 'x')" p]) document = .ok [] ∧
      candidates (p.holds record) document = [([.index 0], .array [.string "x"])] := by
  refine ⟨.quantified .any [] (.compare (.path []) .eq (.literal (.string "x"))), ⟨1, 0, 0⟩,
    .array [.array [.string "x"]], ?_, ?_, ?_⟩ <;> decide +kernel

end Predicate

end RecordPath
