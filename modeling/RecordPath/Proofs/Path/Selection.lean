import RecordPath.Proofs.Query.Segments

namespace RecordPath

namespace Json

mutual

def descendants : Json → List Json
  | .array items => .array items :: itemDescendants items
  | .object members => .object members :: memberDescendants members
  | value => [value]

def itemDescendants : List Json → List Json
  | [] => []
  | item :: items => descendants item ++ itemDescendants items

def memberDescendants : List (String × Json) → List Json
  | [] => []
  | (_, value) :: members => descendants value ++ memberDescendants members

end

end Json

namespace Token

def select : Token → Json → List Json
  | .key name, value => (value.child? (.key name)).toList
  | .index i, value => (value.child? (.index i)).toList
  | .wildcard, value => value.children.map Prod.snd
  | .listWildcard, value => value.children.map Prod.snd
  | _, _ => []

def asRead : Token → Token
  | .key name => .key (Step.nameAsRead name)
  | token => token

def isStructural : Token → Bool
  | .filter _ _ => false
  | .function _ => false
  | _ => true

end Token

namespace Path

def select : List Token → Json → List Json
  | [], value => [value]
  | .deepScan :: token :: rest, value =>
      (value.descendants.flatMap token.select).flatMap (select rest)
  | token :: rest, value => (token.select value).flatMap (select rest)

section Select

variable {value : Json} {token : Token} {found rest : List Token}

theorem select_cons (plain : token.isDeepScan = false) :
    select (token :: rest) value = (token.select value).flatMap (select rest) := by
  cases token with
  | deepScan => cases plain
  | _ => rfl

theorem select_scan : select (.deepScan :: token :: rest) value =
    (value.descendants.flatMap token.select).flatMap (select rest) :=
  rfl

theorem token_select_null (token : Token) : token.select .null = [] := by
  cases token <;> rfl

theorem select_null (nonempty : found ≠ []) : select found .null = [] := by
  cases found with
  | nil => exact absurd rfl nonempty
  | cons token rest =>
      cases scan : token.isDeepScan with
      | false => rw [select_cons scan, token_select_null, List.flatMap_nil]
      | true =>
          obtain rfl : token = .deepScan := by cases token <;> first | rfl | cases scan
          cases rest with
          | nil => rfl
          | cons next rest =>
              simp [select_scan, Json.descendants, token_select_null]

theorem select_ofStep (steps : Location) (rest : List Token) (value : Json) :
    select (steps.map Token.ofStep ++ rest) value =
      (value.get? steps).toList.flatMap (select rest) := by
  induction steps generalizing value with
  | nil => simp [Json.get?]
  | cons step steps ih =>
      have first : (Token.ofStep step).select value = (value.child? step).toList := by
        cases step <;> rfl
      have plain : (Token.ofStep step).isDeepScan = false := by cases step <;> rfl
      rw [List.map_cons, List.cons_append, select_cons plain, first, Json.get?]
      cases value.child? step with
      | none => rfl
      | some child => simpa using ih child

end Select

end Path

namespace Query

section Selected

variable {record : RecordContext} {token : Token} {found : List Token}

theorem select_selector (selector : token.isSelector = true)
    (structural : token.isStructural = true) (node : Node) :
    ((token.selector record).select node).map Prod.snd = token.asRead.select node.2 := by
  obtain ⟨place, value⟩ := node
  cases token with
  | key name =>
      simp only [Token.selector, Selector.select, Token.asRead, Token.select, Step.asRead]
      cases value.child? (.key (Step.nameAsRead name)) <;> rfl
  | index i =>
      simp only [Token.selector, Selector.select, Token.asRead, Token.select]
      cases value.child? (.index i) <;> rfl
  | wildcard => simp [Token.selector, Selector.select, Token.asRead, Token.select, inside]
  | listWildcard => simp [Token.selector, Selector.select, Token.asRead, Token.select, inside]
  | deepScan => cases selector
  | filter source p => cases structural
  | function f => cases selector

mutual

/-- Nothing is selected from what is no container, so a descent to the containers is enough. -/
theorem containers_select (token : Token) (place : Location) : ∀ value : Json,
    (containers place value).flatMap (fun node => token.select node.2) =
      value.descendants.flatMap token.select
  | .null => by cases token <;> rfl
  | .bool b => by cases token <;> rfl
  | .number n => by cases token <;> rfl
  | .string s => by cases token <;> rfl
  | .array items => by
      rw [containers, Json.descendants, List.flatMap_cons, List.flatMap_cons,
        itemContainers_select token place 0 items]
  | .object members => by
      rw [containers, Json.descendants, List.flatMap_cons, List.flatMap_cons,
        memberContainers_select token place members]

theorem itemContainers_select (token : Token) (place : Location) (i : Nat) : ∀ items : List Json,
    (itemContainers place i items).flatMap (fun node => token.select node.2) =
      (Json.itemDescendants items).flatMap token.select
  | [] => rfl
  | item :: items => by
      rw [itemContainers, Json.itemDescendants, List.flatMap_append, List.flatMap_append,
        containers_select token _ item,
        itemContainers_select token place (i + 1) items]

theorem memberContainers_select (token : Token) (place : Location) :
    ∀ members : List (String × Json),
      (memberContainers place members).flatMap (fun node => token.select node.2) =
        (Json.memberDescendants members).flatMap token.select
  | [] => rfl
  | (name, value) :: members => by
      rw [memberContainers, Json.memberDescendants, List.flatMap_append, List.flatMap_append,
        containers_select token _ value,
        memberContainers_select token place members]

end

theorem select_flat_segment (selector : token.isSelector = true)
    (structural : token.isStructural = true) (nodes : List Node) :
    (Segment.select ⟨false, token.selector record⟩ nodes).map Prod.snd =
      (nodes.map Prod.snd).flatMap token.asRead.select := by
  simp only [Segment.select, Bool.false_eq_true, if_false, List.map_flatMap, List.flatMap_map,
    select_selector selector structural]

theorem select_deep_segment (selector : token.isSelector = true)
    (structural : token.isStructural = true) (nodes : List Node) :
    (Segment.select ⟨true, token.selector record⟩ nodes).map Prod.snd =
      (nodes.map Prod.snd).flatMap fun value => value.descendants.flatMap token.asRead.select := by
  simp only [Segment.select, if_true, List.map_flatMap, List.flatMap_map,
    select_selector selector structural, containers_select]

theorem selectFrom_expression : ∀ {found : List Token}, Path.WellFormed found →
    (∀ token ∈ found, token.isStructural = true) → ∀ nodes : List Node,
    ((expression record found).selectFrom nodes).map Prod.snd =
      (nodes.map Prod.snd).flatMap (Path.select (found.map Token.asRead))
  | [], _, _, nodes => by simp [expression, Expression.selectFrom, Path.select]
  | token :: rest, wellFormed, structural, nodes => by
      obtain ⟨first, others⟩ := List.forall_mem_cons.1 structural
      cases scan : token.isDeepScan with
      | false =>
          have selector : token.isSelector = true := by
            cases token with
            | deepScan => cases scan
            | function f => cases first
            | _ => rfl
          have plain : token.asRead.isDeepScan = false := by
            cases token <;> first | rfl | cases scan
          rw [expression_cons selector, Expression.selectFrom,
            selectFrom_expression wellFormed.tail others, select_flat_segment selector first,
            List.map_cons, List.flatMap_assoc]
          congr 1
          funext value
          exact (Path.select_cons plain).symm
      | true =>
          obtain rfl : token = .deepScan := by cases token <;> first | rfl | cases scan
          obtain ⟨next, there, selector⟩ := wellFormed.scans 0 rfl
          cases rest with
          | nil => cases there
          | cons _ rest =>
              cases there
              obtain ⟨second, others⟩ := List.forall_mem_cons.1 others
              rw [expression, Expression.selectFrom,
                selectFrom_expression wellFormed.tail.tail others,
                select_deep_segment selector second, List.flatMap_assoc]
              rfl
termination_by found => found.length

theorem select_expression (wellFormed : Path.WellFormed found)
    (structural : ∀ token ∈ found, token.isStructural = true) (value : Json) :
    ((expression record found).select value).map Prod.snd =
      Path.select (found.map Token.asRead) value := by
  rw [Expression.select, selectFrom_expression wellFormed structural]
  simp

theorem values_eq_select {subtree : Json} {values : List Json} (nonempty : found ≠ [])
    (wellFormed : Path.WellFormed found)
    (structural : ∀ token ∈ found, token.isStructural = true)
    (h : Query.values (render record found) subtree = .ok values) :
    values = Path.select (found.map Token.asRead) subtree := by
  have filters : ∀ source p, .filter source p ∈ found → p.ReadsBack record := by
    intro source p hm
    cases structural _ hm
  unfold Query.values at h
  split at h
  · rename_i null
    have : subtree = .null := by cases subtree <;> first | rfl | cases null
    cases h
    rw [this, Path.select_null (by simpa using nonempty)]
  · obtain ⟨nodes, hn, rfl⟩ := Lexeme.map_eq_ok_iff.1 h
    unfold Query.nodes at hn
    split at hn
    · rename_i query hq
      cases hn
      rw [expression_of_ofText? wellFormed.functions filters hq,
        select_expression wellFormed structural]
    · cases hn

theorem read_eq_select {subtree output : Json} {residual : Residual}
    (nonempty : residual.tokens ≠ []) (wellFormed : Path.WellFormed residual.tokens)
    (structural : ∀ token ∈ residual.tokens, token.isStructural = true)
    (h : Query.read subtree residual record = .ok output) :
    output = .array (Path.select (residual.tokens.map Token.asRead) subtree) := by
  have noFunction : residual.function? = none :=
    Residual.function?_eq_none fun f hf => by cases structural _ hf
  simp only [Query.read, noFunction] at h
  split at h
  · cases h
  · rename_i hv
    cases h
    rw [values_eq_select nonempty wellFormed structural hv]

end Selected

end Query

end RecordPath
