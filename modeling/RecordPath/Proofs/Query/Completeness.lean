import RecordPath.Proofs.Query.Places
import RecordPath.Proofs.Query.Pruning
import RecordPath.Proofs.Query.Segments

namespace RecordPath

namespace Token

def isUnconditional : Token → Bool
  | .index _ => false
  | .filter _ _ => false
  | .function _ => false
  | _ => true

end Token

namespace Query

open Json

def Selector.isUnconditional : Selector → Bool
  | .child (.key _) => true
  | .all => true
  | _ => false

structure Remains (reported : Location → Bool) (origin node : Node) : Prop where
  survives : Survives reported origin.1
  left : node.2 = origin.2.pruned fun way => reported (origin.1 ++ way)

def AllRemain (reported : Location → Bool) (before after : List Node) : Prop :=
  ∀ node ∈ after, ∃ origin ∈ before, Remains reported origin node

section Selected

variable {reported : Location → Bool} {place here : Location} {step : Step} {document old : Json}
  {origin node : Node} {before after : List Node} {selector : Selector} {segment : Segment}
  {expression : Expression}

theorem remains_root (root : reported [] = false) (document : Json) :
    Remains reported ([], document) ([], document.pruned reported) where
  survives above hp := by rw [List.prefix_nil.1 hp, root]
  left := rfl

theorem remains_inside (survives : Survives reported place)
    (free : reported (place ++ [step]) = false) (here : Location) (old : Json) :
    Remains reported (place ++ [step], old)
      (here, old.pruned (step.within fun way => reported (place ++ way))) where
  survives := survives.concat free
  left := by rw [within_append]

theorem Remains.allRemain_selector (remains : Remains reported origin node)
    (unconditional : selector.isUnconditional = true) :
    AllRemain reported (selector.select origin) (selector.select node) := by
  obtain ⟨place, value⟩ := origin
  obtain ⟨here, found⟩ := node
  obtain ⟨survives, rfl⟩ := remains
  intro selected hs
  cases selector with
  | child step =>
      cases step with
      | index i => cases unconditional
      | key name =>
          simp only [Selector.select] at hs
          split at hs
          · rename_i child hc
            cases List.mem_singleton.1 hs
            obtain ⟨step, old, ho, free, same, rfl⟩ := exists_of_child?_pruned hc
            obtain rfl : step = .key name := by cases step <;> cases same; rfl
            refine ⟨inside place (.key name, old), ?_, remains_inside survives free _ old⟩
            simp only [Selector.select, ho, List.mem_singleton]
          · cases hs
  | all =>
      obtain ⟨child, hc, rfl⟩ := List.mem_map.1 hs
      obtain ⟨old, ho, free, left⟩ := exists_of_mem_children_pruned hc
      refine ⟨inside place old, List.mem_map.2 ⟨old, ho, rfl⟩, ?_⟩
      have inner := remains_inside survives free (here ++ [child.1]) old.2
      rwa [← left] at inner
  | filter condition => cases unconditional

mutual

theorem allRemain_containers (here place : Location) : ∀ value : Json, Survives reported place →
    AllRemain reported (containers place value)
      (containers here (value.pruned fun way => reported (place ++ way)))
  | .array items, survives, node, hn => by
      rcases List.mem_cons.1 hn with rfl | more
      · exact ⟨(place, .array items), List.mem_cons_self, survives, rfl⟩
      · obtain ⟨origin, ho, remains⟩ :=
          allRemain_itemContainers here place 0 0 items survives node more
        exact ⟨origin, List.mem_cons_of_mem _ ho, remains⟩
  | .object members, survives, node, hn => by
      rcases List.mem_cons.1 hn with rfl | more
      · exact ⟨(place, .object members), List.mem_cons_self, survives, rfl⟩
      · obtain ⟨origin, ho, remains⟩ :=
          allRemain_memberContainers here place members survives node more
        exact ⟨origin, List.mem_cons_of_mem _ ho, remains⟩
  | .null, _, _, hn => by cases hn
  | .bool _, _, _, hn => by cases hn
  | .number _, _, _, hn => by cases hn
  | .string _, _, _, hn => by cases hn

theorem allRemain_itemContainers (here place : Location) : ∀ (k i : Nat) (items : List Json),
    Survives reported place → AllRemain reported (itemContainers place i items)
      (itemContainers here k (prunedItems (fun way => reported (place ++ way)) i items))
  | _, _, [], _, _, hn => by cases hn
  | k, i, item :: items, survives, node, hn => by
      rw [prunedItems] at hn
      split at hn
      · obtain ⟨origin, ho, remains⟩ :=
          allRemain_itemContainers here place k (i + 1) items survives node hn
        exact ⟨origin, List.mem_append_right _ ho, remains⟩
      · rename_i free
        rcases List.mem_append.1 hn with first | more
        · rw [within_append] at first
          obtain ⟨origin, ho, remains⟩ := allRemain_containers (here ++ [.index k])
            (place ++ [.index i]) item (survives.concat (by simpa using free)) node first
          exact ⟨origin, List.mem_append_left _ ho, remains⟩
        · obtain ⟨origin, ho, remains⟩ :=
            allRemain_itemContainers here place (k + 1) (i + 1) items survives node more
          exact ⟨origin, List.mem_append_right _ ho, remains⟩

theorem allRemain_memberContainers (here place : Location) : ∀ members : List (String × Json),
    Survives reported place → AllRemain reported (memberContainers place members)
      (memberContainers here (prunedMembers (fun way => reported (place ++ way)) members))
  | [], _, _, hn => by cases hn
  | (name, value) :: members, survives, node, hn => by
      rw [prunedMembers] at hn
      split at hn
      · obtain ⟨origin, ho, remains⟩ :=
          allRemain_memberContainers here place members survives node hn
        exact ⟨origin, List.mem_append_right _ ho, remains⟩
      · rename_i free
        rcases List.mem_append.1 hn with first | more
        · rw [within_append] at first
          obtain ⟨origin, ho, remains⟩ := allRemain_containers (here ++ [.key name])
            (place ++ [.key name]) value (survives.concat (by simpa using free)) node first
          exact ⟨origin, List.mem_append_left _ ho, remains⟩
        · obtain ⟨origin, ho, remains⟩ :=
            allRemain_memberContainers here place members survives node more
          exact ⟨origin, List.mem_append_right _ ho, remains⟩

end

theorem AllRemain.flatMap {first second : Node → List Node}
    (remain : AllRemain reported before after)
    (each : ∀ {origin node}, Remains reported origin node →
      AllRemain reported (first origin) (second node)) :
    AllRemain reported (before.flatMap first) (after.flatMap second) := by
  intro selected hs
  obtain ⟨node, hn, hs⟩ := List.mem_flatMap.1 hs
  obtain ⟨origin, ho, remains⟩ := remain node hn
  obtain ⟨found, hf, left⟩ := each remains selected hs
  exact ⟨found, List.mem_flatMap.2 ⟨origin, ho, hf⟩, left⟩

theorem AllRemain.select_segment (remain : AllRemain reported before after)
    (unconditional : segment.selector.isUnconditional = true) :
    AllRemain reported (segment.select before) (segment.select after) := by
  unfold Segment.select
  split
  · refine remain.flatMap fun {origin node} remains => ?_
    have inside : AllRemain reported (containers origin.1 origin.2)
        (containers node.1 node.2) := by
      rw [remains.left]
      exact allRemain_containers node.1 origin.1 origin.2 remains.survives
    exact inside.flatMap fun remains => remains.allRemain_selector unconditional
  · exact remain.flatMap fun remains => remains.allRemain_selector unconditional

theorem AllRemain.selectFrom (remain : AllRemain reported before after)
    (unconditional : ∀ segment ∈ expression, segment.selector.isUnconditional = true) :
    AllRemain reported (expression.selectFrom before) (expression.selectFrom after) := by
  induction expression generalizing before after with
  | nil => exact remain
  | cons segment rest ih =>
      obtain ⟨first, others⟩ := List.forall_mem_cons.1 unconditional
      exact ih (remain.select_segment first) others

theorem place_ne_nil_of_mem_selector : ∀ selected ∈ selector.select node, selected.1 ≠ [] := by
  obtain ⟨place, value⟩ := node
  intro selected hs
  have below (found : Step × Json) : (inside place found).1 ≠ [] := by simp [inside]
  cases selector with
  | child step =>
      simp only [Selector.select] at hs
      split at hs
      · rw [List.mem_singleton.1 hs]
        exact below _
      · cases hs
  | all =>
      obtain ⟨found, -, rfl⟩ := List.mem_map.1 hs
      exact below found
  | filter condition =>
      obtain ⟨found, -, rfl⟩ := List.mem_map.1 hs
      exact below found

theorem place_ne_nil_of_mem_segment : ∀ selected ∈ segment.select before, selected.1 ≠ [] := by
  intro selected hs
  unfold Segment.select at hs
  split at hs
  · obtain ⟨node, -, hd⟩ := List.mem_flatMap.1 hs
    obtain ⟨container, -, hm⟩ := List.mem_flatMap.1 hd
    exact place_ne_nil_of_mem_selector selected hm
  · obtain ⟨node, -, hm⟩ := List.mem_flatMap.1 hs
    exact place_ne_nil_of_mem_selector selected hm

theorem place_ne_nil_of_mem_select (nonempty : expression ≠ []) :
    ∀ selected ∈ expression.select document, selected.1 ≠ [] := by
  have later (rest : Expression) {nodes : List Node} (h : ∀ node ∈ nodes, node.1 ≠ []) :
      ∀ selected ∈ rest.selectFrom nodes, selected.1 ≠ [] := by
    induction rest generalizing nodes with
    | nil => exact h
    | cons segment rest ih => exact ih place_ne_nil_of_mem_segment
  cases expression with
  | nil => exact absurd rfl nonempty
  | cons segment rest => exact later rest place_ne_nil_of_mem_segment

theorem select_without_selected (nonempty : expression ≠ [])
    (unconditional : ∀ segment ∈ expression, segment.selector.isUnconditional = true)
    (document : Json) :
    expression.select (document.without fun place =>
      decide (place ∈ (expression.select document).map Prod.fst)) = [] := by
  let reported : Location → Bool := fun place =>
    decide (place ∈ (expression.select document).map Prod.fst)
  have root : reported [] = false := by
    refine decide_eq_false fun whole => ?_
    obtain ⟨node, hn, place⟩ := List.mem_map.1 whole
    exact place_ne_nil_of_mem_select nonempty node hn place
  have start : AllRemain reported [([], document)] [([], document.pruned reported)] := by
    intro node hn
    cases List.mem_singleton.1 hn
    exact ⟨_, List.mem_cons_self, remains_root root document⟩
  change expression.select (document.without reported) = []
  rw [without, root, if_neg Bool.false_ne_true]
  -- A node selected now would be left of one that was selected and yet survived.
  refine List.eq_nil_iff_forall_not_mem.2 fun node hn => ?_
  obtain ⟨origin, ho, remains⟩ := start.selectFrom unconditional node hn
  have kept : reported origin.1 = false := remains.survives origin.1 (List.prefix_refl _)
  exact of_decide_eq_false kept (List.mem_map_of_mem ho)

end Selected

section Delete

variable {subtree changed : Json} {residual : Residual} {record : RecordContext} {token : Token}
  {found : List Token}

theorem isUnconditional_expression (h : ∀ token ∈ found, token.isUnconditional = true) :
    ∀ segment ∈ expression record found, segment.selector.isUnconditional = true := by
  intro segment hs
  obtain ⟨token, ht, same⟩ := exists_token_of_mem_expression hs
  have plain := h token ht
  rw [same]
  cases token <;> first | rfl | cases plain

theorem render_congr (h : ∀ token ∈ found, token.isUnconditional = true)
    (record later : RecordContext) : render later found = render record found := by
  have steps (afterScan : Bool) : renderFrom later afterScan found =
      renderFrom record afterScan found := by
    induction found generalizing afterScan with
    | nil => rfl
    | cons token rest ih =>
        obtain ⟨first, others⟩ := List.forall_mem_cons.1 h
        have text : token.query later afterScan = token.query record afterScan := by
          cases token <;> first | rfl | cases first
        rw [renderFrom, renderFrom, text, ih others]
  rw [render, render, steps]

theorem read_after_delete (regular : subtree.isRegular = true) (nonempty : residual.tokens ≠ [])
    (unconditional : ∀ token ∈ residual.tokens, token.isUnconditional = true)
    (deleted : delete subtree residual record = .ok changed) (later : RecordContext) :
    read changed residual later = .ok (.array []) := by
  have plain (f : AggregateFunction) : .function f ∉ residual.tokens := by
    intro hf
    cases unconditional _ hf
  suffices empty : values (render record residual.tokens) changed = .ok [] by
    simp only [read, render_congr unconditional record later, empty,
      Residual.function?_eq_none plain]
  obtain ⟨places, located, rfl⟩ := Lexeme.map_eq_ok_iff.1 deleted
  cases full : subtree.isNull with
  | true =>
      obtain rfl : subtree = .null := by cases subtree <;> first | rfl | cases full
      cases located
      rfl
  | false =>
      obtain ⟨query, accepted, rfl⟩ := exists_query_of_locations regular full located
      have functions : ∀ i f, residual.tokens[i]? = some (.function f) →
          i + 1 = residual.tokens.length := by
        intro i f hi
        exact absurd (List.mem_of_getElem? hi) (plain f)
      have filters : ∀ source p, .filter source p ∈ residual.tokens → p.ReadsBack record := by
        intro source p hp
        cases unconditional _ hp
      obtain rfl := expression_of_ofText? functions filters accepted
      rw [values]
      split
      · rfl
      · rw [nodes, accepted, removeAll_eq_without regular, Except.map,
          select_without_selected (expression_ne_nil nonempty plain)
            (isUnconditional_expression unconditional), List.map_nil]

theorem read_after_delete_odd_names :
    let inner : Json := .obj [("it's", .nat 2), ("\x22]", .array [.obj [("it's", .null)]])]
    let subtree : Json := .array [.nat 0, .obj [("it's", .nat 1)], .array [.obj [("..", inner)]]]
    let residual : Residual := ⟨"$..[*].it's", [.deepScan, .listWildcard, .key "it's"]⟩
    let changed : Json := .array [.nat 0, .obj [],
      .array [.obj [("..", .obj [("\x22]", .array [.obj []])])]]]
    subtree.isRegular = true ∧ residual.tokens ≠ [] ∧
      (∀ token ∈ residual.tokens, token.isUnconditional = true) ∧
      delete subtree residual ⟨0, 0, 0⟩ = .ok changed ∧
      read changed residual ⟨1, 2, 3⟩ = .ok (.array []) := by
  intro inner subtree residual changed
  have regular : subtree.isRegular = true := by decide +kernel
  have unconditional : ∀ token ∈ residual.tokens, token.isUnconditional = true :=
    List.all_eq_true.1 (by decide)
  have deleted : delete subtree residual ⟨0, 0, 0⟩ = .ok changed := by decide +kernel
  exact ⟨regular, List.cons_ne_nil _ _, unconditional, deleted,
    read_after_delete regular (List.cons_ne_nil _ _) unconditional deleted ⟨1, 2, 3⟩⟩

end Delete

end Query

end RecordPath
