import RecordPath.Proofs.Json.Regular
import RecordPath.Proofs.Outcomes
import RecordPath.Query.Run

namespace RecordPath.Query

structure Leads (document : Json) (node : Node) : Prop where
  found : document.get? node.1 = some node.2
  addressable : node.1.isAddressable = true
  regular : node.2.isRegular = true

theorem leads_root {document : Json} (regular : document.isRegular = true) :
    Leads document ([], document) :=
  ⟨rfl, rfl, regular⟩

variable {document : Json} {place : Location} {value : Json}

theorem Leads.step {child : Json} {step : Step} (h : Leads document (place, value))
    (hc : value.child? step = some child) : Leads document (place ++ [step], child) := by
  obtain ⟨regular, addressable⟩ := Json.isRegular_child h.regular hc
  refine ⟨?_, ?_, regular⟩
  · rw [Json.get?_append, h.found]
    simp [Json.get?, hc]
  · have := h.addressable
    simp only [Location.isAddressable] at this
    simp [Location.isAddressable, this, addressable]

theorem Leads.child (h : Leads document (place, value)) {child : Step × Json}
    (hc : child ∈ value.children) : Leads document (inside place child) :=
  h.step (Json.child?_of_mem_children h.regular hc)

theorem leads_selector (selector : Selector) {node : Node} (h : Leads document node) :
    ∀ selected ∈ selector.select node, Leads document selected := by
  obtain ⟨place, value⟩ := node
  intro selected hs
  cases selector with
  | child step =>
      simp only [Selector.select] at hs
      split at hs
      · rename_i found hf
        cases List.mem_singleton.1 hs
        exact h.step hf
      · cases hs
  | all =>
      obtain ⟨child, hc, rfl⟩ := List.mem_map.1 hs
      exact h.child hc
  | filter condition =>
      obtain ⟨child, hc, rfl⟩ := List.mem_map.1 hs
      exact h.child (List.mem_filter.1 hc).1

mutual

theorem leads_containers (place : Location) :
    ∀ value : Json, Leads document (place, value) →
      ∀ node ∈ containers place value, Leads document node
  | .array items, h, node, hn => by
      rcases List.mem_cons.1 hn with rfl | hr
      · exact h
      · refine leads_itemContainers place 0 items ?_ node hr
        intro j item hj
        exact h.step (by simpa [Json.child?] using hj)
  | .object members, h, node, hn => by
      rcases List.mem_cons.1 hn with rfl | hr
      · exact h
      · refine leads_memberContainers place members ?_ node hr
        intro member hm
        exact h.child (List.mem_map.2 ⟨member, hm, rfl⟩)
  | .null, _, _, hn => by cases hn
  | .bool _, _, _, hn => by cases hn
  | .number _, _, _, hn => by cases hn
  | .string _, _, _, hn => by cases hn

theorem leads_itemContainers (place : Location) :
    ∀ (i : Nat) (items : List Json),
      (∀ j item, items[j]? = some item → Leads document (place ++ [.index (i + j)], item)) →
      ∀ node ∈ itemContainers place i items, Leads document node
  | _, [], _, _, hn => by cases hn
  | i, item :: items, h, node, hn => by
      rcases List.mem_append.1 hn with hi | hr
      · exact leads_containers (place ++ [.index i]) item (h 0 item rfl) node hi
      · refine leads_itemContainers place (i + 1) items ?_ node hr
        intro j found hj
        rw [Nat.add_right_comm, Nat.add_assoc]
        exact h (j + 1) found hj

theorem leads_memberContainers (place : Location) :
    ∀ members : List (String × Json),
      (∀ member ∈ members, Leads document (place ++ [.key member.1], member.2)) →
      ∀ node ∈ memberContainers place members, Leads document node
  | [], _, _, hn => by cases hn
  | (name, value) :: members, h, node, hn => by
      rcases List.mem_append.1 hn with hv | hr
      · exact leads_containers (place ++ [.key name]) value (h _ List.mem_cons_self) node hv
      · exact leads_memberContainers place members
          (fun member hm => h member (List.mem_cons_of_mem _ hm)) node hr

end

theorem leads_segment (segment : Segment) {nodes : List Node}
    (h : ∀ node ∈ nodes, Leads document node) :
    ∀ selected ∈ segment.select nodes, Leads document selected := by
  intro selected hs
  unfold Segment.select at hs
  split at hs
  · obtain ⟨node, hn, hd⟩ := List.mem_flatMap.1 hs
    obtain ⟨container, hc, hm⟩ := List.mem_flatMap.1 hd
    exact leads_selector segment.selector (leads_containers node.1 node.2 (h node hn) _ hc) _ hm
  · obtain ⟨node, hn, hm⟩ := List.mem_flatMap.1 hs
    exact leads_selector segment.selector (h node hn) _ hm

theorem leads_selectFrom (expression : Expression) :
    ∀ {nodes : List Node}, (∀ node ∈ nodes, Leads document node) →
      ∀ selected ∈ expression.selectFrom nodes, Leads document selected := by
  induction expression with
  | nil => exact fun h => h
  | cons segment rest ih => exact fun h => ih (leads_segment segment h)

theorem leads_select (regular : document.isRegular = true) (expression : Expression) :
    ∀ node ∈ expression.select document, Leads document node := by
  refine leads_selectFrom expression ?_
  intro node hn
  cases List.mem_singleton.1 hn
  exact leads_root regular

theorem locations_of_nodes {expression : List Char} {found : List Node}
    (regular : document.isRegular = true) (h : nodes expression document = .ok found)
    (full : document.isNull = false) :
    locations expression document = .ok (found.map Prod.fst) := by
  unfold nodes at h
  split at h
  · rename_i query hq
    cases h
    have hn : nodes expression document = .ok (query.select document) := by rw [nodes, hq]
    rw [locations, full, if_neg Bool.false_ne_true, hn]
    refine Outcomes.mapM_ok ?_
    intro node hm
    rw [parsedLocation,
      Location.ofNormalized?_normalized (leads_select regular query node hm).addressable]
  · cases h

theorem exists_query_of_locations {expression : List Char} {places : List Location}
    (regular : document.isRegular = true) (full : document.isNull = false)
    (h : locations expression document = .ok places) :
    ∃ query, Expression.ofText? expression = some query ∧
      places = (query.select document).map Prod.fst := by
  cases accepted : Expression.ofText? expression with
  | none =>
      have refused : nodes expression document =
          .error (.queryEvaluation (String.ofList expression) .engine) := by
        rw [nodes, accepted]
      rw [locations, full, if_neg Bool.false_ne_true, refused] at h
      cases h
  | some query =>
      have found : nodes expression document = .ok (query.select document) := by
        rw [nodes, accepted]
      rw [locations_of_nodes regular found full] at h
      cases h
      exact ⟨query, rfl, rfl⟩

theorem isSome_of_locations {expression : List Char} {places : List Location}
    (regular : document.isRegular = true) (h : locations expression document = .ok places) :
    ∀ place ∈ places, (document.get? place).isSome = true := by
  cases full : document.isNull with
  | true =>
      rw [locations, full, if_pos rfl] at h
      cases h
      exact List.forall_mem_nil _
  | false =>
      obtain ⟨query, -, rfl⟩ := exists_query_of_locations regular full h
      intro place hp
      obtain ⟨node, hn, rfl⟩ := List.mem_map.1 hp
      rw [(leads_select regular query node hn).found, Option.isSome_some]

theorem locations_reach_matches (document : Json) (regular : document.isRegular = true)
    (residual : Residual) (record : RecordContext) {query : Expression}
    (accepted : Expression.ofText? (render record residual.tokens) = some query) :
    ∃ places found,
      locations (render record residual.tokens) document = .ok places ∧
      values (render record residual.tokens) document = .ok found ∧
      (residual.function? = none → read document residual record = .ok (.array found)) ∧
      places.length = found.length ∧
      (∀ i : Nat, places[i]?.bind document.get? = found[i]?) ∧
      (document.isNull = false →
        places = (query.select document).map Prod.fst ∧
        found = (query.select document).map Prod.snd) := by
  have asRead {found : List Json}
      (hv : values (render record residual.tokens) document = .ok found)
      (hf : residual.function? = none) : read document residual record = .ok (.array found) := by
    simp [read, hv, hf]
  cases full : document.isNull with
  | true =>
      have hv : values (render record residual.tokens) document = .ok [] := by simp [values, full]
      exact ⟨[], [], by simp [locations, full], hv, asRead hv, rfl, fun i => rfl, nofun⟩
  | false =>
      have hn : nodes (render record residual.tokens) document = .ok (query.select document) := by
        rw [nodes, accepted]
      have hv : values (render record residual.tokens) document =
          .ok ((query.select document).map Prod.snd) := by
        rw [values, full, if_neg Bool.false_ne_true, hn]
        rfl
      refine ⟨_, _, locations_of_nodes regular hn full, hv, asRead hv, by simp, ?_,
        fun _ => ⟨rfl, rfl⟩⟩
      intro i
      rw [List.getElem?_map, List.getElem?_map]
      cases hi : (query.select document)[i]? with
      | none => rfl
      | some node =>
          exact (leads_select regular query node (List.mem_of_getElem? hi)).found

/-- Names that read like paths, and values that are the same in different places. -/
theorem locations_reach_matches_odd_names :
    let document : Json :=
      .object [("'", .array [.null, .null]), ("['a']", .object [("\\u0041\n", .null)])]
    let residual : Residual := ⟨"$..*", [.deepScan, .wildcard]⟩
    let expression := render ⟨0, 0, 0⟩ residual.tokens
    let query : Expression := [⟨true, .all⟩]
    document.isRegular = true ∧ Expression.ofText? expression = some query ∧
      ∃ places found,
        locations expression document = .ok places ∧ values expression document = .ok found ∧
        (residual.function? = none → read document residual ⟨0, 0, 0⟩ = .ok (.array found)) ∧
        places.length = found.length ∧
        (∀ i : Nat, places[i]?.bind document.get? = found[i]?) ∧
        document.isNull = false ∧
        places = (query.select document).map Prod.fst ∧
        found = (query.select document).map Prod.snd ∧
        places = [[.key "'"], [.key "['a']"], [.key "'", .index 0], [.key "'", .index 1],
          [.key "['a']", .key "\\u0041\n"]] := by
  intro document residual expression query
  have regular : document.isRegular = true := by decide
  have accepted : Expression.ofText? expression = some query := by decide
  obtain ⟨places, found, located, valued, asRead, length, reached, same⟩ :=
    locations_reach_matches document regular residual ⟨0, 0, 0⟩ accepted
  obtain ⟨samePlaces, sameValues⟩ := same rfl
  refine ⟨regular, accepted, places, found, located, valued, asRead, length, reached, rfl,
    samePlaces, sameValues, ?_⟩
  rw [samePlaces]
  decide

end RecordPath.Query
