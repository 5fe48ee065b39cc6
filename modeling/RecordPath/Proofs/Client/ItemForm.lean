import RecordPath.Client.ItemForm
import RecordPath.Proofs.Json.Ordered

namespace RecordPath

open Written

section Fields

variable {names : List String} {pairs : List (String × Json)} {name : String} {value : Json}
  {members : List (String × Json)}

theorem Json.itemsWritten_eq (items : List Json) :
    Json.itemsWritten items = items.map Json.written := by
  induction items with
  | nil => rfl
  | cons item items ih => rw [Json.itemsWritten, ih, List.map_cons]

theorem Written.named?_membersWritten (members : List (String × Json)) :
    named? (Json.membersWritten members) = some (Members.mapValues Json.written members) := by
  induction members with
  | nil => rfl
  | cons member members ih =>
      rw [Json.membersWritten, named?, ih]
      rfl

theorem Written.fields?_object (distinct : (members.map Prod.fst).Nodup)
    (known : ∀ n ∈ members.map Prod.fst, n ∈ names) :
    fields? names (Json.object members).written =
      some (Members.mapValues Json.written members) := by
  have all : (Members.mapValues Json.written members).filter
      (fun member => names.contains member.1) = Members.mapValues Json.written members := by
    apply List.filter_eq_self.2
    intro member hm
    obtain ⟨source, listed, rfl⟩ := List.mem_map.1 hm
    exact List.contains_iff_mem.2 (known _ (List.mem_map_of_mem listed))
  rw [Json.written, fields?, named?_membersWritten]
  simp only [all, Members.map_fst_mapValues, distinct, if_true]

theorem lookup_eq_get? {α : Type} (name : String) (members : Members α) :
    members.lookup name = Members.get? name members := by
  induction members with
  | nil => rfl
  | cons member rest ih =>
      obtain ⟨n, value⟩ := member
      rw [List.lookup_cons, Members.get?, ih]
      by_cases same : n = name
      · simp [same]
      · have other : (name == n) = false := beq_eq_false_iff_ne.2 (Ne.symm same)
        rw [if_neg same, other]

theorem Members.get?_ofList_of_nodup (distinct : (pairs.map Prod.fst).Nodup)
    (listed : (name, value) ∈ pairs) : Members.get? name (Members.ofList pairs) = some value := by
  apply Members.get?_ofList_of_mem listed
  intro other ho
  have first := Members.get?_of_mem distinct listed
  exact Option.some.inj ((Members.get?_of_mem distinct ho).symm.trans first)

theorem Written.exists_fields?_obj (names : List String) (pairs : List (String × Json))
    (distinct : (pairs.map Prod.fst).Nodup) (known : ∀ n ∈ pairs.map Prod.fst, n ∈ names) :
    ∃ fields, fields? names (Json.obj pairs).written = some fields ∧
      (∀ name value, (name, value) ∈ pairs → fields.lookup name = some value.written) ∧
      ∀ name, name ∉ pairs.map Prod.fst → fields.lookup name = none := by
  have listed : ∀ n ∈ (Members.ofList pairs).map Prod.fst, n ∈ names := fun n hn =>
    known n (Members.mem_names_ofList.1 hn)
  refine ⟨_, fields?_object (Members.nodup_ofList pairs) listed, ?_, ?_⟩
  · intro name value there
    rw [lookup_eq_get?, Members.get?_mapValues, Members.get?_ofList_of_nodup distinct there,
      Option.map_some]
  · intro name absent
    rw [lookup_eq_get?, Members.get?_mapValues]
    rw [← Members.mem_names_ofList, Members.mem_names_iff, Bool.not_eq_true,
      Option.isSome_eq_false_iff, Option.isNone_iff_eq_none] at absent
    rw [absent, Option.map_none]

end Fields

theorem Key.ofWritten?_toJson (key : Key) : Key.ofWritten? key.toJson.written = some key := by
  obtain ⟨fields, read, there, -⟩ := exists_fields?_obj ["namespace", "setName", "userKey"]
    [("namespace", .string key.space), ("setName", .string key.set),
      ("userKey", .string key.user)] (by simp) (by simp)
  have space := there "namespace" (.string key.space) (by simp)
  have set := there "setName" (.string key.set) (by simp)
  have user := there "userKey" (.string key.user) (by simp)
  simp only [Key.ofWritten?, Key.toJson, read, field?, space, set, user, Json.written, asText?,
    Option.bind_eq_bind, Option.bind_some]

namespace Operation

def Ordered : Operation → Prop
  | .put value => value.Ordered
  | .append value => value.Ordered
  | _ => True

variable {operation : Operation}

theorem ofWritten?_obj (value? : Written Number → Option Json) (name : String)
    (value : Option Json) :
    ofWritten? value? (Json.obj (("op", .string name) ::
        value.toList.map fun value => ("value", value))).written =
      ofParts? value? name (value.map Json.written) := by
  cases value with
  | none =>
      obtain ⟨fields, read, there, absent⟩ := exists_fields?_obj ["op", "value"]
        [("op", .string name)] (by simp) (by simp)
      have op := there "op" (.string name) (by simp)
      have unset := absent "value" (by simp)
      simp only [Json.obj, Json.written] at read
      simp only [Option.toList_none, List.map_nil, Json.obj, Json.written, ofWritten?, read, field?,
        op, unset, asWord?, Option.bind_eq_bind, Option.bind_some, Option.map_none]
  | some value =>
      obtain ⟨fields, read, there, -⟩ := exists_fields?_obj ["op", "value"]
        [("op", .string name), ("value", value)] (by simp) (by simp)
      have op := there "op" (.string name) (by simp)
      have content := there "value" value (by simp)
      simp only [Json.obj, Json.written] at read
      simp only [Option.toList_some, List.map_cons, List.map_nil, Json.obj, Json.written,
        ofWritten?, read, field?, op, content, asWord?, Option.bind_eq_bind, Option.bind_some,
        Option.map_some]

theorem ofWritten?_toJson (ordered : operation.Ordered) :
    ofWritten? (toJson? some) operation.toJson.written = some operation := by
  cases operation with
  | get => exact ofWritten?_obj _ "get" none
  | delete => exact ofWritten?_obj _ "delete" none
  | put value =>
      have read := ofWritten?_obj (toJson? some) "put" (some value)
      rw [toJson]
      refine read.trans ?_
      simp only [ofParts?, Option.map_some, Option.bind_some, toJson?_written ordered]
  | append value =>
      have read := ofWritten?_obj (toJson? some) "append" (some value)
      rw [toJson]
      refine read.trans ?_
      simp only [ofParts?, Option.map_some, Option.bind_some, toJson?_written ordered]

variable {ν : Type} {decode? : Written ν → Option Json} {w : Written ν}

theorem ordered_of_ofParts? (values : ∀ w value, decode? w = some value → value.Ordered)
    {name : String} {content : Option (Written ν)}
    (read : ofParts? decode? name content = some operation) : operation.Ordered := by
  unfold ofParts? at read
  split at read
  · split at read <;> cases read
    trivial
  · split at read <;> cases read
    trivial
  · obtain ⟨value, decoded, rfl⟩ := Option.map_eq_some_iff.1 read
    obtain ⟨w, -, decoded⟩ := Option.bind_eq_some_iff.1 decoded
    exact values w value decoded
  · obtain ⟨value, decoded, rfl⟩ := Option.map_eq_some_iff.1 read
    obtain ⟨w, -, decoded⟩ := Option.bind_eq_some_iff.1 decoded
    exact values w value decoded
  · cases read

theorem ordered_of_ofWritten? (values : ∀ w value, decode? w = some value → value.Ordered)
    (read : ofWritten? decode? w = some operation) : operation.Ordered := by
  unfold ofWritten? at read
  split at read
  · obtain ⟨name, -, parts⟩ := Option.bind_eq_some_iff.1 read
    exact ordered_of_ofParts? values parts
  · obtain ⟨fields, -, named⟩ := Option.bind_eq_some_iff.1 read
    obtain ⟨name, -, parts⟩ := Option.bind_eq_some_iff.1 named
    exact ordered_of_ofParts? values parts
  · cases read

end Operation

namespace Item

theorem asTexts?_written (names : List String) :
    asTexts? (Json.array (names.map .string)).written = some names := by
  have each : (names.map fun name => (Json.string name).written).mapM asText? = some names := by
    induction names with
    | nil => rfl
    | cons name names ih =>
        rw [List.map_cons, List.mapM_cons, ih]
        rfl
  rw [Json.written, asTexts?, Json.itemsWritten_eq, List.map_map]
  exact each

theorem ofWritten?_toJson {item : Item} (ordered : item.operation.Ordered) :
    ofWritten? (toJson? some) item.toJson.written = some item := by
  obtain ⟨fields, read, there, -⟩ := exists_fields?_obj ["key", "fields", "path", "operation"]
    [("key", item.key.toJson), ("fields", .array (item.fields.map .string)),
      ("path", .string item.path), ("operation", item.operation.toJson)] (by simp) (by simp)
  have key := there "key" item.key.toJson (by simp)
  have names := there "fields" (.array (item.fields.map .string)) (by simp)
  have path := there "path" (.string item.path) (by simp)
  have operation := there "operation" item.operation.toJson (by simp)
  simp only [ofWritten?, toJson, read, field?, key, names, path, operation,
    Key.ofWritten?_toJson, asTexts?_written, Operation.ofWritten?_toJson ordered,
    Option.bind_eq_bind, Option.bind_some]
  rfl

theorem listOfJson?_listToJson {items : List Item}
    (ordered : ∀ item ∈ items, item.operation.Ordered) :
    listOfJson? (listToJson items) = some items := by
  rw [listOfJson?, listToJson, Json.written, listOfWritten?, Json.itemsWritten_eq, List.map_map]
  induction items with
  | nil => rfl
  | cons item items ih =>
      have first := ofWritten?_toJson (ordered item List.mem_cons_self)
      have rest := ih fun other ho => ordered other (List.mem_cons_of_mem item ho)
      rw [List.map_cons, List.mapM_cons, rest, Function.comp_apply, first]
      rfl

variable {ν : Type} {decode? : Written ν → Option Json} {w : Written ν}

theorem ordered_of_ofWritten? {item : Item}
    (values : ∀ w value, decode? w = some value → value.Ordered)
    (read : ofWritten? decode? w = some item) : item.operation.Ordered := by
  obtain ⟨fields, -, read⟩ := Option.bind_eq_some_iff.1 read
  obtain ⟨key, -, read⟩ := Option.bind_eq_some_iff.1 read
  obtain ⟨names, -, read⟩ := Option.bind_eq_some_iff.1 read
  obtain ⟨path, -, read⟩ := Option.bind_eq_some_iff.1 read
  obtain ⟨operation, decoded, read⟩ := Option.bind_eq_some_iff.1 read
  cases read
  unfold field? at decoded
  split at decoded
  · exact Operation.ordered_of_ofWritten? values decoded
  · cases decoded

theorem ordered_of_listOfWritten? {items : List Item}
    (values : ∀ w value, decode? w = some value → value.Ordered)
    (read : listOfWritten? decode? w = some items) :
    ∀ item ∈ items, item.operation.Ordered := by
  unfold listOfWritten? at read
  split at read
  · rename_i sources
    induction sources generalizing items with
    | nil =>
        cases read
        exact fun item there => absurd there List.not_mem_nil
    | cons source sources ih =>
        rw [List.mapM_cons] at read
        obtain ⟨first, decoded, read⟩ := Option.bind_eq_some_iff.1 read
        obtain ⟨rest, others, read⟩ := Option.bind_eq_some_iff.1 read
        cases read
        intro item there
        rcases List.mem_cons.1 there with rfl | later
        · exact ordered_of_ofWritten? values decoded
        · exact ih others item later
  · cases read

theorem listOfJson?_rewritten :
    (∀ items : List Item, (∀ item ∈ items, item.operation.Ordered) →
      listOfJson? (listToJson items) = some items) ∧
    (∀ value items, listOfJson? value = some items →
      listOfJson? (listToJson items) = some items) ∧
    (∀ text items, listOfText? text = some items →
      listOfJson? (listToJson items) = some items) := by
  refine ⟨fun items => listOfJson?_listToJson, ?_, ?_⟩
  · intro value items read
    apply listOfJson?_listToJson
    exact ordered_of_listOfWritten? (fun w value => ordered_of_toJson?) read
  · intro text items read
    obtain ⟨w, -, decoded⟩ := Option.bind_eq_some_iff.1 read
    apply listOfJson?_listToJson
    apply ordered_of_listOfWritten? _ decoded
    intro w value bounded
    unfold bounded? at bounded
    split at bounded
    · exact ordered_of_toJson? bounded
    · cases bounded

/-- Arrays for structures, members in another order and passed over, a null for a value and a
null for no value. -/
theorem listOfJson?_rewritten_forms :
    let key : Json := .array [.string "test", .string "s\"e\\t", .string ""]
    let value : Json := .array [
      .array [key, .array [.string "a", .string ""], .string "$.a",
        .array [.string "put", .null]],
      .object [("extra", .null), ("fields", .array []), ("key", key),
        ("operation", .object [("op", .object [("get", .null)]), ("value", .null)]),
        ("path", .string "$")]]
    let text := "[[[\"a\",\"b\",\"c\"],[],\"$\",[\"append\",\x7b\"z\":1,\"a\":2\x7d]]]"
    let items := [
      ⟨⟨"test", "s\"e\\t", ""⟩, ["a", ""], "$.a", .put .null⟩,
      ⟨⟨"test", "s\"e\\t", ""⟩, [], "$", .get⟩]
    let appended : Json := .object [("a", .number (.int 2)), ("z", .number (.int 1))]
    let sent := [⟨⟨"a", "b", "c"⟩, [], "$", .append appended⟩]
    ((∀ item ∈ sent, item.operation.Ordered) ∧ listOfJson? (listToJson sent) = some sent) ∧
      (listOfJson? value = some items ∧ listOfJson? (listToJson items) = some items) ∧
      (listOfText? text = some sent ∧ listOfJson? (listToJson sent) = some sent) := by
  intro key value text items appended sent
  have ordered : ∀ item ∈ sent, item.operation.Ordered := by
    intro item there
    cases List.mem_singleton.1 there
    have names : ["a", "z"].Pairwise (· < ·) := by decide
    exact ⟨names, trivial, trivial, trivial⟩
  have read : listOfJson? value = some items := rfl
  have readText : listOfText? text = some sent := by decide +kernel
  exact ⟨⟨ordered, listOfJson?_rewritten.1 sent ordered⟩,
    ⟨read, listOfJson?_rewritten.2.1 value items read⟩,
    ⟨readText, listOfJson?_rewritten.2.2 text sent readText⟩⟩

end Item

end RecordPath
