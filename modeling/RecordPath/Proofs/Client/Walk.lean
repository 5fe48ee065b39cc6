import RecordPath.Proofs.Client.SingleField

namespace RecordPath

def Step.refusal (step : Step) (rest : Location) (value : Json) : DocumentError :=
  match step, value with
  | .key name, .object _ =>
      .objectNotFound (if rest = [] then s!"map key '{name}' not found"
        else s!"context map key '{name}' not found")
  | .key _, other => .keyNotFound ("map operation on " ++ other.kind)
  | .index i, .array items =>
      .objectNotFound s!"list index {i} out of range (length {items.length})"
  | .index _, other => .notAList ("list operation on " ++ other.kind)

inductive Walked (memory : Memory) (key : Key) (field : String) (steps : Location) :
    Except DocumentError Json → Prop
  | noRecord (absent : memory.records key = none) :
      Walked memory key field steps (.error (.objectNotFound s!"record {key.text} not found"))
  | noField {record : Record} (there : memory.records key = some record)
      (absent : Members.get? field record.bins = none) (inside : steps ≠ []) :
      Walked memory key field steps (.error (.objectNotFound s!"field '{field}' not found"))
  | nothing {record : Record} (there : memory.records key = some record)
      (absent : Members.get? field record.bins = none) (whole : steps = []) :
      Walked memory key field steps (.ok .null)
  | ends {record : Record} {root value : Json} (there : memory.records key = some record)
      (present : Members.get? field record.bins = some root)
      (reached : root.get? steps = some value) : Walked memory key field steps (.ok value)
  | stops {record : Record} {root target : Json} {before rest : Location} {step : Step}
      (there : memory.records key = some record)
      (present : Members.get? field record.bins = some root)
      (split : steps = before ++ step :: rest) (reached : root.get? before = some target)
      (blocked : target.child? step = none) :
      Walked memory key field steps (.error (step.refusal rest target))

namespace Json

def walk : Location → Json → Except DocumentError Json
  | [], value => .ok value
  | step :: rest, value =>
      match value.child? step with
      | some child => walk rest child
      | none => .error (step.refusal rest value)

variable {value target : Json} {steps before rest : Location} {step last : Step}

theorem walk_of_get? (reached : value.get? steps = some target) :
    value.walk steps = .ok target := by
  induction steps generalizing value with
  | nil =>
      cases reached
      rfl
  | cons step rest ih =>
      obtain ⟨child, hc, hr⟩ := Option.bind_eq_some_iff.1 reached
      rw [walk, hc]
      exact ih hr

theorem walk_of_blocked (reached : value.get? before = some target)
    (blocked : target.child? step = none) :
    value.walk (before ++ step :: rest) = .error (step.refusal rest target) := by
  induction before generalizing value with
  | nil =>
      cases reached
      rw [List.nil_append, walk, blocked]
  | cons next before ih =>
      obtain ⟨child, hc, hr⟩ := Option.bind_eq_some_iff.1 reached
      rw [List.cons_append, walk, hc]
      exact ih hr

theorem exists_blocked (value : Json) {steps : Location} (lost : value.get? steps = none) :
    ∃ before step rest target, steps = before ++ step :: rest ∧
      value.get? before = some target ∧ target.child? step = none := by
  induction steps generalizing value with
  | nil => cases lost
  | cons step rest ih =>
      cases hc : value.child? step with
      | none => exact ⟨[], step, rest, value, rfl, rfl, hc⟩
      | some child =>
          rw [get?, hc, Option.bind_some] at lost
          obtain ⟨before, next, after, target, rfl, reached, blocked⟩ := ih child lost
          exact ⟨step :: before, next, after, target, rfl, by rw [get?, hc]; exact reached, blocked⟩

end Json

namespace Native

open FieldOperation

variable {bins : Members Json} {field : String} {root : Json} {steps : Location}

theorem readValue_getAction (last : Step) (target : Json) :
    (readValue target (getAction last)).mapError StoreError.classify = target.walk [last] := by
  cases last with
  | key name =>
      cases target <;> try rfl
      case object members =>
        simp only [getAction, readValue, asMap, Json.walk, Json.child?]
        cases Members.get? name members <;> rfl
  | index i =>
      cases target <;> try rfl
      case array items =>
        simp only [getAction, readValue, asList, Json.walk, Json.child?]
        cases items[i]? <;> rfl

theorem locate_readValue (last : Step) (steps : Location) : ∀ root : Json,
    ((locate steps root).bind fun target => readValue target (getAction last)).mapError
        StoreError.classify = root.walk (steps ++ [last]) := by
  induction steps with
  | nil => exact readValue_getAction last
  | cons step rest ih =>
      intro root
      have more : rest ++ [last] ≠ [] := by simp
      cases step with
      | key name =>
          cases root <;> try rfl
          case object members =>
            simp only [locate, asMap, List.cons_append, Json.walk, Json.child?]
            cases Members.get? name members with
            | some child => exact ih child
            | none =>
                simp only [Step.refusal, if_neg more]
                rfl
      | index i =>
          cases root <;> try rfl
          case array items =>
            simp only [locate, asList, List.cons_append, Json.walk, Json.child?]
            cases items[i]? with
            | some child => exact ih child
            | none => rfl

theorem read_strictFetch_present (present : Members.get? field bins = some root) :
    (FieldOperation.read bins (strictFetch field steps)).mapError StoreError.classify =
      root.walk steps := by
  rcases List.eq_nil_or_concat steps with rfl | ⟨before, last, rfl⟩
  · simp only [strictFetch, List.getLast?_nil, FieldOperation.read, readField, present, locate]
    rfl
  · rw [List.concat_eq_append, strictFetch_concat, ← locate_readValue]
    simp only [FieldOperation.read, readField, present]
    cases locate before root <;> rfl

theorem read_strictFetch_absent (absent : Members.get? field bins = none) :
    FieldOperation.read bins (strictFetch field steps) =
      if steps = [] then .ok .null else .error (.missingField field) := by
  rcases List.eq_nil_or_concat steps with rfl | ⟨before, last, rfl⟩
  · simp [strictFetch, FieldOperation.read, readField, absent, readsAbsent]
  · rw [List.concat_eq_append, strictFetch_concat, if_neg (by simp)]
    simp only [FieldOperation.read, readField, absent]
    cases last <;> rfl

end Native

namespace Client

variable {config : ClientConfig} {memory : Memory} {key : Key} {field path : String}
  {steps : Location} {answer : Except DocumentError Json}

theorem found_of_walked (native : Path.IsNative path steps)
    (walked : Walked memory key field steps answer) :
    found config memory key field path = answer := by
  rw [found_native native]
  cases walked with
  | noRecord absent =>
      rw [absent]
      rfl
  | noField there absent inside =>
      simp only [there, Native.read_strictFetch_absent absent, if_neg inside]
      rfl
  | nothing there absent whole =>
      simp only [there, Native.read_strictFetch_absent absent, if_pos whole]
      rfl
  | ends there present reached =>
      simp only [there, Native.read_strictFetch_present present, Json.walk_of_get? reached]
  | stops there present split reached blocked =>
      simp only [there, Native.read_strictFetch_present present, split,
        Json.walk_of_blocked reached blocked]

theorem exists_walked (memory : Memory) (key : Key) (field : String) (steps : Location) :
    ∃ answer, Walked memory key field steps answer := by
  cases there : memory.records key with
  | none => exact ⟨_, .noRecord there⟩
  | some record =>
      cases present : Members.get? field record.bins with
      | none =>
          by_cases whole : steps = []
          · exact ⟨_, .nothing there present whole⟩
          · exact ⟨_, .noField there present whole⟩
      | some root =>
          cases reached : root.get? steps with
          | some value => exact ⟨_, .ends there present reached⟩
          | none =>
              obtain ⟨before, step, rest, target, split, reached, blocked⟩ :=
                Json.exists_blocked root reached
              exact ⟨_, .stops there present split reached blocked⟩

theorem found_iff_walked (config : ClientConfig) (memory : Memory) (key : Key) (field : String)
    (native : Path.IsNative path steps) (answer : Except DocumentError Json) :
    found config memory key field path = answer ↔ Walked memory key field steps answer := by
  refine ⟨?_, found_of_walked native⟩
  rintro rfl
  obtain ⟨answer, walked⟩ := exists_walked memory key field steps
  rw [found_of_walked native walked]
  exact walked

/-- The walk goes into the list and stops at its second item, which is no map. -/
theorem found_iff_walked_stopped :
    let key : Key := ⟨"test", "documents", "1"⟩
    let document : Json := .obj [("a", .array [.nat 1, .array [.nat 2]])]
    let memory := (Memory.empty 7).seed key [("doc", document)]
    let steps : Location := [.key "a", .index 1, .key "b", .index 0]
    Path.IsNative "$.a[1].b[0]" steps ∧
      found .standard memory key "doc" "$.a[1].b[0]" =
        .error (.keyNotFound "map operation on list") := by
  intro key document memory steps
  have native : Path.IsNative "$.a[1].b[0]" steps :=
    ⟨⟨"$.a[1].b[0]", steps, none⟩, by decide +kernel, rfl, rfl⟩
  have present : Members.get? "doc" [("doc", document)] = some document := rfl
  have reached : document.get? [.key "a", .index 1] = some (.array [.nat 2]) := by decide +kernel
  have split : steps = [.key "a", .index 1] ++ .key "b" :: [.index 0] := rfl
  exact ⟨native, (found_iff_walked .standard memory key "doc" native _).2
    (.stops rfl present split reached rfl)⟩

end Client

end RecordPath
