import Mathlib.Data.List.Forall2
import RecordPath.Proofs.Batch.Withheld

namespace RecordPath

namespace Item

def hasQuery (item : Item) : Bool :=
  match Path.compile item.path with
  | .ok compiled => compiled.residual.isSome
  | .error _ => false

theorem hasQuery_of_isNative {item : Item} (h : item.isNative = true) : item.hasQuery = false := by
  unfold isNative at h
  unfold hasQuery
  generalize Path.compile item.path = compiled at h ⊢
  cases compiled with
  | error e => rfl
  | ok compiled =>
      dsimp only at h ⊢
      rw [← Option.not_isNone, h]
      rfl

end Item

namespace Batch

structure Complete (item : Item) (result : ItemResult) : Prop where
  key : result.key = item.key
  names : ∀ field, field ∈ result.fields.map Prod.fst ↔ field ∈ item.fields
  once : (result.fields.map Prod.fst).Nodup
  failed : item.fields ≠ [] →
    (result.state = .failed ↔ ∃ field e, Members.get? field result.fields = some (.error e))

structure Ends (config : ClientConfig) (item : Item) (result : ItemResult) : Prop
    extends Complete item result where
  native : item.isNative = true → result.state = .firstStepDone ∨ result.state = .failed
  query : item.hasQuery = true → result.state = .secondStepDone ∨ result.state = .failed
  refused : ∀ e, plan config item = .error e → result.state = .failed ∧
    ∀ field ∈ item.fields, Members.get? field result.fields = some (.error e)
  final : result.state ≠ .pending

variable {config : ClientConfig} {item : Item} {result : ItemResult} {state : ItemState}
  {report : Report} {results : List (String × Outcome)} {planned : Plan} {time : UInt64}

section Complete

theorem complete_of_errors (once : (report.map Prod.fst).Nodup)
    (names : ∀ field, field ∈ report.map Prod.fst ↔ field ∈ item.fields)
    (errors : ∀ field ∈ item.fields, ∃ e, Members.get? field report = some (.error e)) :
    Complete item ⟨item.key, .failed, report⟩ where
  key := rfl
  names := names
  once := once
  failed := fun listed => by
    obtain ⟨field, hf⟩ := List.exists_mem_of_ne_nil item.fields listed
    obtain ⟨e, he⟩ := errors field hf
    exact iff_of_true rfl ⟨field, e, he⟩

theorem complete_failing (item : Item) (e : DocumentError) : Complete item (item.failing e) := by
  refine complete_of_errors (Members.nodup_ofList _) (fun field => ?_) fun field hf => ?_
  · rw [Members.mem_names_ofList, List.map_map]
    exact iff_of_eq (congrArg (field ∈ ·) (List.map_id' item.fields))
  · exact ⟨e, Members.get?_ofList_map _ hf⟩

theorem complete_ofList (names : results.map Prod.fst = item.fields)
    (shown : ∀ field e, (field, .error e) ∈ results →
      Members.get? field (Members.ofList results) = some (.error e))
    (failed : state = .failed ↔ ∃ field e, (field, .error e) ∈ results) :
    Complete item ⟨item.key, state, Members.ofList results⟩ where
  key := rfl
  names := fun field => by rw [Members.mem_names_ofList, names]
  once := Members.nodup_ofList results
  failed := fun _ => by
    rw [failed]
    constructor
    · exact fun ⟨field, e, listed⟩ => ⟨field, e, shown field e listed⟩
    · exact fun ⟨field, e, reported⟩ => ⟨field, e, Members.mem_of_get?_ofList reported⟩

theorem complete_of_values {values : List (String × Json)}
    (names : values.map Prod.fst = item.fields) (state_ne : state ≠ .failed) :
    Complete item ⟨item.key, state, Members.mapValues .ok (Members.ofList values)⟩ := by
  have fine (field : String) (e : DocumentError) :
      (field, .error e) ∉ (Members.mapValues .ok values : List (String × Outcome)) := by
    intro listed
    obtain ⟨value, -, hv⟩ := List.mem_map.1 listed
    cases (Prod.mk.inj hv).2
  rw [← Members.ofList_mapValues]
  refine complete_ofList ((Members.map_fst_mapValues ..).trans names)
    (fun field e listed => absurd listed (fine field e)) ?_
  exact iff_of_false state_ne fun ⟨field, e, listed⟩ => fine field e listed

theorem complete_done (item : Item) (state_ne : state ≠ .failed) :
    Complete item (item.done state) := by
  refine complete_of_values ?_ state_ne
  rw [List.map_map]
  exact List.map_id' item.fields

theorem nodup_poisonedReport (fields : List String) :
    ∀ (errors : Members DocumentError) (report : Report), (report.map Prod.fst).Nodup →
      ((Slot.poisonedReport fields errors report).map Prod.fst).Nodup := by
  induction fields with
  | nil => exact fun _ _ distinct => distinct
  | cons field fields ih =>
      intro errors report distinct
      exact ih _ _ (Members.nodup_insert distinct field _)

theorem get?_poisonedReport_isSome (fields : List String) (errors : Members DocumentError)
    (field : String) :
    (Members.get? field (Slot.poisonedReport fields errors [])).isSome = true ↔ field ∈ fields := by
  rw [get?_poisonedReport, ← List.count_pos_iff]
  rcases fields.count field with _ | _ | n <;> simp [Members.get?]

theorem complete_poisoned (item : Item) (errors : Members DocumentError) :
    Complete item ⟨item.key, .failed, Slot.poisonedReport item.fields errors []⟩ := by
  refine complete_of_errors (nodup_poisonedReport item.fields errors [] List.nodup_nil)
    (fun field => ?_) fun field hf => ?_
  · rw [Members.mem_names_iff, get?_poisonedReport_isSome]
  · have positive := List.count_pos_iff.2 hf
    rw [get?_poisonedReport]
    generalize item.fields.count field = count at positive
    rcases count with _ | _ | n
    · exact absurd positive (Nat.lt_irrefl 0)
    · exact ⟨_, rfl⟩
    · exact ⟨_, rfl⟩

theorem complete_evaluateRead (names : results.map Prod.fst = item.fields)
    (coherent : Coherent results) :
    Complete item ⟨item.key,
      if results.all fun outcome => ItemResult.isSuccess outcome.2 then .secondStepDone
      else .failed, Members.ofList results⟩ := by
  refine complete_ofList names (fun field e listed => ?_) ?_
  · exact Members.get?_ofList_of_mem listed fun other ho => coherent field other _ ho listed
  · constructor
    · intro failed
      split at failed
      · cases failed
      · rename_i some_failed
        rw [List.all_eq_true] at some_failed
        push Not at some_failed
        obtain ⟨⟨field, outcome⟩, listed, unsuccessful⟩ := some_failed
        cases outcome with
        | ok value => exact absurd rfl unsuccessful
        | error e => exact ⟨field, e, listed⟩
    · rintro ⟨field, e, listed⟩
      rw [if_neg]
      intro fine
      cases List.all_eq_true.1 fine _ listed

end Complete

section Ends

theorem Ends.failed_of_plan (complete : Complete item result) (failed : result.state = .failed)
    (h : plan config item = .ok planned) : Ends config item result where
  toComplete := complete
  native := fun _ => .inr failed
  query := fun _ => .inr failed
  refused := fun e he => by rw [h] at he; cases he
  final := by rw [failed]; rintro ⟨⟩

theorem Ends.first (complete : Complete item result) (native : item.isNative = true)
    (state : result.state = .firstStepDone) (h : plan config item = .ok planned) :
    Ends config item result where
  toComplete := complete
  native := fun _ => .inl state
  query := fun query => by rw [Item.hasQuery_of_isNative native] at query; cases query
  refused := fun e he => by rw [h] at he; cases he
  final := by rw [state]; rintro ⟨⟩

theorem Ends.second (complete : Complete item result) (native : item.isNative = false)
    (state : result.state = .secondStepDone ∨ result.state = .failed)
    (h : plan config item = .ok planned) : Ends config item result where
  toComplete := complete
  native := fun taken => by rw [native] at taken; cases taken
  query := fun _ => state
  refused := fun e he => by rw [h] at he; cases he
  final := by rcases state with state | state <;> rw [state] <;> rintro ⟨⟩

end Ends

section Course

/-- The way of an item through a batch, with the memory that the reads see and those that it finds
at its turn among the writes of the first and of the second round. -/
def course (config : ClientConfig) (time : UInt64) (before first second : Memory) (item : Item) :
    ItemResult :=
  let sent := (((Slot.prepare config item).fetchFrom before).sendFirst first).1
  ((sent.evaluated time).sendSecond second).1.result

theorem run_perform_courses (config : ClientConfig) (time : UInt64) (items : List Item)
    (memory : Memory) :
    ((perform config items).run (Memory.storeAt time) memory).1 =
      items.mapIdx fun i => course config time memory (firstTurn config items memory i)
        (secondTurn config time items memory i) := by
  refine List.ext_getElem? fun i => ?_
  rw [run_perform_rounds, List.getElem?_map, getElem?_thread, getElem?_secondSlots,
    List.getElem?_mapIdx, Option.map_map, Option.map_map]
  rfl

theorem forall₂_mapIdx {α β : Type} {R : α → β → Prop} {f : Nat → α → β} (h : ∀ i x, R x (f i x))
    (xs : List α) : List.Forall₂ R xs (xs.mapIdx f) := by
  induction xs generalizing f with
  | nil => exact .nil
  | cons x xs ih =>
      rw [List.mapIdx_cons]
      exact .cons (h 0 x) (ih fun i => h (i + 1))

variable {before first second : Memory}

theorem ends_of_error {e : DocumentError} (h : plan config item = .error e) :
    Ends config item (course config time before first second item) := by
  have prepared : Slot.prepare config item = (Slot.fresh item none).fail e := by
    rw [Slot.prepare, h]
    rfl
  have reported : course config time before first second item = item.failing e := by
    rw [course, prepared]
    rfl
  rw [reported]
  refine ⟨complete_failing item e, fun _ => .inr rfl, fun _ => .inr rfl, fun e' he => ?_,
    by rintro ⟨⟩⟩
  cases h.symm.trans he
  exact ⟨rfl, fun field hf => Members.get?_ofList_map _ hf⟩

theorem ends_of_read {operations : List FieldOperation}
    (h : plan config item = .ok (.read operations))
    (native : item.isNative = true) (length : operations.length = item.fields.length) :
    Ends config item (course config time before first second item) := by
  rw [course, prepare_of_plan h]
  have sent : (Slot.fresh item (some (.read operations))).fetchFrom before =
      (Slot.fresh item (some (.read operations))).takeRead (before.read item.key operations) := rfl
  rw [sent]
  cases reply : before.read item.key operations with
  | error e => exact .failed_of_plan (complete_failing item e.classify) rfl h
  | ok view =>
      obtain ⟨record, -, -, values⟩ := Memory.read_ok reply
      rw [Memory.readAll_eq_mapM] at values
      have names : (item.fields.zip view.values).map Prod.fst = item.fields := by
        refine List.map_fst_zip (Nat.le_of_eq ?_)
        rw [Outcomes.length_of_mapM values, length]
      have reported := @Slot.result_succeed (Slot.fresh item (some (.read operations))) item rfl
        view.values .firstStepDone
      have complete := @complete_of_values item .firstStepDone _ names nofun
      rw [← reported] at complete
      exact .first complete native rfl h

theorem ends_of_write {operations : List FieldOperation}
    (h : plan config item = .ok (.write operations)) (native : item.isNative = true) :
    Ends config item (course config time before first second item) := by
  rw [course, prepare_of_plan h]
  have sent : ((Slot.fresh item (some (.write operations))).fetchFrom before).sendFirst first =
      ((Slot.fresh item (some (.write operations))).takeWrite
        (first.write item.key operations none).1,
        (first.write item.key operations none).2) := rfl
  rw [sent]
  cases (first.write item.key operations none).1 with
  | error e => exact .failed_of_plan (complete_failing item e.classify) rfl h
  | ok view =>
      have done := @Slot.result_written (Slot.fresh item (some (.write operations))) item rfl
        .firstStepDone
      have complete := @complete_done .firstStepDone item nofun
      rw [← done] at complete
      exact .first complete native rfl h

theorem ends_of_evaluateWrite {slot : Slot} {steps : Location} {stamp : Stamp}
    (same : slot.item = item) (state : slot.state ≠ .failed) (native : item.isNative = false)
    (h : plan config item = .ok planned) :
    Ends config item ((slot.evaluateWrite steps stamp results).sendSecond second).1.result := by
  subst same
  by_cases failing : ∃ field e, (field, .error e) ∈ results
  · obtain ⟨field, e, failed⟩ := failing
    rw [evaluateWrite_of_error failed, Slot.sendSecond_of_failed rfl rfl]
    exact .second (complete_poisoned slot.item _) native (.inr rfl) h
  · obtain ⟨outputs, rfl⟩ := Slot.exists_outputs fun field e he => failing ⟨field, e, he⟩
    rw [evaluateWrite_mapValues, Slot.sendSecond_of_operate rfl]
    dsimp only
    generalize (second.write _ _ _).1 = reply
    cases reply with
    | error e =>
        rw [Slot.takeSecond_error (by exact state), Slot.result_fail rfl]
        exact .second (complete_failing slot.item e.classify) native (.inr rfl) h
    | ok view =>
        rw [Slot.takeSecond_ok (by exact state), Slot.result_written rfl]
        exact .second (complete_done slot.item nofun) native (.inl rfl) h

theorem ends_of_evaluateRead {slot : Slot} (same : slot.item = item) (idle : slot.request = none)
    (names : results.map Prod.fst = item.fields) (coherent : Coherent results)
    (native : item.isNative = false) (h : plan config item = .ok planned) :
    Ends config item ((slot.evaluateRead results).sendSecond second).1.result := by
  subst same
  rw [Slot.sendSecond_of_none (by exact idle)]
  refine .second (complete_evaluateRead names coherent) native ?_ h
  dsimp only [Slot.evaluateRead, Slot.result]
  split
  · exact .inl rfl
  · exact .inr rfl

theorem ends_of_twoPhase {fetches : List FieldOperation} {steps : Location} {residual : Residual}
    (h : plan config item = .ok (.twoPhase fetches steps residual)) (native : item.isNative = false)
    (fetched : fetches = item.fields.map (Native.fetchFor item.operation steps)) :
    Ends config item (course config time before first second item) := by
  rw [course, prepare_of_plan h]
  have sent : (Slot.fresh item (some (.twoPhase fetches steps residual))).fetchFrom before =
      (Slot.fresh item (some (.twoPhase fetches steps residual))).takeRead
        (before.read item.key fetches) := rfl
  rw [sent]
  cases reply : before.read item.key fetches with
  | error e => exact .failed_of_plan (complete_failing item e.classify) rfl h
  | ok view =>
      rw [fetched] at reply
      have held : ((((Slot.fresh item (some (.twoPhase fetches steps residual))).takeRead
          (.ok view)).sendFirst first).1.evaluated time) =
          (holding item fetches steps residual view).evaluate steps residual view time :=
        rfl
      rw [held, evaluate_holding]
      split
      · exact ends_of_evaluateWrite rfl (by rintro ⟨⟩) native h
      · exact ends_of_evaluateRead rfl rfl (Client.map_fst_outcomes reply)
          (coherent_outcomes reply) native h

theorem ends_course (config : ClientConfig) (time : UInt64) (before first second : Memory)
    (item : Item) :
    Ends config item (course config time before first second item) := by
  cases h : plan config item with
  | error e => exact ends_of_error h
  | ok plan =>
      cases Batch.planned h with
      | read operations get native length => exact ends_of_read h native length
      | write operations nativeWrite =>
          exact ends_of_write h (Bool.and_eq_true_iff.1 nativeWrite).2
      | twoPhase steps residual native => exact ends_of_twoPhase h native rfl

end Course

theorem perform_ends_each (config : ClientConfig) (time : UInt64) (items : List Item)
    (memory : Memory) :
    let results := ((perform config items).run (Memory.storeAt time) memory).1
    List.Forall₂ (Ends config) items results ∧
      results = items.mapIdx fun i => course config time memory (firstTurn config items memory i)
        (secondTurn config time items memory i) := by
  intro results
  have courses : results = _ := run_perform_courses config time items memory
  refine ⟨?_, courses⟩
  rw [courses]
  exact forall₂_mapIdx (fun i => ends_course config time memory _ _) items

end Batch

end RecordPath
