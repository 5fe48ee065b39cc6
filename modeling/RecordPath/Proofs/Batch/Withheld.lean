import Mathlib.Data.List.InsertIdx
import RecordPath.Proofs.Batch.SingleItem
import RecordPath.Proofs.Batch.Stages

namespace RecordPath

namespace Batch

structure ReportsEach (fields : List String) (results : List (String × Outcome))
    (report : Report) : Prop where
  own : ∀ field e, (field, .error e) ∈ results → Members.get? field report = some (.error e)
  others : ∀ field ∈ fields, (∀ e, (field, .error e) ∉ results) →
    Members.get? field report = some (.error (.itemAborted (-20)))

/-- What a batch answers and leaves is the same without its i-th item, but for the report of it. -/
def LeavesNoTrace (config : ClientConfig) (time : UInt64) (items : List Item) (i : Nat)
    (memory : Memory) : Prop :=
  (perform config (items.eraseIdx i)).run (Memory.storeAt time) memory =
    (((perform config items).run (Memory.storeAt time) memory).1.eraseIdx i,
      ((perform config items).run (Memory.storeAt time) memory).2)

variable {config : ClientConfig} {time : UInt64} {item : Item} {items : List Item}
  {memory before : Memory}
  {slot : Slot} {steps : Location} {stamp : Stamp} {results : List (String × Outcome)}
  {field : String} {e : DocumentError} {i : Nat}

section Report

theorem get?_poisoned_other (listed : field ∈ item.fields)
    (fine : ∀ e, (field, .error e) ∉ results) :
    Members.get? field (Slot.poisonedReport item.fields
        (Members.ofList (Slot.writes steps results).2) []) =
      some (.error (.itemAborted (-20))) := by
  have absent : Members.get? field (Members.ofList (Slot.writes steps results).2) = none := by
    refine Option.eq_none_iff_forall_ne_some.2 fun e he => fine e ?_
    exact Slot.mem_writes_errors.1 (Members.mem_of_get?_ofList he)
  have positive := List.count_pos_iff.2 listed
  rw [get?_poisonedReport, absent]
  generalize item.fields.count field = count at positive
  rcases count with _ | _ | n
  · exact absurd positive (Nat.lt_irrefl 0)
  · rfl
  · rfl

theorem get?_poisoned_own (coherent : Coherent results) (ofQuery : e.isOfQuery = true)
    (listed : field ∈ item.fields) (failed : (field, .error e) ∈ results) :
    Members.get? field (Slot.poisonedReport item.fields
        (Members.ofList (Slot.writes steps results).2) []) =
      some (.error (if item.fields.count field = 1 then e else .itemAborted (-20))) := by
  by_cases once : item.fields.count field = 1
  · rw [if_pos once]
    exact (get?_poisoned_iff coherent ofQuery).2 ⟨once, failed⟩
  · have positive := List.count_pos_iff.2 listed
    rw [if_neg once, get?_poisonedReport]
    generalize item.fields.count field = count at once positive
    rcases count with _ | _ | n
    · exact absurd positive (Nat.lt_irrefl 0)
    · exact absurd rfl once
    · rfl

theorem reportsEach_poisoned_iff (coherent : Coherent results)
    (ofQuery : ∀ field e, (field, .error e) ∈ results → e.isOfQuery = true) :
    ReportsEach item.fields results (Slot.poisonedReport item.fields
        (Members.ofList (Slot.writes steps results).2) []) ↔
      ∀ field e, (field, .error e) ∈ results → item.fields.count field = 1 := by
  constructor
  · intro reports field e failed
    exact ((get?_poisoned_iff coherent (ofQuery field e failed)).1 (reports.own field e failed)).1
  · intro once
    refine ⟨fun field e failed => ?_, fun field listed fine => get?_poisoned_other listed fine⟩
    exact (get?_poisoned_iff coherent (ofQuery field e failed)).2 ⟨once field e failed, failed⟩

theorem classify_ne_aborted (e : StoreError) (code : Int) : e.classify ≠ .itemAborted code := by
  unfold StoreError.classify
  split <;> nofun

theorem get?_mapValues_ne_error (values : List (String × Json)) (field : String)
    (e : DocumentError) :
    Members.get? field (Members.mapValues .ok values : Report) ≠ some (.error e) := by
  rw [Members.get?_mapValues]
  cases Members.get? field values <;> nofun

theorem get?_failing_ne_aborted (item : Item) (field : String) (e : StoreError) (code : Int) :
    Members.get? field (item.failing e.classify).fields ≠ some (.error (.itemAborted code)) := by
  intro reported
  obtain ⟨other, -, he⟩ := List.mem_map.1 (Members.mem_of_get?_ofList reported)
  exact classify_ne_aborted e code (Except.error.inj (Prod.mk.inj he).2)

end Report

section Slots

theorem evaluated_of_outcomes (config : ClientConfig) (write : item.operation ≠ .get)
    (fetched : item.outcomes? time memory = some results) :
    ∃ slot steps stamp, (Slot.prepare config item).fetchFrom memory = slot ∧ slot.item = item ∧
      slot.state ≠ .failed ∧ slot.writeRequest? = none ∧
      slot.evaluated time = slot.evaluateWrite steps stamp results ∧
      Coherent results ∧ results.map Prod.fst = item.fields ∧
      ∀ field e, (field, .error e) ∈ results → e.isOfQuery = true := by
  unfold Item.outcomes? at fetched
  split at fetched
  · cases fetched
  · rename_i compiled compiles
    split at fetched
    · rename_i residual writable query
      dsimp only at fetched
      split at fetched
      · cases fetched
      · rename_i view reply
        cases fetched
        have planned : plan config item = .ok (.twoPhase
            (item.fields.map (Native.fetchFor item.operation compiled.native))
            compiled.native residual) := by
          simp only [plan, compiles, writable, query, Native.mapM_fetch, Except.map]
        refine ⟨holding item (item.fields.map (Native.fetchFor item.operation compiled.native))
            compiled.native residual view, compiled.native, view.stamp, ?_, rfl, by rintro ⟨⟩, rfl,
          ?_, coherent_outcomes reply, Client.map_fst_outcomes reply, fun field e failed => ?_⟩
        · rw [prepare_of_plan planned]
          simp only [Slot.fetchFrom, Slot.fresh, Slot.readRequest?, Memory.answerRead, reply]
          rfl
        · have evaluated := evaluate_holding item
            (item.fields.map (Native.fetchFor item.operation compiled.native)) compiled.native
            residual view time
          rw [if_pos (item.operation.isWrite_iff.2 write)] at evaluated
          exact evaluated
        · obtain ⟨pair, -, hp⟩ := List.mem_map.1 failed
          exact Query.isOfQuery_of_run (congrArg Prod.snd hp)
    · cases fetched

theorem writeRequest?_takeWrite (slot : Slot) (reply : Reply) :
    (slot.takeWrite reply).writeRequest? = slot.writeRequest? := by
  cases reply <;> rfl

theorem request_takeSecond (slot : Slot) (reply : Reply) :
    (slot.takeSecond reply).request = slot.request := by
  unfold Slot.takeSecond
  split
  · rfl
  · cases reply <;> rfl

theorem sendFirst_idle (memory : Memory) (slot : Slot)
    (idle : (slot.sendFirst memory).1.writeRequest? = none) :
    (slot.sendFirst memory).2 = memory := by
  unfold Slot.sendFirst Slot.send at idle ⊢
  cases sent : slot.writeRequest? with
  | none => rfl
  | some request =>
      rw [sent] at idle
      dsimp only at idle
      rw [writeRequest?_takeWrite, sent] at idle
      cases idle

theorem sendSecond_idle (memory : Memory) (slot : Slot)
    (idle : ∃ key code, (slot.sendSecond memory).1.request = some (.reject key code)) :
    (slot.sendSecond memory).2 = memory := by
  obtain ⟨key, code, rejected⟩ := idle
  unfold Slot.sendSecond Slot.send at rejected ⊢
  cases sent : slot.request with
  | none => rfl
  | some request =>
      rw [sent] at rejected
      dsimp only at rejected
      rw [request_takeSecond, sent] at rejected
      cases rejected
      rfl

end Slots

section Rounds

def secondSlots (config : ClientConfig) (time : UInt64) (items : List Item) (memory : Memory) :
    List Slot :=
  (firstRound config items memory).1.map (Slot.evaluated time)

def firstTurn (config : ClientConfig) (items : List Item) (memory : Memory) (i : Nat) : Memory :=
  (firstRound config (items.take i) memory).2

def secondTurn (config : ClientConfig) (time : UInt64) (items : List Item) (memory : Memory)
    (i : Nat) : Memory :=
  (thread Slot.sendSecond (firstRound config items memory).2
    ((secondSlots config time items memory).take i)).2

theorem run_perform_rounds (config : ClientConfig) (time : UInt64) (items : List Item)
    (memory : Memory) :
    (perform config items).run (Memory.storeAt time) memory =
      ((thread Slot.sendSecond (firstRound config items memory).2
          (secondSlots config time items memory)).1.map Slot.result,
        (thread Slot.sendSecond (firstRound config items memory).2
          (secondSlots config time items memory)).2) := by
  rw [run_perform, run_secondRound, secondSlots]

theorem getElem?_firstRound (config : ClientConfig) (items : List Item) (memory : Memory)
    (i : Nat) :
    (firstRound config items memory).1[i]? = items[i]?.map fun item =>
      (((Slot.prepare config item).fetchFrom memory).sendFirst
        (firstTurn config items memory i)).1 := by
  rw [firstRound, getElem?_thread, List.getElem?_map, List.getElem?_map, Option.map_map,
    Option.map_map, firstTurn, firstRound, List.map_take, List.map_take]
  rfl

theorem getElem?_secondSlots (config : ClientConfig) (time : UInt64) (items : List Item)
    (memory : Memory) (i : Nat) :
    (secondSlots config time items memory)[i]? = items[i]?.map fun item =>
      (((Slot.prepare config item).fetchFrom memory).sendFirst
        (firstTurn config items memory i)).1.evaluated time := by
  rw [secondSlots, List.getElem?_map, getElem?_firstRound, Option.map_map]
  rfl

variable (there : items[i]? = some item)
  (prepared : (Slot.prepare config item).fetchFrom memory = slot)
  (waits : slot.writeRequest? = none)
include there prepared waits

theorem getElem?_firstRound_of_waits :
    (firstRound config items memory).1[i]? = some slot := by
  rw [getElem?_firstRound, there, Option.map_some, prepared, Slot.sendFirst_of_none waits]

theorem firstRound_eraseIdx :
    firstRound config (items.eraseIdx i) memory =
      ((firstRound config items memory).1.eraseIdx i, (firstRound config items memory).2) := by
  rw [firstRound, ← List.eraseIdx_map, ← List.eraseIdx_map]
  exact thread_eraseIdx (fun slot => slot.writeRequest? = none) sendFirst_idle memory _ i slot
    (getElem?_firstRound_of_waits there prepared waits) waits

theorem getElem?_secondSlots_of_waits :
    (secondSlots config time items memory)[i]? = some (slot.evaluated time) := by
  rw [secondSlots, List.getElem?_map, getElem?_firstRound_of_waits there prepared waits,
    Option.map_some]

theorem getElem?_perform :
    ((perform config items).run (Memory.storeAt time) memory).1[i]? =
      some ((slot.evaluated time).sendSecond (secondTurn config time items memory i)).1.result := by
  rw [run_perform_rounds, List.getElem?_map, getElem?_thread,
    getElem?_secondSlots_of_waits there prepared waits, Option.map_some, Option.map_some,
    secondTurn]

theorem leavesNoTrace_of_rejected {key : Key} {code : Int}
    (rejected : (slot.evaluated time).request = some (.reject key code))
    (failed : (slot.evaluated time).state = .failed) :
    LeavesNoTrace config time items i memory := by
  have turn : (thread Slot.sendSecond (firstRound config items memory).2
      (secondSlots config time items memory)).1[i]? = some (slot.evaluated time) := by
    rw [getElem?_thread, getElem?_secondSlots_of_waits there prepared waits, Option.map_some,
      Slot.sendSecond_of_failed rejected failed]
  have fewer : secondSlots config time (items.eraseIdx i) memory =
      (secondSlots config time items memory).eraseIdx i := by
    rw [secondSlots, firstRound_eraseIdx there prepared waits, ← List.eraseIdx_map, secondSlots]
  have second := thread_eraseIdx
    (fun slot => ∃ key code, slot.request = some (.reject key code)) sendSecond_idle
    (firstRound config items memory).2 (secondSlots config time items memory) i _ turn
    ⟨key, code, rejected⟩
  rw [LeavesNoTrace, run_perform_rounds, run_perform_rounds, fewer,
    firstRound_eraseIdx there prepared waits, second, ← List.eraseIdx_map]

end Rounds

theorem get?_sendSecond_ne_aborted {key : Key} {operations : List FieldOperation}
    {expected : Option UInt32} (request : slot.request = some (.operate key operations expected))
    (same : slot.item = item) (state : slot.state ≠ .failed) (now : Memory) (field : String)
    (code : Int) :
    Members.get? field (slot.sendSecond now).1.result.fields ≠
      some (.error (.itemAborted code)) := by
  rw [Slot.sendSecond_of_operate request]
  cases (now.write key operations expected).1 with
  | error reply =>
      rw [Slot.takeSecond_error state, Slot.result_fail same]
      exact get?_failing_ne_aborted item field reply code
  | ok view =>
      rw [Slot.takeSecond_ok state, Slot.result_written same]
      exact get?_mapValues_ne_error _ field _

/-- An item of a batch whose query fails for a field leaves no trace but its report, where each
field has its own error or is aborted, unless a field that failed is listed again; and where no
query fails, no field reports that the item was aborted. -/
theorem failing_item_withheld (config : ClientConfig) (time : UInt64) {items : List Item} {i : Nat}
    {item : Item} (memory : Memory) {results : List (String × Outcome)}
    (there : items[i]? = some item)
    (write : item.operation ≠ .get) (fetched : item.outcomes? time memory = some results) :
    ∃ result, ((perform config items).run (Memory.storeAt time) memory).1[i]? = some result ∧
      ((∃ field e, (field, .error e) ∈ results) →
        LeavesNoTrace config time items i memory ∧ result.state = .failed ∧
        (∀ field e, (field, .error e) ∈ results → Members.get? field result.fields =
          some (.error (if item.fields.count field = 1 then e else .itemAborted (-20)))) ∧
        (∀ field ∈ item.fields, (∀ e, (field, .error e) ∉ results) →
          Members.get? field result.fields = some (.error (.itemAborted (-20)))) ∧
        (ReportsEach item.fields results result.fields ↔
          ∀ field e, (field, .error e) ∈ results → item.fields.count field = 1)) ∧
      ((∀ field e, (field, .error e) ∉ results) → ∀ field code,
        Members.get? field result.fields ≠ some (.error (.itemAborted code))) := by
  obtain ⟨slot, steps, stamp, prepared, same, state, waits, evaluated, coherent, names, ofQuery⟩ :=
    evaluated_of_outcomes config write fetched
  refine ⟨_, getElem?_perform there prepared waits, ?_, fun fine field code => ?_⟩
  · rintro ⟨_, _, failed⟩
    have poisoned := evaluated.trans (evaluateWrite_of_error failed)
    have rejected : (slot.evaluated time).request =
        some (.reject slot.item.key Batch.poisoned) := by rw [poisoned]; rfl
    have stopped : (slot.evaluated time).state = .failed := by rw [poisoned]; rfl
    have report : (slot.evaluated time).report = Slot.poisonedReport item.fields
        (Members.ofList (Slot.writes steps results).2) [] := by
      rw [poisoned, ← same]
      rfl
    have listed {field : String} {e : DocumentError} (failed : (field, .error e) ∈ results) :
        field ∈ item.fields := names ▸ List.mem_map_of_mem failed
    rw [Slot.sendSecond_of_failed rejected stopped]
    refine ⟨leavesNoTrace_of_rejected there prepared waits rejected stopped, stopped, ?_⟩
    simp only [Slot.result, report]
    exact ⟨fun field e failed =>
        get?_poisoned_own coherent (ofQuery field e failed) (listed failed) failed,
      fun field listed fine => get?_poisoned_other listed fine,
      reportsEach_poisoned_iff coherent ofQuery⟩
  · obtain ⟨outputs, rfl⟩ := Slot.exists_outputs fine
    have bound := evaluated.trans evaluateWrite_mapValues
    have request : (slot.evaluated time).request =
        some ((Guard.capture slot.item.key stamp).request
          (outputs.map fun output => Native.writeBack steps output.1 output.2)) := by rw [bound]
    have kept : (slot.evaluated time).item = item ∧
        (slot.evaluated time).state ≠ .failed := by
      rw [bound]
      exact ⟨same, state⟩
    exact get?_sendSecond_ne_aborted request kept.1 kept.2 _ field code

/-- One field fails and the other does not, and the item after them is served as if alone. -/
theorem failing_item_withheld_other_field :
    let key : Key := ⟨"test", "documents", "1"⟩
    let memory := (Memory.empty 7).seed key
      [("a", .array [.nat 1]), ("b", .array [.array []])]
    let item : Item := ⟨key, ["a", "b"], "$[*]", .append (.nat 9)⟩
    let items : List Item := [item, ⟨key, ["b"], "$[*]", .append (.nat 9)⟩]
    let e : DocumentError := .notAList "match of '$[*]' is a number"
    let results : List (String × Outcome) :=
      [("a", .error e), ("b", .ok (.array [.array [.nat 9]]))]
    items[0]? = some item ∧ item.operation ≠ .get ∧ item.outcomes? 9 memory = some results ∧
      ∃ result, ((perform .standard items).run (Memory.storeAt 9) memory).1[0]? = some result ∧
        LeavesNoTrace .standard 9 items 0 memory ∧ result.state = .failed ∧
        ReportsEach item.fields results result.fields := by
  intro key memory item items e results
  have write : item.operation ≠ .get := by rintro ⟨⟩
  have fetched : item.outcomes? 9 memory = some results := by decide +kernel
  obtain ⟨result, there, failing, -⟩ :=
    @failing_item_withheld .standard 9 items 0 item memory results rfl write fetched
  obtain ⟨trace, state, -, -, each⟩ := failing ⟨"a", e, List.mem_cons_self⟩
  refine ⟨rfl, write, fetched, result, there, trace, state, each.2 fun field e' failed => ?_⟩
  rcases List.mem_cons.1 failed with same | failed
  · obtain ⟨rfl, -⟩ := Prod.mk.inj same
    decide
  · cases List.mem_singleton.1 failed

theorem not_reportsEach_field_twice :
    let key : Key := ⟨"test", "documents", "1"⟩
    let memory := (Memory.empty 7).seed key [("doc", .array [.nat 1])]
    let item : Item := ⟨key, ["doc", "doc"], "$[*]", .append (.nat 9)⟩
    let e : DocumentError := .notAList "match of '$[*]' is a number"
    ∃ (results : List (String × Outcome)) (result : ItemResult),
      item.outcomes? 9 memory = some results ∧ ("doc", .error e) ∈ results ∧
      ((perform .standard [item]).run (Memory.storeAt 9) memory).1[0]? = some result ∧
      ¬ ReportsEach item.fields results result.fields := by
  intro key memory item e
  have report : (((perform .standard [item]).run (Memory.storeAt 9) memory).1[0]?.map
      ItemResult.fields) = some [("doc", .error (.itemAborted (-20)))] := by decide +kernel
  obtain ⟨result, there, fields⟩ := Option.map_eq_some_iff.1 report
  refine ⟨[("doc", .error e), ("doc", .error e)], result, by decide +kernel, List.mem_cons_self,
    there, fun each => ?_⟩
  have own := each.own "doc" e List.mem_cons_self
  rw [fields] at own
  simp [Members.get?, e] at own

end Batch

end RecordPath
