import Mathlib.Control.Monad.Basic
import RecordPath.Proofs.Batch.Alone
import RecordPath.Proofs.Batch.Poisoned

namespace RecordPath

def Item.exchange (config : ClientConfig) (item : Item) : Exchange Answer :=
  Client.execute config item.key item.fields item.path item.operation

def Item.outcomes? (item : Item) (time : UInt64) (memory : Memory) :
    Option (List (String × Outcome)) :=
  match Path.compile item.path with
  | .error _ => none
  | .ok compiled =>
      match Query.checkWritable compiled item.operation, compiled.residual with
      | .ok (), some residual =>
          let fetches := item.fields.map (Native.fetchFor item.operation compiled.native)
          match memory.read item.key fetches with
          | .error _ => none
          | .ok view =>
              let record := Client.context view.stamp time
              some (Client.outcomes residual record item.operation (item.fields.zip view.values))
      | _, _ => none

def Item.KeepsError (item : Item) (time : UInt64) (memory : Memory) : Prop :=
  item.operation ≠ .get → ∀ results e, item.outcomes? time memory = some results →
    Client.firstError? results = some e →
    ∃ field, item.fields.count field = 1 ∧ (field, .error e) ∈ results

namespace Item

variable {item : Item} {time : UInt64} {memory : Memory} {results : List (String × Outcome)}

theorem keepsError_of_none (h : item.outcomes? time memory = none) :
    item.KeepsError time memory := by
  intro _ results e hr
  rw [h] at hr
  cases hr

theorem keepsError_of_ok (h : item.outcomes? time memory = some results)
    (ok : Client.firstError? results = none) : item.KeepsError time memory := by
  intro _ others e hr first
  rw [h] at hr
  cases hr
  rw [ok] at first
  cases first

theorem keepsError_iff {e : DocumentError} (write : item.operation ≠ .get)
    (h : item.outcomes? time memory = some results) (first : Client.firstError? results = some e) :
    item.KeepsError time memory ↔
      ∃ field, item.fields.count field = 1 ∧ (field, .error e) ∈ results := by
  constructor
  · exact fun keeps => keeps write results e h first
  · intro own _ others e' hr hf
    rw [h] at hr
    cases hr
    rw [first] at hf
    cases hf
    exact own

end Item

namespace Batch

structure Agreement (call : Answer × Memory) (batch : ItemResult × Memory) : Prop where
  records : batch.2.records = call.2.records
  success : batch.1.state ≠ .failed ∧ batch.1.isOk = true ↔ ∃ values, call.1 = .ok values
  values : ∀ values, call.1 = .ok values → batch.1.fields = Members.mapValues .ok values
  failure : ∀ e, call.1 = .error e → batch.1.state = .failed ∧ batch.1.isOk = false ∧
    ∃ field, Members.get? field batch.1.fields = some (.error e)

variable {config : ClientConfig} {time : UInt64} {item : Item} {memory after : Memory} {key : Key}
  {state : ItemState} {report : Report}

theorem all_isSuccess (values : Fields) :
    (Members.mapValues .ok values : Report).all (fun entry => ItemResult.isSuccess entry.2) =
      true := by
  refine List.all_eq_true.2 fun entry he => ?_
  obtain ⟨member, -, rfl⟩ := List.mem_map.1 he
  rfl

theorem isOk_of_error {field : String} {e : DocumentError}
    (h : Members.get? field report = some (.error e)) :
    ItemResult.isOk ⟨key, state, report⟩ = false := by
  refine List.all_eq_false.2 ⟨(field, .error e), Members.mem_of_get? h, ?_⟩
  exact Bool.false_ne_true

theorem agreement_ok (h : state ≠ .failed) (values : Fields) :
    Agreement (.ok values, after) (⟨key, state, Members.mapValues .ok values⟩, after) where
  records := rfl
  success := iff_of_true ⟨h, all_isSuccess values⟩ ⟨values, rfl⟩
  values := by
    rintro _ ⟨⟩
    rfl
  failure := by rintro e ⟨⟩

theorem agreement_error {field : String} {e : DocumentError}
    (h : Members.get? field report = some (.error e)) :
    Agreement (.error e, after) (⟨key, .failed, report⟩, after) where
  records := rfl
  success := by
    refine iff_of_false (fun success => success.1 rfl) ?_
    rintro ⟨values, ⟨⟩⟩
  values := by rintro values ⟨⟩
  failure := by
    rintro _ ⟨⟩
    exact ⟨rfl, isOk_of_error h, field, h⟩

theorem agreement_failing (listed : item.fields ≠ []) (e : DocumentError) :
    Agreement (.error e, after) (item.failing e, after) := by
  obtain ⟨field, hf⟩ := List.exists_mem_of_ne_nil _ listed
  have reported : Members.get? field (item.failing e).fields = some (.error e) :=
    Members.get?_ofList_map (fun _ => (.error e : Outcome)) hf
  exact agreement_error reported

theorem agreement_done (h : state ≠ .failed) :
    Agreement (.ok (Client.nulls item.fields), after) (item.done state, after) :=
  agreement_ok h (Client.nulls item.fields)

theorem not_agreement_failing (empty : item.fields = []) (answer : Answer) (e : DocumentError) :
    ¬ Agreement (answer, memory) (item.failing e, after) := by
  intro agreement
  have failing : item.failing e = ⟨item.key, .failed, []⟩ := by
    rw [Item.failing, empty]
    rfl
  rw [failing] at agreement
  cases answer with
  | error e' =>
      obtain ⟨-, ok, -⟩ := agreement.failure e' rfl
      cases ok
  | ok values => exact (agreement.success.2 ⟨values, rfl⟩).1 rfl

theorem not_agreement_of_write {operations : List FieldOperation} {expected : Option UInt32}
    {view : View} {answer : Answer} {result : ItemResult}
    (h : memory.write key operations expected = (.ok view, after)) :
    ¬ Agreement (answer, memory) (result, after) := by
  intro agreement
  have same : after.generation key = memory.generation key :=
    Memory.generation_congr (congrFun agreement.records key)
  have next : after.generation key = memory.generation key + .ofNat 1 := by
    have := Memory.write_generation (congrArg Prod.fst h)
    rw [h] at this
    exact this
  exact Memory.add_ofNat_ne Nat.one_ne_zero (by decide) (next.symm.trans same)

theorem agreement_native {compiled : CompiledPath} (listed : item.fields ≠ [])
    (compiles : Path.compile item.path = .ok compiled)
    (writable : Query.checkWritable compiled item.operation = .ok ())
    (native : compiled.residual = none) :
    Agreement ((item.exchange config).run (Memory.storeAt time) memory)
        (alone config time memory item) := by
  have exchange : item.exchange config =
      Client.singlePhase config item.key item.fields compiled.native item.operation := by
    simp only [Item.exchange, Client.execute, compiles, writable, listed, if_false, native]
  rw [exchange]
  cases built : item.fields.mapM fun field =>
      Native.build field compiled.native item.operation config.listPut with
  | error e =>
      have refused : plan config item = .error e := by
        simp only [plan, compiles, writable, native, built, Except.map]
      have failed : (Client.singlePhase config item.key item.fields compiled.native
          item.operation).run (Memory.storeAt time) memory = (.error e, memory) := by
        simp only [Client.singlePhase, built, Exchange.run]
      rw [failed, alone_of_error refused]
      exact agreement_failing listed e
  | ok operations =>
      cases write : item.operation.isWrite with
      | true =>
          have planned : plan config item = .ok (.write operations) := by
            simp only [plan, compiles, writable, native, built, Except.map, write, if_true]
          rw [Client.run_singlePhase_write write built]
          rcases alone_of_write planned with ⟨e, reply, alone⟩ | ⟨view, after, reply, alone⟩
          · rw [reply, alone]
            exact agreement_failing listed e.classify
          · rw [reply, alone]
            exact agreement_done (by rintro ⟨⟩)
      | false =>
          have planned : plan config item = .ok (.read operations) := by
            simp only [plan, compiles, writable, native, built, Except.map, write,
              Bool.false_eq_true, if_false]
          rw [Client.run_singlePhase_read write built]
          rcases alone_of_read planned with ⟨e, reply, alone⟩ | ⟨view, reply, alone⟩
          · rw [reply, alone]
            exact agreement_failing listed e.classify
          · rw [reply, alone]
            exact agreement_ok (by rintro ⟨⟩) _

section Query

variable {slot : Slot} {steps : Location} {residual : Residual} {record : RecordContext}
  {view : View} {results : List (String × Outcome)}

theorem agreement_evaluateRead (request : slot.request = none) (coherent : Coherent results)
    {answer : Answer} (cases : (∃ outputs, results = Members.mapValues .ok outputs ∧
        answer = .ok (Members.ofList outputs)) ∨
      ∃ e, Client.firstError? results = some e ∧ answer = .error e) :
    Agreement (answer, memory) ((slot.evaluateRead results).finish memory) := by
  have idle : (slot.evaluateRead results).request = none := request
  rw [Slot.finish, Slot.sendSecond_of_none idle]
  rcases cases with ⟨outputs, rfl, rfl⟩ | ⟨e, first, rfl⟩
  · have report : (slot.evaluateRead (Members.mapValues .ok outputs)).result =
        ⟨slot.item.key, .secondStepDone, Members.mapValues .ok (Members.ofList outputs)⟩ := by
      rw [← Members.ofList_mapValues]
      simp only [Slot.evaluateRead, Slot.result, all_isSuccess, if_true]
    rw [report]
    exact agreement_ok (by rintro ⟨⟩) _
  · obtain ⟨field, failed⟩ := Client.mem_of_firstError? first
    have reported : Members.get? field (Members.ofList results) = some (.error e) :=
      Members.get?_ofList_of_mem failed fun other ho => coherent field _ _ ho failed
    have report : (slot.evaluateRead results).result =
        ⟨slot.item.key, .failed, Members.ofList results⟩ := by
      simp only [Slot.evaluateRead, Slot.result]
      rw [if_neg]
      intro succeeded
      have := List.all_eq_true.1 succeeded _ failed
      cases this
    rw [report]
    exact agreement_error reported

theorem agreement_writeBack {stamp : Stamp} {outputs : List (String × Json)}
    (listed : item.fields ≠ []) (same : slot.item = item) (state : slot.state ≠ .failed)
    (names : outputs.map Prod.fst = item.fields) :
    Agreement
      ((Client.writeBack (Guard.capture item.key stamp) steps outputs).run (Memory.storeAt time)
        memory)
      ((slot.evaluateWrite steps stamp (Members.mapValues .ok outputs)).finish memory) := by
  have nonempty : outputs ≠ [] := by
    rintro rfl
    exact listed names.symm
  have bound : (slot.evaluateWrite steps stamp (Members.mapValues .ok outputs)).request =
      some (.operate item.key
        (outputs.map fun output => Native.writeBack steps output.1 output.2)
        (some stamp.generation)) := by
    rw [evaluateWrite_mapValues, same]
    rfl
  have kept : (slot.evaluateWrite steps stamp (Members.mapValues .ok outputs)).item = item ∧
      (slot.evaluateWrite steps stamp (Members.mapValues .ok outputs)).state ≠ .failed := by
    rw [evaluateWrite_mapValues]
    exact ⟨same, state⟩
  rw [Client.run_writeBack _ nonempty, Slot.finish, Slot.sendSecond_of_operate bound, names]
  cases hr : (memory.write item.key
      (outputs.map fun output => Native.writeBack steps output.1 output.2)
      (some stamp.generation)).1 with
  | error e =>
      rw [Slot.takeSecond_error kept.2, Slot.result_fail kept.1]
      simp only [Guard.capture, hr]
      exact agreement_failing listed e.classify
  | ok view =>
      rw [Slot.takeSecond_ok kept.2, Slot.result_written kept.1]
      simp only [Guard.capture, hr]
      exact agreement_done (by rintro ⟨⟩)

theorem agreement_poisoned_iff {stamp : Stamp} {e : DocumentError} (same : slot.item = item)
    (coherent : Coherent results) (first : Client.firstError? results = some e)
    (ofQuery : e.isOfQuery = true) :
    Agreement (.error e, memory) ((slot.evaluateWrite steps stamp results).finish memory) ↔
      ∃ field, item.fields.count field = 1 ∧ (field, .error e) ∈ results := by
  obtain ⟨field, failed⟩ := Client.mem_of_firstError? first
  rw [evaluateWrite_of_error failed, Slot.finish, Slot.sendSecond_of_failed rfl rfl]
  constructor
  · intro agreement
    obtain ⟨-, -, other, reported⟩ := agreement.failure e rfl
    exact ⟨other, same ▸ (get?_poisoned_iff coherent ofQuery).1 reported⟩
  · rintro ⟨other, own⟩
    exact agreement_error ((get?_poisoned_iff coherent ofQuery).2 (same ▸ own))

theorem outcomes?_eq {compiled : CompiledPath} (compiles : Path.compile item.path = .ok compiled)
    (writable : Query.checkWritable compiled item.operation = .ok ())
    (query : compiled.residual = some residual) :
    item.outcomes? time memory =
      match memory.read item.key
        (item.fields.map (Native.fetchFor item.operation compiled.native)) with
      | .error _ => none
      | .ok view => some (Client.outcomes residual (Client.context view.stamp time)
          item.operation (item.fields.zip view.values)) := by
  simp only [Item.outcomes?, compiles, writable, query]

theorem evaluate_holding (item : Item) (fetches : List FieldOperation) (steps : Location)
    (residual : Residual) (view : View) (now : UInt64) :
    (holding item fetches steps residual view).evaluate steps residual view now =
      if item.operation.isWrite then
        (holding item fetches steps residual view).evaluateWrite steps view.stamp
          (Client.outcomes residual (Client.context view.stamp now) item.operation
            (item.fields.zip view.values))
      else
        (holding item fetches steps residual view).evaluateRead
          (Client.outcomes residual (Client.context view.stamp now) item.operation
            (item.fields.zip view.values)) :=
  rfl

theorem agreement_secondPhase_iff {fetches : List FieldOperation} (listed : item.fields ≠ [])
    (reply : memory.read item.key (item.fields.map (Native.fetchFor item.operation steps)) =
      .ok view)
    (outcomes : item.outcomes? time memory = some (Client.outcomes residual
      (Client.context view.stamp time) item.operation (item.fields.zip view.values))) :
    Agreement
        ((Client.secondPhase item.key item.fields steps residual item.operation view
          time).run (Memory.storeAt time) memory)
        (((holding item fetches steps residual view).evaluate steps residual view
          time).finish memory) ↔
      item.KeepsError time memory := by
  have coherent : Coherent (Client.outcomes residual (Client.context view.stamp time)
      item.operation (item.fields.zip view.values)) := coherent_outcomes reply
  have names : (Client.outcomes residual (Client.context view.stamp time)
      item.operation (item.fields.zip view.values)).map Prod.fst = item.fields :=
    Client.map_fst_outcomes reply
  have evaluated := @Client.evaluate_cases residual item.operation
    (Client.context view.stamp time) (item.fields.zip view.values)
  have ofQuery := fun e => @Client.isOfQuery_of_firstError? residual item.operation
    (Client.context view.stamp time) (item.fields.zip view.values) e
  rw [evaluate_holding, Client.secondPhase]
  -- Only the outcomes matter from here on, not the values they came from.
  generalize Client.outcomes residual (Client.context view.stamp time) item.operation
    (item.fields.zip view.values) = results at outcomes coherent names evaluated ofQuery ⊢
  cases write : item.operation.isWrite with
  | false =>
      have get : item.operation = .get := item.operation.isWrite_eq_false_iff.1 write
      refine iff_of_true ?_ fun changes => absurd get changes
      rcases evaluated with ⟨outputs, he, ho⟩ | ⟨e, he, ho⟩
      · simp only [he, Bool.false_eq_true, if_false, Exchange.run]
        exact agreement_evaluateRead rfl coherent (.inl ⟨outputs, ho, rfl⟩)
      · simp only [he, Bool.false_eq_true, if_false, Exchange.run]
        exact agreement_evaluateRead rfl coherent (.inr ⟨e, ho, rfl⟩)
  | true =>
      rcases evaluated with ⟨outputs, he, rfl⟩ | ⟨e, he, first⟩
      · simp only [he, if_true]
        rw [Members.map_fst_mapValues] at names
        refine iff_of_true (agreement_writeBack listed rfl (by rintro ⟨⟩) names) ?_
        exact Item.keepsError_of_ok outcomes (Client.firstError?_mapValues outputs)
      · simp only [he, if_true, Exchange.run]
        rw [Item.keepsError_iff (item.operation.isWrite_iff.1 write) outcomes first]
        exact agreement_poisoned_iff rfl coherent first (ofQuery e first)

theorem agreement_query_iff {compiled : CompiledPath} (listed : item.fields ≠ [])
    (compiles : Path.compile item.path = .ok compiled)
    (writable : Query.checkWritable compiled item.operation = .ok ())
    (query : compiled.residual = some residual) :
    Agreement ((item.exchange config).run (Memory.storeAt time) memory)
        (alone config time memory item) ↔
      item.KeepsError time memory := by
  have exchange : item.exchange config =
      Client.twoPhase item.key item.fields compiled.native residual item.operation := by
    simp only [Item.exchange, Client.execute, compiles, writable, listed, if_false, query]
  have planned : plan config item =
      .ok (.twoPhase (item.fields.map (Native.fetchFor item.operation compiled.native))
        compiled.native residual) := by
    simp only [plan, compiles, writable, query, Native.mapM_fetch, Except.map]
  have outcomes := @outcomes?_eq time item memory residual compiled compiles writable query
  rw [exchange, Client.run_twoPhase]
  rcases alone_of_twoPhase planned with ⟨e, reply, alone⟩ | ⟨view, reply, alone⟩
  · rw [reply] at outcomes
    rw [reply, alone]
    exact iff_of_true (agreement_failing listed e.classify) (Item.keepsError_of_none outcomes)
  · rw [reply] at outcomes
    rw [reply, alone, evaluate_holding]
    exact agreement_secondPhase_iff listed reply outcomes

theorem read_nil_ok_iff :
    (∃ view, memory.read key [] = .ok view) ↔ (memory.records key).isSome = true := by
  simp only [Memory.read, List.find?_nil]
  cases memory.records key with
  | none => simp
  | some record => simp [FieldOperation.readAll, Except.map]

theorem agreement_empty_iff {compiled : CompiledPath} (empty : item.fields = [])
    (compiles : Path.compile item.path = .ok compiled)
    (writable : Query.checkWritable compiled item.operation = .ok ()) :
    Agreement ((item.exchange config).run (Memory.storeAt time) memory)
        (alone config time memory item) ↔
      item.operation = .get ∧ (memory.records item.key).isSome = true := by
  have call : (item.exchange config).run (Memory.storeAt time) memory = (.ok [], memory) := by
    simp only [Item.exchange, Client.execute, compiles, writable, empty, if_true, Exchange.run]
  rw [call, ← read_nil_ok_iff]
  have nothing (e : DocumentError) {after : Memory} :
      ¬ Agreement (.ok [], memory) (item.failing e, after) :=
    not_agreement_failing empty (.ok []) e
  cases native : compiled.residual with
  | none =>
      cases write : item.operation.isWrite with
      | true =>
          have planned : plan config item = .ok (.write []) := by
            simp only [plan, compiles, writable, native, empty, write, if_true]
            rfl
          refine iff_of_false ?_ fun h => item.operation.isWrite_iff.1 write h.1
          rcases alone_of_write planned with ⟨e, -, alone⟩ | ⟨view, after, reply, alone⟩
          · rw [alone]
            exact nothing _
          · rw [alone]
            exact not_agreement_of_write reply
      | false =>
          have planned : plan config item = .ok (.read []) := by
            simp only [plan, compiles, writable, native, empty, write, Bool.false_eq_true, if_false]
            rfl
          rcases alone_of_read planned with ⟨e, reply, alone⟩ | ⟨view, reply, alone⟩
          · rw [alone, reply]
            refine iff_of_false (nothing _) ?_
            rintro ⟨-, view, ⟨⟩⟩
          · rw [alone]
            refine iff_of_true ?_ ⟨item.operation.isWrite_eq_false_iff.1 write, view, reply⟩
            rw [empty]
            exact agreement_ok (by rintro ⟨⟩) []
  | some residual =>
      have planned : plan config item = .ok (.twoPhase [] compiled.native residual) := by
        simp only [plan, compiles, writable, native, empty]
        rfl
      rcases alone_of_twoPhase planned with ⟨e, reply, alone⟩ | ⟨view, reply, alone⟩
      · rw [alone, reply]
        refine iff_of_false (nothing _) ?_
        rintro ⟨-, view, ⟨⟩⟩
      · rw [alone, evaluate_holding, empty]
        cases write : item.operation.isWrite with
        | true =>
            refine iff_of_false ?_ fun h => item.operation.isWrite_iff.1 write h.1
            have bound : ((holding item [] compiled.native residual view).evaluateWrite
                compiled.native view.stamp []).request =
                  some (.operate item.key [] (some view.stamp.generation)) := rfl
            simp only [if_true, List.zip_nil_left]
            rw [Client.outcomes, Members.mapValues, List.map_nil, Slot.finish,
              Slot.sendSecond_of_operate bound]
            cases hr : (memory.write item.key [] (some view.stamp.generation)).1 with
            | error e =>
                rw [Slot.takeSecond_error (by rintro ⟨⟩), Slot.result_fail rfl]
                exact nothing _
            | ok next => exact not_agreement_of_write (Prod.ext hr rfl)
        | false =>
            refine iff_of_true ?_ ⟨item.operation.isWrite_eq_false_iff.1 write, view, reply⟩
            simp only [Bool.false_eq_true, if_false]
            refine agreement_evaluateRead rfl ?_ (.inl ⟨[], rfl, rfl⟩)
            rintro field outcome other ⟨⟩

end Query

theorem agreement_refused_iff {e : DocumentError} (refused : plan config item = .error e)
    (exchange : item.exchange config = .done (.error e)) :
    Agreement ((item.exchange config).run (Memory.storeAt time) memory)
        (alone config time memory item) ↔
      item.fields ≠ [] := by
  have call : (item.exchange config).run (Memory.storeAt time) memory = (.error e, memory) := by
    rw [exchange]
    rfl
  rw [call, alone_of_error refused]
  exact ⟨fun agreement empty => not_agreement_failing empty _ e agreement,
    fun listed => agreement_failing listed e⟩

theorem keepsError_of_empty (empty : item.fields = []) : item.KeepsError time memory := by
  intro _ results e hr first
  have unreported : results = [] := by
    unfold Item.outcomes? at hr
    rw [empty] at hr
    split at hr
    · cases hr
    · split at hr
      · dsimp only at hr
        split at hr
        · cases hr
        · cases hr
          rfl
      · cases hr
  rw [unreported] at first
  cases first

/-- A batch of one item agrees with the call of a client, for no fields only when it reads a record
that is there, and otherwise unless it forgets why its query failed. -/
theorem agreement_iff (config : ClientConfig) (time : UInt64) (item : Item) (memory : Memory) :
    Agreement ((item.exchange config).run (Memory.storeAt time) memory)
        (alone config time memory item) ↔
      (item.fields = [] → item.operation = .get ∧ (memory.records item.key).isSome = true ∧
        ∃ compiled, Path.compile item.path = .ok compiled ∧
          Query.checkWritable compiled item.operation = .ok ()) ∧
      item.KeepsError time memory := by
  cases compiles : Path.compile item.path with
  | error e =>
      have refused : plan config item = .error e := by simp only [plan, compiles]
      have exchange : item.exchange config = .done (.error e) := by
        simp only [Item.exchange, Client.execute, compiles]
      have keeps : item.KeepsError time memory :=
        Item.keepsError_of_none (by simp only [Item.outcomes?, compiles])
      rw [agreement_refused_iff refused exchange]
      refine ⟨fun listed => ⟨fun empty => absurd empty listed, keeps⟩, fun h empty => ?_⟩
      obtain ⟨-, -, compiled, ⟨⟩, -⟩ := h.1 empty
  | ok compiled =>
      cases writable : Query.checkWritable compiled item.operation with
      | error e =>
          have refused : plan config item = .error e := by simp only [plan, compiles, writable]
          have exchange : item.exchange config = .done (.error e) := by
            simp only [Item.exchange, Client.execute, compiles, writable]
          have keeps : item.KeepsError time memory :=
            Item.keepsError_of_none (by simp only [Item.outcomes?, compiles, writable])
          rw [agreement_refused_iff refused exchange]
          refine ⟨fun listed => ⟨fun empty => absurd empty listed, keeps⟩, fun h empty => ?_⟩
          obtain ⟨-, -, other, hc, hw⟩ := h.1 empty
          cases hc
          rw [writable] at hw
          cases hw
      | ok _ =>
          by_cases empty : item.fields = []
          · rw [agreement_empty_iff empty compiles writable]
            constructor
            · rintro ⟨get, found⟩
              exact ⟨fun _ => ⟨get, found, compiled, rfl, writable⟩, keepsError_of_empty empty⟩
            · rintro ⟨reads, -⟩
              obtain ⟨get, found, -⟩ := reads empty
              exact ⟨get, found⟩
          · cases query : compiled.residual with
            | none =>
                have keeps : item.KeepsError time memory := Item.keepsError_of_none
                  (by simp only [Item.outcomes?, compiles, writable, query])
                exact iff_of_true (agreement_native empty compiles writable query)
                  ⟨fun nil => absurd nil empty, keeps⟩
            | some residual =>
                rw [agreement_query_iff empty compiles writable query]
                exact ⟨fun keeps => ⟨fun nil => absurd nil empty, keeps⟩, fun h => h.2⟩

/-- The second listing of a field takes the place of its error. -/
theorem not_agreement_field_twice :
    let key : Key := ⟨"test", "documents", "1"⟩
    let document : Json := .obj [("a", .array [.nat 1]), ("b", .array [])]
    let memory := (Memory.empty 7).seed key [("doc", document)]
    let item : Item := ⟨key, ["doc", "doc"], "$.b[*]", .append (.nat 9)⟩
    ¬ Agreement ((item.exchange .standard).run (Memory.storeAt 9) memory)
      (alone .standard 9 memory item) := by
  intro key document memory item agreement
  have answer : ((item.exchange .standard).run (Memory.storeAt 9) memory).1 =
      .error (.objectNotFound "nothing matches '$[*]'") := by decide +kernel
  have report : (alone .standard 9 memory item).1.fields =
      [("doc", .error (.itemAborted poisoned))] := by decide +kernel
  obtain ⟨-, -, field, own⟩ := agreement.failure _ answer
  rw [report] at own
  have other := Members.mem_of_get? own
  simp at other

end Batch

end RecordPath
