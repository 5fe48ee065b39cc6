import Mathlib.Control.Monad.Basic
import RecordPath.Proofs.Client.Atomicity
import RecordPath.Proofs.Store.Placement
import RecordPath.Proofs.Store.SingleOperation

namespace RecordPath

def Path.IsNative (path : String) (steps : Location) : Prop :=
  ∃ compiled, Path.compile path = .ok compiled ∧ compiled.native = steps ∧
    compiled.residual = none

namespace Client

open FieldOperation Native

variable {config : ClientConfig} {memory : Memory} {key : Key} {field path : String}
  {steps : Location} {shape : Shape} {value : Json} {operation : Operation}
  {single : FieldOperation} {call : Except DocumentError Unit × Memory}

section Read

def found (config : ClientConfig) (memory : Memory) (key : Key) (field path : String) :
    Except DocumentError Json :=
  ((getOne config key field path).run Memory.store memory).1

theorem build_get (field : String) (steps : Location) (mode : ListPutMode) :
    build field steps .get mode = .ok (strictFetch field steps) := by
  unfold build strictFetch
  cases steps.getLast? <;> rfl

theorem found_native (native : Path.IsNative path steps) :
    found config memory key field path =
      match memory.records key with
      | none => .error (StoreError.missingRecord key.text).classify
      | some record =>
          (FieldOperation.read record.bins (strictFetch field steps)).mapError
            StoreError.classify := by
  obtain ⟨compiled, compiles, rfl, plain⟩ := native
  have writable : Query.checkWritable compiled .get = .ok () := by
    simp only [Query.checkWritable, plain]
  have built : ([field].mapM fun field => build field compiled.native .get config.listPut) =
      .ok [strictFetch field compiled.native] :=
    Outcomes.mapM_ok fun field _ => build_get field compiled.native config.listPut
  -- The strict fetch is the one for a change, and no fetch writes.
  have reads : (strictFetch field compiled.native).action.isWrite = false :=
    isWrite_fetchFor .delete compiled.native field
  rw [found, Memory.run_store, getOne, Exchange.run_map, get,
    execute_native (by simp) compiles writable plain, run_singlePhase_read rfl built,
    Memory.read_single reads]
  cases memory.records key with
  | none => rfl
  | some record =>
      dsimp only
      cases FieldOperation.read record.bins (strictFetch field compiled.native) with
      | error e => rfl
      | ok value =>
          exact congrArg (fun found => Except.ok (found.getD .null))
            (Members.get?_insert_self field value [])

theorem found_eq_ok_iff (native : Path.IsNative path steps) :
    found config memory key field path = .ok value ↔
      memory.value? key field steps = some value := by
  rw [found_native native, Memory.value?]
  cases memory.records key with
  | none => simp
  | some record =>
      rw [Option.bind_some, ← read_strictFetch_iff]
      dsimp only
      cases FieldOperation.read record.bins (strictFetch field steps) <;> simp [Except.mapError]

theorem found_eq_error_iff (native : Path.IsNative path steps) :
    (∃ e, found config memory key field path = .error e) ↔
      memory.value? key field steps = none := by
  rw [Option.eq_none_iff_forall_ne_some]
  constructor
  · rintro ⟨e, failed⟩ value there
    rw [(found_eq_ok_iff native).2 there] at failed
    cases failed
  · intro nowhere
    cases h : found config memory key field path with
    | error e => exact ⟨e, rfl⟩
    | ok value => exact absurd ((found_eq_ok_iff native).1 h) (nowhere value)

end Read

section Change

inductive Changed (memory : Memory) (key : Key) (single : FieldOperation) :
    Except DocumentError Unit × Memory → Prop
  | failed {e : StoreError} (failed : FieldOperation.write (memory.fields key) single = .error e) :
      Changed memory key single (.error e.classify, memory)
  | done {answer : Json} {bins : Members Json}
      (written : FieldOperation.write (memory.fields key) single = .ok (answer, bins)) :
      Changed memory key single (.ok (), memory.written key bins)

theorem changed_execute (native : Path.IsNative path steps) (write : operation.isWrite = true)
    (built : build field steps operation config.listPut = .ok single) :
    Changed memory key single
      (((execute config key [field] path operation).map done).run Memory.store memory) := by
  obtain ⟨compiled, compiles, rfl, plain⟩ := native
  have writable : Query.checkWritable compiled operation = .ok () := by
    simp only [Query.checkWritable, plain]
  have all : ([field].mapM fun field => build field compiled.native operation config.listPut) =
      .ok [single] := by
    rw [List.mapM_cons, built]
    rfl
  rw [Memory.run_store, Exchange.run_map, execute_native (by simp) compiles writable plain,
    run_singlePhase_write write all, Memory.write_single]
  cases hw : FieldOperation.write (memory.fields key) single with
  | error e => exact .failed hw
  | ok result => exact .done hw

theorem changed_put (native : Path.IsNative path steps) (accepted : shape.accept = .ok value) :
    Changed memory key (placing config.listPut steps field value)
      ((put config key [field] path shape).run Memory.store memory) := by
  rw [put, change, accepted]
  exact changed_execute native rfl (build_put field steps value config.listPut)

theorem changed_append (native : Path.IsNative path steps) (inside : steps ≠ [])
    (accepted : shape.accept = .ok value) :
    Changed memory key (appending steps field value)
      ((append config key [field] path shape).run Memory.store memory) := by
  rw [append, change, accepted]
  exact changed_execute native rfl (build_append inside field value config.listPut)

theorem changed_delete (native : Path.IsNative path steps) :
    Changed memory key (removal steps field)
      ((delete config key [field] path).run Memory.store memory) :=
  changed_execute native rfl (build_delete steps config.listPut field)

theorem Changed.eq_of_write {answer : Json} {bins : Members Json}
    (h : Changed memory key single call)
    (write : FieldOperation.write (memory.fields key) single = .ok (answer, bins)) :
    call = (.ok (), memory.written key bins) := by
  cases h with
  | failed failed => cases failed.symm.trans write
  | done written =>
      cases written.symm.trans write
      rfl

theorem Changed.unique {other : Except DocumentError Unit × Memory}
    (h : Changed memory key single call) (ho : Changed memory key single other) : call = other := by
  cases h with
  | done written => exact (ho.eq_of_write written).symm
  | failed failed =>
      cases ho with
      | done written => cases failed.symm.trans written
      | failed also =>
          cases failed.symm.trans also
          rfl

theorem Changed.sameBeside (h : Changed memory key single call) :
    Memory.SameBeside key single.field memory call.2 := by
  cases h with
  | failed _ => exact Memory.sameBeside_refl key _ memory
  | done written =>
      exact Memory.sameBeside_written fun name apart => get?_write_of_ne written apart

end Change

end Client

end RecordPath
