import Mathlib.Control.Monad.Basic
import RecordPath.Proofs.Client.Protocol
import RecordPath.Proofs.Client.Uninterrupted

namespace RecordPath

namespace Exchange

theorem run_map {α β σ : Type} (f : α → β) (store : RecordStore σ) (exchange : Exchange α) :
    ∀ s : σ, (exchange.map f).run store s =
      (f (exchange.run store s).1, (exchange.run store s).2) := by
  induction exchange with
  | done result => exact fun _ => rfl
  | read key operations next ih => exact fun s => ih _ _
  | write key operations expected next ih => exact fun s => ih _ _
  | batchRead requests next ih => exact fun s => ih _ _
  | batchWrite requests next ih => exact fun s => ih _ _
  | now next ih => exact fun s => ih _ _

end Exchange

namespace Memory

variable {time : UInt64}

theorem run_write {α : Type} (memory : Memory) (key : Key) (operations : List FieldOperation)
    (expected : Option UInt32) (next : Reply → Exchange α) :
    (Exchange.write key operations expected next).run (storeAt time) memory =
      (next (memory.write key operations expected).1).run (storeAt time)
        (memory.write key operations expected).2 :=
  rfl

theorem run_read {α : Type} (memory : Memory) (key : Key) (operations : List FieldOperation)
    (next : Reply → Exchange α) :
    (Exchange.read key operations next).run (storeAt time) memory =
      (next (memory.read key operations)).run (storeAt time) memory :=
  rfl

theorem run_now {α : Type} (memory : Memory) (next : UInt64 → Exchange α) :
    (Exchange.now next).run (storeAt time) memory = (next time).run (storeAt time) memory :=
  rfl

def AllOrNothing {α : Type} (memory : Memory) (outcome : Except DocumentError α × Memory) : Prop :=
  ∀ e, outcome.1 = .error e → outcome.2 = memory

theorem allOrNothing_same {α : Type} (memory : Memory) (answer : Except DocumentError α) :
    memory.AllOrNothing (answer, memory) :=
  fun _ _ => rfl

theorem AllOrNothing.map {α β : Type} {memory : Memory}
    {outcome : Except DocumentError α × Memory} (h : memory.AllOrNothing outcome) (f : α → β) :
    memory.AllOrNothing (outcome.1.map f, outcome.2) := by
  intro e failed
  cases hr : outcome.1 with
  | error cause => exact h cause hr
  | ok value =>
      rw [hr] at failed
      cases failed

end Memory

open Exchange Memory

namespace Client

variable {time : UInt64} {key : Key} {generation : UInt32} {changes : Bool}
  {exchange : Exchange Answer} {operations : List FieldOperation} {expected : Option UInt32}
  {next : Reply → Exchange Answer}

theorem allOrNothing_write (memory : Memory) (h : Concludes next) :
    memory.AllOrNothing
      ((Exchange.write key operations expected next).run (storeAt time) memory) := by
  rw [run_write]
  cases hr : (memory.write key operations expected).1 with
  | error cause =>
      rw [h.error cause, Memory.write_error hr]
      exact allOrNothing_same memory _
  | ok view =>
      obtain ⟨values, hv⟩ := h.ok view
      rw [hv]
      rintro e ⟨⟩

theorem allOrNothing_bound (memory : Memory) (h : Bound key generation changes exchange) :
    memory.AllOrNothing (exchange.run (storeAt time) memory) := by
  cases h with
  | done _ => exact allOrNothing_same memory _
  | write concludes => exact allOrNothing_write memory concludes

theorem allOrNothing_fetched (memory : Memory) (h : Fetched key generation changes exchange) :
    memory.AllOrNothing (exchange.run (storeAt time) memory) := by
  cases h with
  | done _ => exact allOrNothing_same memory _
  | now bound =>
      rw [run_now]
      exact allOrNothing_bound memory (bound time)

theorem allOrNothing_ready (memory : Memory) (h : Ready key changes exchange) :
    memory.AllOrNothing (exchange.run (storeAt time) memory) := by
  cases h with
  | done _ => exact allOrNothing_same memory _
  | write concludes => exact allOrNothing_write memory concludes
  | @read operations next failed fetched =>
      rw [run_read]
      cases hr : memory.read key operations with
      | error e =>
          rw [failed e]
          exact allOrNothing_same memory _
      | ok view =>
          obtain ⟨record, -, -, values⟩ := Memory.read_ok hr
          exact allOrNothing_fetched memory (fetched view (Memory.length_readAll values))

section Calls

variable (config : ClientConfig) (time : UInt64) (memory : Memory) (key : Key)
  (fields : List String) (path : String)

theorem allOrNothing_execute (operation : Operation) :
    memory.AllOrNothing
      ((execute config key fields path operation).run (storeAt time) memory) :=
  allOrNothing_ready memory (ready_execute config key fields path operation)

theorem allOrNothing_change (shape : Shape) (operation : Json → Operation) :
    memory.AllOrNothing
      ((change config key fields path shape operation).run (storeAt time) memory) := by
  unfold change
  cases shape.accept with
  | error e => exact allOrNothing_same memory _
  | ok value =>
      simp only [run_map]
      exact (allOrNothing_execute config time memory key fields path (operation value)).map _

theorem run_singlePhase_get (steps : Location) :
    ((singlePhase config key fields steps .get).run (storeAt time) memory).2 = memory := by
  cases built : fields.mapM fun field => Native.build field steps .get config.listPut with
  | error e => simp only [singlePhase, built, Exchange.run]
  | ok operations => rw [run_singlePhase_read rfl built]

theorem run_twoPhase_get (steps : Location) (residual : Residual) :
    ((twoPhase key fields steps residual .get).run (storeAt time) memory).2 = memory := by
  rw [run_twoPhase]
  cases memory.read key (fields.map (Native.fetchFor .get steps)) with
  | error e => rfl
  | ok view =>
      simp only [secondPhase]
      cases evaluate residual (context view.stamp time) .get (fields.zip view.values) with
      | error e => rfl
      | ok outputs => rfl

theorem run_get : ((get config key fields path).run (storeAt time) memory).2 = memory := by
  unfold get
  rcases execute_cases config key fields path .get with
    ⟨answer, done, -⟩ | ⟨-, compiled, -, ⟨-, native⟩ | ⟨residual, -, query⟩⟩
  · rw [done]
    rfl
  · rw [native]
    exact run_singlePhase_get config time memory key fields compiled.native
  · rw [query]
    exact run_twoPhase_get time memory key fields compiled.native residual

theorem calls_all_or_nothing (shape : Shape) :
    ((get config key fields path).run (storeAt time) memory).2 = memory ∧
    memory.AllOrNothing ((put config key fields path shape).run (storeAt time) memory) ∧
    memory.AllOrNothing ((append config key fields path shape).run (storeAt time) memory) ∧
    memory.AllOrNothing ((delete config key fields path).run (storeAt time) memory) := by
  refine ⟨run_get config time memory key fields path,
    allOrNothing_change config time memory key fields path shape .put,
    allOrNothing_change config time memory key fields path shape .append, ?_⟩
  unfold delete
  rw [run_map]
  exact (allOrNothing_execute config time memory key fields path .delete).map _

end Calls

/-- The field that could be written is not written either. -/
theorem calls_all_or_nothing_second_field :
    let key : Key := ⟨"test", "documents", "1"⟩
    let memory := (Memory.empty 7).seed key [("a", .obj [("x", .nat 1)]), ("b", .array [])]
    let call := (put .standard key ["a", "b"] "$.x" (.integer 2)).run (storeAt 9) memory
    call.1 = .error (.keyNotFound "map operation on list") ∧ call.2 = memory := by
  intro key memory call
  have failed : call.1 = .error (.keyNotFound "map operation on list") := by decide +kernel
  obtain ⟨-, put, -, -⟩ :=
    calls_all_or_nothing .standard 9 memory key ["a", "b"] "$.x" (.integer 2)
  exact ⟨failed, put _ failed⟩

end Client

end RecordPath
