import RecordPath.Client.Single
import RecordPath.Proofs.Members
import RecordPath.Proofs.Query.Faults
import RecordPath.Proofs.Store.WriteBack
import RecordPath.Proofs.Store.Writes

namespace RecordPath.Client

variable {config : ClientConfig} {memory : Memory} {key : Key} {fields : List String}
  {steps : Location} {residual : Residual} {operation : Operation} {record : RecordContext}
  {time : UInt64}

theorem run_singlePhase_write {operations : List FieldOperation} (write : operation.isWrite = true)
    (built : (fields.mapM fun field => Native.build field steps operation config.listPut) =
      .ok operations) :
    (singlePhase config key fields steps operation).run (Memory.storeAt time) memory =
      (match (memory.write key operations none).1 with
        | .error e => .error e.classify
        | .ok _ => .ok (nulls fields), (memory.write key operations none).2) := by
  simp only [singlePhase, built, write, if_true, Exchange.run]
  cases hr : (memory.write key operations none).1 <;> simp [hr, Exchange.run]

theorem run_singlePhase_read {operations : List FieldOperation} (read : operation.isWrite = false)
    (built : (fields.mapM fun field => Native.build field steps operation config.listPut) =
      .ok operations) :
    (singlePhase config key fields steps operation).run (Memory.storeAt time) memory =
      (match memory.read key operations with
        | .error e => .error e.classify
        | .ok view => .ok (Members.ofList (fields.zip view.values)), memory) := by
  simp only [singlePhase, built, read, Bool.false_eq_true, if_false, Exchange.run]
  cases hr : memory.read key operations <;> simp [hr, Exchange.run]

theorem execute_query {path : String} {compiled : CompiledPath} (listed : fields ≠ [])
    (compiles : Path.compile path = .ok compiled)
    (writable : Query.checkWritable compiled operation = .ok ())
    (query : compiled.residual = some residual) :
    execute config key fields path operation =
      twoPhase key fields compiled.native residual operation := by
  simp only [execute, compiles, writable, listed, if_false, query]

theorem execute_native {path : String} {compiled : CompiledPath} (listed : fields ≠ [])
    (compiles : Path.compile path = .ok compiled)
    (writable : Query.checkWritable compiled operation = .ok ())
    (native : compiled.residual = none) :
    execute config key fields path operation =
      singlePhase config key fields compiled.native operation := by
  simp only [execute, compiles, writable, listed, if_false, native]

theorem execute_cases (config : ClientConfig) (key : Key) (fields : List String) (path : String)
    (operation : Operation) :
    (∃ answer, execute config key fields path operation = .done answer ∧
      ∀ values, answer = .ok values → fields = []) ∨
    fields ≠ [] ∧ ∃ compiled, Path.compile path = .ok compiled ∧
      ((compiled.residual = none ∧ execute config key fields path operation =
          singlePhase config key fields compiled.native operation) ∨
        ∃ residual, compiled.residual = some residual ∧
          execute config key fields path operation =
            twoPhase key fields compiled.native residual operation) := by
  cases compiles : Path.compile path with
  | error e => exact .inl ⟨.error e, by simp only [execute, compiles], nofun⟩
  | ok compiled =>
      cases writable : Query.checkWritable compiled operation with
      | error e => exact .inl ⟨.error e, by simp only [execute, compiles, writable], nofun⟩
      | ok _ =>
          by_cases listed : fields = []
          · exact .inl ⟨.ok [], by simp only [execute, compiles, writable, listed, if_true],
              fun _ _ => listed⟩
          · refine .inr ⟨listed, compiled, rfl, ?_⟩
            cases query : compiled.residual with
            | none => exact .inl ⟨rfl, execute_native listed compiles writable query⟩
            | some residual =>
                exact .inr ⟨residual, rfl, execute_query listed compiles writable query⟩

theorem exists_record_of_read {view : View}
    (h : memory.read key (fields.map (Native.fetchFor operation steps)) = .ok view) :
    ∃ (record : Record) (value : String → Json), memory.records key = some record ∧
      view = ⟨fields.map value, record.stamp⟩ ∧ ∀ field ∈ fields,
        FieldOperation.read record.bins (Native.fetchFor operation steps field) =
          .ok (value field) := by
  obtain ⟨record, hr, stamp, values⟩ := Memory.read_ok h
  rw [Memory.readAll_eq_mapM] at values
  have inhabited : Inhabited Json := ⟨.null⟩
  obtain ⟨value, hv, each⟩ := Outcomes.exists_map_of_mapM values
  refine ⟨record, fun field => value (Native.fetchFor operation steps field), hr, ?_,
    fun field hf => each _ (List.mem_map_of_mem hf)⟩
  rw [List.map_map] at hv
  cases view
  cases hv
  cases stamp
  rfl

theorem read_of_fetched {found : Record} (h : memory.records key = some found)
    (fetched : ∀ field ∈ fields, ∃ value,
      FieldOperation.read found.bins (Native.fetchFor operation steps field) = .ok value) :
    ∃ view, memory.read key (fields.map (Native.fetchFor operation steps)) = .ok view := by
  have reads : (fields.map (Native.fetchFor operation steps)).find? (·.action.isWrite) = none := by
    rw [List.find?_eq_none]
    intro fetch hf
    obtain ⟨field, -, rfl⟩ := List.mem_map.1 hf
    rw [Native.isWrite_fetchFor]
    exact Bool.false_ne_true
  simp only [Memory.read, reads, h]
  cases values : FieldOperation.readAll found.bins
      (fields.map (Native.fetchFor operation steps)) with
  | ok all => exact ⟨_, rfl⟩
  | error e =>
      rw [Memory.readAll_eq_mapM] at values
      obtain ⟨fetch, hf, failed⟩ := Outcomes.exists_of_mapM_error values
      obtain ⟨field, hm, rfl⟩ := List.mem_map.1 hf
      obtain ⟨value, hv⟩ := fetched field hm
      rw [hv] at failed
      cases failed

theorem exists_values_of_read {view : View}
    (h : memory.read key (fields.map (Native.fetchFor operation steps)) = .ok view) :
    ∃ value : String → Json, view.values = fields.map value := by
  obtain ⟨record, value, -, rfl, -⟩ := exists_record_of_read h
  exact ⟨value, rfl⟩

def outcomes (residual : Residual) (record : RecordContext) (operation : Operation)
    (pairs : List (String × Json)) : List (String × Except DocumentError Json) :=
  Members.mapValues (fun subtree => Query.run subtree residual record operation) pairs

def firstError? : List (String × Except DocumentError Json) → Option DocumentError
  | [] => none
  | (_, .error e) :: _ => some e
  | (_, .ok _) :: rest => firstError? rest

theorem mem_of_firstError? {results : List (String × Except DocumentError Json)}
    {e : DocumentError} (h : firstError? results = some e) :
    ∃ field, (field, .error e) ∈ results := by
  induction results with
  | nil => cases h
  | cons result rest ih =>
      obtain ⟨field, outcome⟩ := result
      cases outcome with
      | error e' =>
          cases h
          exact ⟨field, List.mem_cons_self⟩
      | ok value =>
          obtain ⟨other, ho⟩ := ih h
          exact ⟨other, List.mem_cons_of_mem _ ho⟩

theorem firstError?_mapValues (outputs : List (String × Json)) :
    firstError? (Members.mapValues .ok outputs) = none := by
  induction outputs with
  | nil => rfl
  | cons output rest ih => exact ih

theorem evaluate_cases (pairs : List (String × Json)) :
    (∃ outputs, evaluate residual record operation pairs = .ok outputs ∧
      outcomes residual record operation pairs = Members.mapValues .ok outputs) ∨
    ∃ e, evaluate residual record operation pairs = .error e ∧
      firstError? (outcomes residual record operation pairs) = some e := by
  induction pairs with
  | nil => exact .inl ⟨[], rfl, rfl⟩
  | cons pair rest ih =>
      obtain ⟨field, subtree⟩ := pair
      rw [outcomes, Members.mapValues_cons, evaluate]
      cases hr : Query.run subtree residual record operation with
      | error e => exact .inr ⟨e, rfl, rfl⟩
      | ok output =>
          rcases ih with ⟨outputs, he, ho⟩ | ⟨e, he, ho⟩
          · refine .inl ⟨(field, output) :: outputs, by rw [he]; rfl, ?_⟩
            rw [Members.mapValues_cons, ← ho, outcomes]
          · exact .inr ⟨e, by rw [he]; rfl, ho⟩

theorem run_twoPhase :
    (twoPhase key fields steps residual operation).run (Memory.storeAt time) memory =
      match memory.read key (fields.map (Native.fetchFor operation steps)) with
      | .error e => (.error e.classify, memory)
      | .ok view => (secondPhase key fields steps residual operation view time).run
          (Memory.storeAt time) memory := by
  simp only [twoPhase, Native.mapM_fetch, Exchange.run, Memory.storeAt_read]
  cases memory.read key (fields.map (Native.fetchFor operation steps)) <;> rfl

theorem isOfQuery_of_firstError? {pairs : List (String × Json)} {e : DocumentError}
    (h : firstError? (outcomes residual record operation pairs) = some e) :
    e.isOfQuery = true := by
  obtain ⟨field, failed⟩ := mem_of_firstError? h
  obtain ⟨pair, -, hp⟩ := List.mem_map.1 failed
  exact Query.isOfQuery_of_run (congrArg Prod.snd hp)

theorem map_fst_outcomes {view : View}
    (h : memory.read key (fields.map (Native.fetchFor operation steps)) = .ok view) :
    (outcomes residual record operation (fields.zip view.values)).map Prod.fst = fields := by
  obtain ⟨value, hv⟩ := exists_values_of_read h
  rw [outcomes, Members.map_fst_mapValues, hv, List.map_fst_zip]
  exact Nat.le_of_eq (List.length_map _).symm

theorem run_writeBack (guard : Guard) {outputs : List (String × Json)} (h : outputs ≠ []) :
    (writeBack guard steps outputs).run (Memory.storeAt time) memory =
      (match (memory.write guard.key
          (outputs.map fun output => Native.writeBack steps output.1 output.2)
          (some guard.expected)).1 with
        | .error e => .error e.classify
        | .ok _ => .ok (nulls (outputs.map Prod.fst)),
        (memory.write guard.key
          (outputs.map fun output => Native.writeBack steps output.1 output.2)
          (some guard.expected)).2) := by
  have built : (outputs.mapM fun (output : String × Json) =>
      Native.storeSubtree output.1 steps output.2) =
        .ok (outputs.map fun output => Native.writeBack steps output.1 output.2) :=
    Outcomes.mapM_ok fun output _ => Native.storeSubtree_eq output.1 steps output.2
  cases outputs with
  | nil => exact absurd rfl h
  | cons output rest =>
      rw [List.map_cons] at built ⊢
      simp only [writeBack, built, Guard.apply, Exchange.map, Exchange.run,
        Memory.storeAt_write]
      cases (memory.write guard.key _ (some guard.expected)).1 <;> rfl

end RecordPath.Client
