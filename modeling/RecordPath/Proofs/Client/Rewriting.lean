import Mathlib.Control.Monad.Basic
import RecordPath.Proofs.Client.Uninterrupted

namespace RecordPath

structure Json.Replaced (place : Location) (value old new : Json) : Prop where
  inside : new.get? place = some value
  off : ∀ off, ¬ place <+: off → ¬ off <+: place → new.get? off = old.get? off
  whole : new = old.update (fun _ => value) place

theorem Json.replaced_update {place : Location} {old found : Json} (value : Json)
    (there : old.get? place = some found) :
    Json.Replaced place value old (old.update (fun _ => value) place) where
  inside := get?_update_self _ there
  off _ away back := get?_update_off away back
  whole := rfl

namespace Client

structure Computes (old : Record) (steps : Location) (residual : Residual) (time : UInt64)
    (operation : Operation) (field : String) (subtree output : Json) : Prop where
  fetched : ∃ fetch, Native.fetch field steps operation = .ok fetch ∧
    FieldOperation.read old.bins fetch = .ok subtree
  computed : Query.run subtree residual (context old.stamp time) operation = .ok output

/-- The record after the change: the outputs at the place in the fields, and the next stamp, which
is by the clock of the memory. -/
structure Rewritten (old new : Record) (fields : List String) (steps : Location)
    (residual : Residual) (time clock : UInt64) (operation : Operation) : Prop where
  stamp : new.stamp = ⟨old.stamp.generation + 1, clock⟩
  listed : ∀ field ∈ fields, ∃ subtree output document,
    Computes old steps residual time operation field subtree output ∧
      Members.get? field new.bins = some document ∧
      Json.Replaced steps output ((Members.get? field old.bins).getD .null) document
  others : ∀ field, field ∉ fields → Members.get? field new.bins = Members.get? field old.bins

variable {config : ClientConfig} {memory : Memory} {key : Key} {fields : List String}
  {steps : Location} {residual : Residual} {operation : Operation} {old : Record} {field : String}
  {subtree output : Json} {time : UInt64}

theorem computes_iff (write : operation.isWrite = true) :
    Computes old steps residual time operation field subtree output ↔
      (FieldOperation.document old.bins field).get? steps = some subtree ∧
        Query.run subtree residual (context old.stamp time) operation = .ok output := by
  have strict : Native.fetchFor operation steps field = Native.strictFetch field steps := by
    simp only [Native.fetchFor, write, if_true]
  constructor
  · rintro ⟨⟨fetch, hf, hr⟩, computed⟩
    rw [Native.fetch_eq, strict] at hf
    cases hf
    exact ⟨Native.read_strictFetch_iff.1 hr, computed⟩
  · rintro ⟨there, computed⟩
    refine ⟨⟨_, Native.fetch_eq field steps operation, ?_⟩, computed⟩
    rw [strict]
    exact Native.read_strictFetch_iff.2 there

theorem evaluate_eq_mapM {record : RecordContext} (subtree : String → Json) :
    evaluate residual record operation (fields.map fun field => (field, subtree field)) =
      (fields.mapM fun field => Query.run (subtree field) residual record operation).map
        fields.zip := by
  induction fields with
  | nil => rfl
  | cons field rest ih =>
      have next := @Outcomes.mapM_cons_ok _ _ _
        (fun field => Query.run (subtree field) residual record operation) field rest
      have stop := @Outcomes.mapM_cons_error _ _ _
        (fun field => Query.run (subtree field) residual record operation) field rest
      cases hr : Query.run (subtree field) residual record operation with
      | error e =>
          rw [stop hr, List.map_cons, evaluate, hr]
          rfl
      | ok output =>
          rw [next hr, List.map_cons, evaluate, hr]
          simp only [ih]
          cases rest.mapM fun field => Query.run (subtree field) residual record operation <;> rfl

theorem evaluate_map {record : RecordContext} (subtree : String → Json) :
    (∃ e, evaluate residual record operation (fields.map fun field => (field, subtree field)) =
        .error e ∧ ∃ field ∈ fields, Query.run (subtree field) residual record operation =
          .error e) ∨
    ∃ output : String → Json,
      evaluate residual record operation (fields.map fun field => (field, subtree field)) =
        .ok (fields.map fun field => (field, output field)) ∧
      ∀ field ∈ fields, Query.run (subtree field) residual record operation =
        .ok (output field) := by
  have inhabited : Inhabited Json := ⟨.null⟩
  rw [evaluate_eq_mapM]
  cases outcome : fields.mapM fun field => Query.run (subtree field) residual record operation with
  | error e => exact .inl ⟨e, rfl, Outcomes.exists_of_mapM_error outcome⟩
  | ok outputs =>
      obtain ⟨output, rfl, computed⟩ := Outcomes.exists_map_of_mapM outcome
      refine .inr ⟨output, ?_, computed⟩
      rw [Except.map, List.map_prod_left_eq_zip]

theorem write_rewritten {output : String → Json} (found : memory.records key = some old)
    (there : ∀ field ∈ fields, ∃ subtree,
      (FieldOperation.document old.bins field).get? steps = some subtree) :
    ∃ view, memory.write key
      ((fields.map fun field => (field, output field)).map fun pair =>
        Native.writeBack steps pair.1 pair.2) (some old.stamp.generation) =
      (.ok view, memory.set key
        ⟨FieldOperation.replacedAll steps old.bins (fields.map fun field => (field, output field)),
          memory.nextStamp old⟩) := by
  have current : memory.isStale key (some old.stamp.generation) = false := by
    simp only [Memory.isStale, Memory.generation, found, Option.getD_some, bne_self_eq_false]
  obtain ⟨answers, written⟩ := @Native.writeAll_writeBack old.bins steps
    (fields.map fun field => (field, output field)) (by simpa using there)
  exact ⟨_, by simp only [Memory.write, current, Bool.false_eq_true, if_false, found,
    Option.getD_some, written]; rfl⟩

theorem rewritten_replacedAll {output subtree : String → Json}
    (write : operation.isWrite = true)
    (there : ∀ field ∈ fields,
      (FieldOperation.document old.bins field).get? steps = some (subtree field))
    (computed : ∀ field ∈ fields, Query.run (subtree field) residual
      (context old.stamp time) operation = .ok (output field)) :
    Rewritten old
      ⟨FieldOperation.replacedAll steps old.bins (fields.map fun field => (field, output field)),
        memory.nextStamp old⟩ fields steps residual time memory.clock operation where
  stamp := rfl
  listed field hf := by
    refine ⟨subtree field, output field, _, (computes_iff write).2 ⟨there field hf,
      computed field hf⟩, FieldOperation.get?_replacedAll_of_mem (by simpa using hf) ?_,
      Json.replaced_update _ (there field hf)⟩
    rintro pair hp rfl
    obtain ⟨name, -, rfl⟩ := List.mem_map.1 hp
    rfl
  others field hf := FieldOperation.get?_replacedAll_of_not_mem (by simpa using hf)

theorem read_of_computes (found : memory.records key = some old)
    (all : ∀ field ∈ fields, ∃ subtree output,
      Computes old steps residual time operation field subtree output) :
    ∃ view, memory.read key (fields.map (Native.fetchFor operation steps)) = .ok view := by
  refine read_of_fetched found fun field hf => ?_
  obtain ⟨subtree, output, ⟨fetch, built, fetched⟩, -⟩ := all field hf
  rw [Native.fetch_eq] at built
  cases built
  exact ⟨subtree, fetched⟩

theorem run_twoPhase_cases (write : operation.isWrite = true) (listed : fields ≠ []) :
    (∃ e, (twoPhase key fields steps residual operation).run (Memory.storeAt time) memory =
        (.error e, memory) ∧
      ¬ ∃ old, memory.records key = some old ∧ ∀ field ∈ fields, ∃ subtree output,
        Computes old steps residual time operation field subtree output) ∨
    ∃ old new, memory.records key = some old ∧
      Rewritten old new fields steps residual time memory.clock operation ∧
      (twoPhase key fields steps residual operation).run (Memory.storeAt time) memory =
        (.ok (nulls fields), memory.set key new) := by
  rw [run_twoPhase]
  cases reply : memory.read key (fields.map (Native.fetchFor operation steps)) with
  | error e =>
      refine .inl ⟨e.classify, rfl, ?_⟩
      rintro ⟨old, found, all⟩
      obtain ⟨view, succeeded⟩ := read_of_computes found all
      rw [reply] at succeeded
      cases succeeded
  | ok view =>
      -- From here on only the query can fail: all that was fetched can be written back.
      obtain ⟨old, subtree, found, rfl, fetched⟩ := exists_record_of_read reply
      have there : ∀ field ∈ fields,
          (FieldOperation.document old.bins field).get? steps = some (subtree field) := by
        intro field hf
        have := fetched field hf
        simp only [Native.fetchFor, write, if_true] at this
        exact Native.read_strictFetch_iff.1 this
      have pairs : fields.zip (fields.map subtree) =
          fields.map fun field => (field, subtree field) :=
        List.map_prod_left_eq_zip.symm
      simp only [secondPhase, pairs]
      rcases @evaluate_map fields residual operation (context old.stamp time) subtree with
        ⟨e, evaluated, field, hf, failed⟩ | ⟨output, evaluated, computed⟩
      · refine .inl ⟨e, by rw [evaluated]; rfl, ?_⟩
        rintro ⟨other, same, all⟩
        rw [found] at same
        cases same
        obtain ⟨value, result, computes⟩ := all field hf
        obtain ⟨place, succeeded⟩ := (computes_iff write).1 computes
        rw [there field hf] at place
        cases place
        rw [failed] at succeeded
        cases succeeded
      · have nonempty : (fields.map fun field => (field, output field)) ≠ [] :=
          fun empty => listed (List.map_eq_nil_iff.1 empty)
        obtain ⟨answer, written⟩ := @write_rewritten memory key fields steps old output found
          fun field hf => ⟨_, there field hf⟩
        have names : (fields.map fun field => (field, output field)).map Prod.fst = fields := by
          rw [List.map_map]
          exact List.map_id fields
        refine .inr ⟨old, _, found, rewritten_replacedAll write there computed, ?_⟩
        simp only [evaluated, write, if_true]
        rw [run_writeBack _ nonempty, names]
        simp only [Guard.capture, written]

/-- A change through a query succeeds exactly when its fetches and its query do, and then it is the
rewrite of the record that the query computes. -/
theorem change_through_query (config : ClientConfig) (time : UInt64) (memory : Memory) (key : Key)
    {fields : List String} {path : String} {operation : Operation} {compiled : CompiledPath}
    {residual : Residual} (change : operation ≠ .get) (listed : fields ≠ [])
    (compiles : Path.compile path = .ok compiled) (query : compiled.residual = some residual)
    (writable : Query.checkWritable compiled operation = .ok ()) :
    let call := (execute config key fields path operation).run (Memory.storeAt time) memory
    ((∃ values, call.1 = .ok values) ↔
      ∃ old, memory.records key = some old ∧ ∀ field ∈ fields, ∃ subtree output,
        Computes old compiled.native residual time operation field subtree output) ∧
    ∀ values, call.1 = .ok values → ∃ old new, memory.records key = some old ∧
      Rewritten old new fields compiled.native residual time memory.clock operation ∧
      call.2 = memory.set key new := by
  intro call
  have write := operation.isWrite_iff.2 change
  have phases : call = (twoPhase key fields compiled.native residual operation).run
      (Memory.storeAt time) memory := by
    simp only [call, execute_query listed compiles writable query]
  rw [phases]
  rcases @run_twoPhase_cases memory key fields compiled.native residual operation time write
    listed with
    ⟨e, failed, never⟩ | ⟨old, new, found, rewritten, done⟩
  · rw [failed]
    refine ⟨iff_of_false ?_ never, ?_⟩
    · rintro ⟨values, ⟨⟩⟩
    · rintro values ⟨⟩
  · rw [done]
    refine ⟨iff_of_true ⟨_, rfl⟩ ⟨old, found, fun field hf => ?_⟩,
      fun _ _ => ⟨old, new, found, rewritten, rfl⟩⟩
    obtain ⟨subtree, output, _, computes, -⟩ := rewritten.listed field hf
    exact ⟨subtree, output, computes⟩

/-- A field that is listed twice is appended to once. -/
theorem change_through_query_field_twice :
    let key : Key := ⟨"test", "documents", "1"⟩
    let document : Json := .obj [("a", .array [.array [], .array [.nat 1]]), ("b", .nat 2)]
    let memory := (Memory.empty 7).seed key [("doc", document), ("more", document)]
    let call := (execute .standard key ["doc", "more", "doc"] "$.a[*]" (.append (.nat 9))).run
      (Memory.storeAt 9) memory
    call.1 = .ok [("doc", .null), ("more", .null)] ∧
      ∃ old new, memory.records key = some old ∧
        Rewritten old new ["doc", "more", "doc"] [.key "a"] ⟨"$[*]", [.listWildcard]⟩ 9 7
          (.append (.nat 9)) ∧
        call.2 = memory.set key new := by
  intro key document memory call
  have compiles : Path.compile "$.a[*]" =
      .ok ⟨"$.a[*]", [.key "a"], some ⟨"$[*]", [.listWildcard]⟩⟩ := by decide +kernel
  have succeeded : call.1 = .ok [("doc", .null), ("more", .null)] := by decide +kernel
  obtain ⟨-, rewrites⟩ := @change_through_query .standard 9 memory key ["doc", "more", "doc"]
    "$.a[*]" (.append (.nat 9)) _ _ (by rintro ⟨⟩) (by rintro ⟨⟩) compiles rfl rfl
  exact ⟨succeeded, rewrites _ succeeded⟩

end Client

end RecordPath
