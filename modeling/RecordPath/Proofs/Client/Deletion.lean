import Mathlib.Control.Monad.Basic
import RecordPath.Proofs.Client.Atomicity
import RecordPath.Proofs.Client.Rewriting
import RecordPath.Proofs.Store.Removal

namespace RecordPath

namespace Memory

def CreatesNothing (before after : Memory) : Prop :=
  ∀ key new, after.records key = some new → ∃ old, before.records key = some old ∧
    FieldOperation.KeepsNames old.bins new.bins

structure CreatesOnlyEmpty (before after : Memory) : Prop where
  record : ∀ key new, before.records key = none → after.records key = some new →
    ∀ field, Members.contains field new.bins = false
  field : ∀ key old new field value, before.records key = some old →
    after.records key = some new → Members.get? field old.bins = none →
    Members.get? field new.bins = some value → value = .null

variable {memory : Memory} {key : Key} {old new : Record}

theorem createsNothing_refl (memory : Memory) : memory.CreatesNothing memory :=
  fun _ new h => ⟨new, h, FieldOperation.keepsNames_refl new.bins⟩

theorem createsOnlyEmpty_of_createsNothing {after : Memory} (h : memory.CreatesNothing after) :
    memory.CreatesOnlyEmpty after where
  record key new absent found := by
    obtain ⟨old, there, -⟩ := h key new found
    rw [absent] at there
    cases there
  field key old new field value there found absent made := by
    obtain ⟨other, same, keeps⟩ := h key new found
    rw [there] at same
    cases same
    have := keeps field (by rw [Members.contains, made]; rfl)
    rw [Members.contains, absent] at this
    cases this

theorem createsNothing_set_iff :
    memory.CreatesNothing (memory.set key new) ↔
      ∃ old, memory.records key = some old ∧ FieldOperation.KeepsNames old.bins new.bins := by
  constructor
  · intro h
    exact h key new (set_records_self memory key new)
  · rintro ⟨old, there, keeps⟩ other record found
    by_cases ho : other = key
    · subst ho
      rw [set_records_self] at found
      cases found
      exact ⟨old, there, keeps⟩
    · rw [set_records_of_ne ho] at found
      exact createsNothing_refl memory other record found

theorem createsOnlyEmpty_set
    (record : memory.records key = none → ∀ field, Members.contains field new.bins = false)
    (field : ∀ old, memory.records key = some old → ∀ field value,
      Members.get? field old.bins = none → Members.get? field new.bins = some value →
        value = .null) : memory.CreatesOnlyEmpty (memory.set key new) where
  record other made absent found := by
    by_cases ho : other = key
    · subst ho
      rw [set_records_self] at found
      cases found
      exact record absent
    · rw [set_records_of_ne ho, absent] at found
      cases found
  field other old made name value there found absent value_made := by
    by_cases ho : other = key
    · subst ho
      rw [set_records_self] at found
      cases found
      exact field old there name value absent value_made
    · rw [set_records_of_ne ho, there] at found
      cases found
      rw [absent] at value_made
      cases value_made

end Memory

namespace Client

open FieldOperation

variable {config : ClientConfig} {memory : Memory} {key : Key} {fields : List String}
  {steps : Location} {residual : Residual} {old new : Record} {time clock : UInt64}

/-- What a deletion has to find so that it creates nothing: its record, where the store deletes by
itself, and each of its fields, where a query runs on the whole of them. -/
structure Present (memory : Memory) (key : Key) (fields : List String) (path : CompiledPath) :
    Prop where
  record : path.residual = none → (memory.records key).isSome = true
  whole : path.residual ≠ none → path.native = [] →
    ∀ field ∈ fields, (memory.bin? key field).isSome = true

theorem run_singlePhase_delete :
    (∃ e, (singlePhase config key fields steps .delete).run (Memory.storeAt time) memory =
        (.error e, memory)) ∨
    ∃ bins stamp, (singlePhase config key fields steps .delete).run (Memory.storeAt time) memory =
        (.ok (nulls fields), memory.set key ⟨bins, stamp⟩) ∧
      KeepsNames ((memory.records key).getD .absent).bins bins := by
  rw [run_singlePhase_write rfl (Native.mapM_build_delete fields steps config.listPut)]
  rcases Memory.write_cases memory key (fields.map (Native.removal steps)) none with
    ⟨⟨⟩, -⟩ | ⟨e, -, -, failed⟩ | ⟨values, bins, -, written, done⟩
  · exact .inl ⟨e.classify, by rw [failed]⟩
  · refine .inr ⟨bins, _, by rw [done], keepsNames_writeAll ?_ written⟩
    intro operation ho
    obtain ⟨field, -, rfl⟩ := List.mem_map.1 ho
    exact Native.removes_removal steps field

theorem keepsNames_rewritten_iff (h : Rewritten old new fields steps residual time clock .delete) :
    KeepsNames old.bins new.bins ↔
      (steps = [] → ∀ field ∈ fields, Members.contains field old.bins = true) := by
  constructor
  · intro keeps _ field hf
    obtain ⟨_, _, document, -, made, -⟩ := h.listed field hf
    exact keeps field (by rw [Members.contains, made]; rfl)
  · intro whole name found
    by_cases hf : name ∈ fields
    · obtain ⟨subtree, output, _, computes, -⟩ := h.listed name hf
      cases there : Members.get? name old.bins with
      | some root =>
          rw [Members.contains, there]
          rfl
      | none =>
          -- Nothing but the whole of a field can be fetched where there is no field.
          have place := ((computes_iff rfl).1 computes).1
          rw [document, there] at place
          cases steps with
          | nil => exact whole rfl name hf
          | cons step rest => cases place
    · rwa [Members.contains, h.others name hf] at found

theorem null_of_rewritten {field : String} {value : Json}
    (h : Rewritten old new fields steps residual time clock .delete)
    (absent : Members.get? field old.bins = none)
    (made : Members.get? field new.bins = some value) : value = .null := by
  by_cases hf : field ∈ fields
  · obtain ⟨subtree, output, root, computes, found, replaced⟩ := h.listed field hf
    rw [made] at found
    cases found
    obtain ⟨place, computed⟩ := (computes_iff rfl).1 computes
    rw [document, absent] at place
    have whole := replaced.whole
    rw [absent] at whole
    cases steps with
    | nil =>
        cases place
        cases computed
        exact whole
    | cons step rest => cases place
  · rw [h.others field hf, absent] at made
    cases made

inductive Deleted (time : UInt64) (memory : Memory) (key : Key) (fields : List String)
    (path : String) : Except DocumentError Unit × Memory → Prop
  | unchanged {answer : Except DocumentError Unit} (idle : answer = .ok () → fields = []) :
      Deleted time memory key fields path (answer, memory)
  | native {compiled : CompiledPath} {new : Record} (compiles : Path.compile path = .ok compiled)
      (native : compiled.residual = none) (listed : fields ≠ [])
      (keeps : KeepsNames ((memory.records key).getD .absent).bins new.bins) :
      Deleted time memory key fields path (.ok (), memory.set key new)
  | query {compiled : CompiledPath} {residual : Residual} {old new : Record}
      (compiles : Path.compile path = .ok compiled) (query : compiled.residual = some residual)
      (listed : fields ≠ []) (found : memory.records key = some old)
      (rewritten : Rewritten old new fields compiled.native residual time memory.clock .delete) :
      Deleted time memory key fields path (.ok (), memory.set key new)

section Delete

variable (config : ClientConfig) (time : UInt64) (memory : Memory) (key : Key)
  (fields : List String) (path : String)

theorem deleted_delete :
    Deleted time memory key fields path
      ((delete config key fields path).run (Memory.storeAt time) memory) := by
  unfold delete
  rw [Exchange.run_map]
  rcases execute_cases config key fields path .delete with
    ⟨answer, executes, idle⟩ |
      ⟨listed, compiled, compiles, ⟨native, executes⟩ | ⟨residual, query, executes⟩⟩
  · rw [executes]
    refine .unchanged fun done => ?_
    cases answer with
    | error e => cases done
    | ok values => exact idle values rfl
  · rw [executes]
    rcases @run_singlePhase_delete config memory key fields compiled.native time with
      ⟨e, failed⟩ | ⟨bins, stamp, done, keeps⟩
    · rw [failed]
      exact .unchanged nofun
    · rw [done]
      exact .native compiles native listed keeps
  · rw [executes]
    rcases @run_twoPhase_cases memory key fields compiled.native residual .delete time rfl
      listed with
      ⟨e, failed, -⟩ | ⟨old, new, found, rewritten, done⟩
    · rw [failed]
      exact .unchanged nofun
    · rw [done]
      exact .query compiles query listed found rewritten

end Delete

section Deleted

variable {path : String} {call : Except DocumentError Unit × Memory}

theorem createsOnlyEmpty_of_deleted (h : Deleted time memory key fields path call) :
    memory.CreatesOnlyEmpty call.2 := by
  cases h with
  | unchanged idle =>
      exact Memory.createsOnlyEmpty_of_createsNothing (Memory.createsNothing_refl memory)
  | native compiles native listed keeps =>
      refine Memory.createsOnlyEmpty_set ?_ ?_
      · intro absent field
        rw [absent] at keeps
        cases made : Members.contains field _ with
        | false => rfl
        | true => cases keeps field made
      · intro old there field value absent made
        rw [there] at keeps
        have := keeps field (by rw [Members.contains, made]; rfl)
        rw [Option.getD_some, Members.contains, absent] at this
        cases this
  | query compiles query listed found rewritten =>
      refine Memory.createsOnlyEmpty_set ?_ ?_
      · intro absent
        rw [found] at absent
        cases absent
      · intro other there field value absent made
        rw [found] at there
        cases there
        exact null_of_rewritten rewritten absent made

theorem createsNothing_iff_of_deleted (h : Deleted time memory key fields path call) :
    memory.CreatesNothing call.2 ↔
      (call.1 = .ok () → fields ≠ [] → ∀ compiled, Path.compile path = .ok compiled →
        Present memory key fields compiled) := by
  cases h with
  | unchanged idle =>
      exact iff_of_true (Memory.createsNothing_refl memory)
        fun ok listed => absurd (idle ok) listed
  | @native compiled new compiles native listed keeps =>
      rw [Memory.createsNothing_set_iff]
      constructor
      · rintro ⟨old, there, -⟩ - - other same
        rw [compiles] at same
        cases same
        exact ⟨fun _ => by rw [there]; rfl, fun query => absurd native query⟩
      · intro present
        obtain ⟨old, there⟩ :=
          Option.isSome_iff_exists.1 ((present rfl listed compiled compiles).record native)
        rw [there] at keeps
        exact ⟨old, there, keeps⟩
  | @query compiled residual old new compiles query listed found rewritten =>
      have whole (field : String) :
          (memory.bin? key field).isSome = Members.contains field old.bins := by
        rw [Memory.bin?, found]
        rfl
      rw [Memory.createsNothing_set_iff]
      constructor
      · rintro ⟨other, there, keeps⟩ - - again same
        rw [found] at there
        cases there
        rw [compiles] at same
        cases same
        refine ⟨fun native => ?_, fun _ root field hf => ?_⟩
        · rw [query] at native
          cases native
        · rw [whole]
          exact (keepsNames_rewritten_iff rewritten).1 keeps root field hf
      · intro present
        refine ⟨old, found, (keepsNames_rewritten_iff rewritten).2 fun root field hf => ?_⟩
        rw [← whole]
        refine (present rfl listed compiled compiles).whole ?_ root field hf
        rw [query]
        nofun

end Deleted

/-- All that a deletion can create is an empty record or a null field, and it creates one exactly
when it succeeds without what it is to delete from. -/
theorem delete_createsNothing_iff (config : ClientConfig) (time : UInt64) (memory : Memory)
    (key : Key) (fields : List String) (path : String) :
    let call := (delete config key fields path).run (Memory.storeAt time) memory
    memory.CreatesOnlyEmpty call.2 ∧
      (memory.CreatesNothing call.2 ↔
        (call.1 = .ok () → fields ≠ [] → ∀ compiled, Path.compile path = .ok compiled →
          Present memory key fields compiled)) := by
  have deleted := deleted_delete config time memory key fields path
  exact ⟨createsOnlyEmpty_of_deleted deleted, createsNothing_iff_of_deleted deleted⟩

theorem not_createsNothing_delete :
    let key : Key := ⟨"test", "documents", "1"⟩
    let empty := Memory.empty 7
    let memory := empty.seed key [("doc", .obj [("a", .nat 1)])]
    let native := (delete .standard key ["doc"] "$.a").run (Memory.storeAt 9) empty
    let query := (delete .standard key ["other"] "$[*]").run (Memory.storeAt 9) memory
    (native.1 = .ok () ∧ ¬ empty.CreatesNothing native.2) ∧
      query.1 = .ok () ∧ ¬ memory.CreatesNothing query.2 := by
  intro key empty memory native query
  refine ⟨⟨by decide +kernel, fun keeps => ?_⟩, by decide +kernel, fun keeps => ?_⟩
  · have made : native.2.records key = some ⟨[], ⟨1, 7⟩⟩ := by decide +kernel
    obtain ⟨old, there, -⟩ := keeps key _ made
    cases there
  · have made : query.2.records key =
        some ⟨Members.ofList [("doc", .obj [("a", .nat 1)]), ("other", .null)], ⟨2, 7⟩⟩ := by
      decide +kernel
    obtain ⟨old, there, keeps⟩ := keeps key _ made
    cases there
    exact absurd (keeps "other" (by decide)) (by decide)

end Client

end RecordPath
