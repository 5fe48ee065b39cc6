import RecordPath.Proofs.Outcomes
import RecordPath.Store.Memory

namespace RecordPath.Memory

variable {memory other : Memory} {key : Key} {operations : List FieldOperation}
  {expected : Option UInt32}

def generations : Nat :=
  Nat.pow 2 32

theorem add_ofNat_ne {g : UInt32} {n : Nat} (hn : n ≠ 0) (hb : n < generations) :
    g + .ofNat n ≠ g := by
  intro h
  have zero : UInt32.ofNat n = 0 := by simpa using h
  have := congrArg UInt32.toNat zero
  simp only [UInt32.toNat_ofNat', generations] at this hb
  rw [Nat.mod_eq_of_lt hb] at this
  exact hn this

theorem eq_of_records {a b : Memory} (records : a.records = b.records) (clock : a.clock = b.clock) :
    a = b := by
  cases a
  cases b
  cases records
  cases clock
  rfl

theorem write_cases (memory : Memory) (key : Key) (operations : List FieldOperation)
    (expected : Option UInt32) :
    (memory.isStale key expected = true ∧ memory.write key operations expected =
      (.error (.stale key.text (memory.generation key) (expected.getD 0)), memory)) ∨
    (∃ e, memory.isStale key expected = false ∧
      FieldOperation.writeAll ((memory.records key).getD .absent).bins operations = .error e ∧
      memory.write key operations expected = (.error e, memory)) ∨
    ∃ values bins, memory.isStale key expected = false ∧
      FieldOperation.writeAll ((memory.records key).getD .absent).bins operations =
        .ok (values, bins) ∧
      memory.write key operations expected =
        (.ok ⟨values, memory.nextStamp ((memory.records key).getD .absent)⟩,
          memory.set key ⟨bins, memory.nextStamp ((memory.records key).getD .absent)⟩) := by
  unfold write
  cases hs : memory.isStale key expected with
  | true => exact .inl ⟨rfl, rfl⟩
  | false =>
      cases hw : FieldOperation.writeAll ((memory.records key).getD .absent).bins operations with
      | error e => exact .inr (.inl ⟨e, rfl, rfl, by simp [hw]⟩)
      | ok result =>
          obtain ⟨values, bins⟩ := result
          exact .inr (.inr ⟨values, bins, rfl, rfl, by simp [hw]⟩)

theorem write_error {e : StoreError} (h : (memory.write key operations expected).1 = .error e) :
    (memory.write key operations expected).2 = memory := by
  rcases write_cases memory key operations expected with
    ⟨-, hw⟩ | ⟨e, -, -, hw⟩ | ⟨values, bins, -, -, hw⟩
  · rw [hw]
  · rw [hw]
  · rw [hw] at h
    cases h

theorem write_clock (memory : Memory) (key : Key) (operations : List FieldOperation)
    (expected : Option UInt32) : (memory.write key operations expected).2.clock = memory.clock := by
  rcases write_cases memory key operations expected with
    ⟨-, hw⟩ | ⟨e, -, -, hw⟩ | ⟨values, bins, -, -, hw⟩ <;> rw [hw]
  rfl

theorem answer_clock (memory : Memory) (request : WriteRequest) :
    (memory.answer request).2.clock = memory.clock := by
  cases request with
  | operate key operations expected => exact write_clock memory key operations expected
  | reject key code => rfl

theorem answerAll_clock (requests : List WriteRequest) :
    ∀ memory : Memory, (memory.answerAll requests).2.clock = memory.clock := by
  induction requests with
  | nil => exact fun _ => rfl
  | cons request rest ih => exact fun memory => (ih _).trans (answer_clock memory request)

/-- A client that goes by the clock of the memory. -/
theorem run_store {α : Type} (exchange : Exchange α) :
    ∀ memory : Memory, exchange.run store memory = exchange.run (storeAt memory.clock) memory := by
  induction exchange with
  | done result => exact fun _ => rfl
  | read key operations next ih => exact fun memory => ih (memory.read key operations) memory
  | write key operations expected next ih =>
      intro memory
      have rest := ih (memory.write key operations expected).1
        (memory.write key operations expected).2
      rw [write_clock] at rest
      exact rest
  | batchRead requests next ih => exact fun memory => ih _ memory
  | batchWrite requests next ih =>
      intro memory
      have rest := ih (memory.answerAll requests).1 (memory.answerAll requests).2
      rw [answerAll_clock] at rest
      exact rest
  | now next ih => exact fun memory => ih memory.clock memory

theorem write_records_of_ne {different : Key} (h : different ≠ key) :
    (memory.write key operations expected).2.records different = memory.records different := by
  rcases write_cases memory key operations expected with
    ⟨-, hw⟩ | ⟨e, -, -, hw⟩ | ⟨values, bins, -, -, hw⟩ <;> rw [hw]
  exact set_records_of_ne h

theorem write_generation_of_ne {different : Key} (h : different ≠ key) :
    (memory.write key operations expected).2.generation different =
      memory.generation different := by
  rw [generation, write_records_of_ne h, generation]

theorem write_generation {view : View} (h : (memory.write key operations expected).1 = .ok view) :
    (memory.write key operations expected).2.generation key = memory.generation key + 1 := by
  rcases write_cases memory key operations expected with
    ⟨-, hw⟩ | ⟨e, -, -, hw⟩ | ⟨values, bins, -, -, hw⟩ <;> rw [hw] at h ⊢
  · cases h
  · cases h
  · rw [generation, set_records_self]
    rfl

theorem write_of_stale {g : UInt32} (h : memory.generation key ≠ g) :
    memory.write key operations (some g) =
      (.error (.stale key.text (memory.generation key) g), memory) := by
  simp [write, isStale, h]

theorem write_of_current {result : List Json × Members Json}
    (h : FieldOperation.writeAll ((memory.records key).getD .absent).bins operations =
      .ok result) :
    ∃ view, (memory.write key operations (some (memory.generation key))).1 = .ok view := by
  rcases write_cases memory key operations (some (memory.generation key)) with
    ⟨stale, -⟩ | ⟨e, -, failed, -⟩ | ⟨values, bins, -, -, hw⟩
  · simp only [isStale, bne_self_eq_false, Bool.false_eq_true] at stale
  · rw [h] at failed
    cases failed
  · exact ⟨_, congrArg Prod.fst hw⟩

theorem generation_congr (h : memory.records key = other.records key) :
    memory.generation key = other.generation key := by
  rw [generation, h, generation]

theorem read_congr (h : memory.records key = other.records key) :
    memory.read key operations = other.read key operations := by
  rw [read, h, read]

theorem readAll_eq_mapM (bins : Members Json) (operations : List FieldOperation) :
    FieldOperation.readAll bins operations =
      operations.mapM (FieldOperation.read bins) := by
  induction operations with
  | nil => rfl
  | cons operation rest ih =>
      cases h : FieldOperation.read bins operation with
      | error e => rw [Outcomes.mapM_cons_error h, FieldOperation.readAll, h]
      | ok value => rw [Outcomes.mapM_cons_ok h, FieldOperation.readAll, h, ← ih]

theorem length_readAll {bins : Members Json} {values : List Json}
    (h : FieldOperation.readAll bins operations = .ok values) :
    values.length = operations.length := by
  rw [readAll_eq_mapM] at h
  exact Outcomes.length_of_mapM h

theorem read_ok {view : View} (h : memory.read key operations = .ok view) :
    ∃ record, memory.records key = some record ∧ view.stamp = record.stamp ∧
      FieldOperation.readAll record.bins operations = .ok view.values := by
  unfold read at h
  split at h
  · cases h
  · split at h
    · cases h
    · rename_i record hr
      cases hv : FieldOperation.readAll record.bins operations with
      | error e => rw [hv] at h; cases h
      | ok values =>
          rw [hv] at h
          cases h
          exact ⟨record, hr, rfl, hv⟩

theorem write_congr (record : memory.records key = other.records key)
    (clock : memory.clock = other.clock) :
    (memory.write key operations expected).1 = (other.write key operations expected).1 ∧
      (memory.write key operations expected).2.records key =
        (other.write key operations expected).2.records key := by
  have generation := generation_congr record
  have stale : memory.isStale key expected = other.isStale key expected := by
    cases expected <;> simp [isStale, generation]
  have stamp (r : Record) : memory.nextStamp r = other.nextStamp r := by
    rw [nextStamp, clock, nextStamp]
  unfold write
  rw [stale, record, generation]
  split
  · exact ⟨rfl, record⟩
  · cases hw : FieldOperation.writeAll ((other.records key).getD .absent).bins operations with
    | error e =>
        simp only [hw]
        exact ⟨trivial, record⟩
    | ok result =>
        simp only [hw, stamp]
        exact ⟨trivial, by rw [set_records_self, set_records_self]⟩

end RecordPath.Memory
