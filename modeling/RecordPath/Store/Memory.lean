import RecordPath.Store.Exchange

namespace RecordPath

structure Memory where
  records : Key → Option Record
  clock : UInt64

namespace Memory

def empty (clock : UInt64) : Memory :=
  ⟨fun _ => none, clock⟩

def record? (memory : Memory) (key : Key) : Option Record :=
  memory.records key

def bin? (memory : Memory) (key : Key) (field : String) : Option Json :=
  (memory.records key).bind fun record => Members.get? field record.bins

def set (memory : Memory) (key : Key) (record : Record) : Memory :=
  { memory with records := fun k => if k = key then some record else memory.records k }

theorem set_records_self (memory : Memory) (key : Key) (record : Record) :
    (memory.set key record).records key = some record := by
  simp [set]

theorem set_records_of_ne {memory : Memory} {key other : Key} {record : Record}
    (h : other ≠ key) : (memory.set key record).records other = memory.records other := by
  simp [set, h]

def seed (memory : Memory) (key : Key) (bins : List (String × Json)) : Memory :=
  memory.set key ⟨Members.ofList bins, ⟨1, memory.clock⟩⟩

def advance (memory : Memory) (milliseconds : UInt64) : Memory :=
  { memory with clock := memory.clock + milliseconds }

def generation (memory : Memory) (key : Key) : UInt32 :=
  ((memory.records key).getD .absent).stamp.generation

def read (memory : Memory) (key : Key) (operations : List FieldOperation) : Reply :=
  match operations.find? (·.action.isWrite) with
  | some operation => .error (.writeInRead operation.field)
  | none =>
      match memory.records key with
      | none => .error (.missingRecord key.text)
      | some record =>
          (FieldOperation.readAll record.bins operations).map fun values =>
            ⟨values, record.stamp⟩

def isStale (memory : Memory) (key : Key) : Option UInt32 → Bool
  | none => false
  | some expected => memory.generation key != expected

def nextStamp (memory : Memory) (record : Record) : Stamp :=
  ⟨record.stamp.generation + 1, memory.clock⟩

def write (memory : Memory) (key : Key) (operations : List FieldOperation)
    (expected : Option UInt32) : Reply × Memory :=
  if memory.isStale key expected then
    (.error (.stale key.text (memory.generation key) (expected.getD 0)), memory)
  else
    let record := (memory.records key).getD .absent
    match FieldOperation.writeAll record.bins operations with
    | .error e => (.error e, memory)
    | .ok (values, bins) =>
        let stamp := memory.nextStamp record
        (.ok ⟨values, stamp⟩, memory.set key ⟨bins, stamp⟩)

def answer (memory : Memory) : WriteRequest → Reply × Memory
  | .operate key operations expected => memory.write key operations expected
  | .reject key code => (.error (.refused key.text code), memory)

def answerAll (memory : Memory) : List WriteRequest → List Reply × Memory
  | [] => ([], memory)
  | request :: rest =>
      let (reply, memory) := memory.answer request
      let (replies, memory) := memory.answerAll rest
      (reply :: replies, memory)

def store : RecordStore Memory where
  read key operations memory := (memory.read key operations, memory)
  write key operations expected memory := memory.write key operations expected
  batchRead requests memory :=
    (requests.map fun request => memory.read request.key request.operations, memory)
  batchWrite requests memory := memory.answerAll requests
  now memory := memory.clock

/-- The memory for a client whose clock says `time`. -/
def storeAt (time : UInt64) : RecordStore Memory :=
  { store with now := fun _ => time }

@[simp]
theorem storeAt_read (time : UInt64) (key : Key) (operations : List FieldOperation)
    (memory : Memory) :
    (storeAt time).read key operations memory = (memory.read key operations, memory) :=
  rfl

@[simp]
theorem storeAt_write (time : UInt64) (key : Key) (operations : List FieldOperation)
    (expected : Option UInt32) (memory : Memory) :
    (storeAt time).write key operations expected memory =
      memory.write key operations expected :=
  rfl

end Memory

end RecordPath
