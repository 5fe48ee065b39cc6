import RecordPath.Store.Memory

/-!
A store in memory behind a layer that notes every call and can be told to misbehave: to fail the
next single call, to let another writer in after the next read, or to answer batches with a number
of results of its own.
-/

namespace RecordPath

inductive Call where
  | read (key : Key) (operations : Nat)
  | write (key : Key) (operations : Nat) (expected : Option UInt32)
  | batchRead (requests : Nat)
  | batchWrite (requests : List WriteRequest)
  deriving DecidableEq, Repr

structure Interposed where
  memory : Memory
  calls : List Call
  /-- Written by someone else after the next read. -/
  interloper : Option (Key × List FieldOperation)
  failure : Option StoreError
  /-- How many results a batch call has, whatever is asked. -/
  batchResults : Option Nat

namespace Interposed

def around (memory : Memory) (batchResults : Option Nat) : Interposed :=
  ⟨memory, [], none, none, batchResults⟩

def note (s : Interposed) (call : Call) : Interposed :=
  { s with calls := call :: s.calls }

def letIn (s : Interposed) : Interposed :=
  match s.interloper with
  | none => s
  | some (key, operations) =>
      { s with memory := (s.memory.write key operations none).2, interloper := none }

def read (key : Key) (operations : List FieldOperation) (s : Interposed) : Reply × Interposed :=
  let s := s.note (.read key operations.length)
  match s.failure with
  | some e => (.error e, { s with failure := none })
  | none => (s.memory.read key operations, s.letIn)

def write (key : Key) (operations : List FieldOperation) (expected : Option UInt32)
    (s : Interposed) : Reply × Interposed :=
  let s := s.note (.write key operations.length expected)
  match s.failure with
  | some e => (.error e, { s with failure := none })
  | none =>
      let (reply, memory) := s.memory.write key operations expected
      (reply, { s with memory })

def resized (s : Interposed) (replies : List Reply) : List Reply :=
  match s.batchResults with
  | none => replies
  | some n => replies.take n ++ List.replicate (n - replies.length) (.ok ⟨[], .zero⟩)

def batchRead (requests : List ReadRequest) (s : Interposed) : List Reply × Interposed :=
  let s := s.note (.batchRead requests.length)
  let replies := (Memory.store.batchRead requests s.memory).1
  (s.resized replies, s.letIn)

def batchWrite (requests : List WriteRequest) (s : Interposed) : List Reply × Interposed :=
  let s := s.note (.batchWrite requests)
  let (replies, memory) := s.memory.answerAll requests
  (s.resized replies, { s with memory })

def store : RecordStore Interposed where
  read := read
  write := write
  batchRead := batchRead
  batchWrite := batchWrite
  now s := s.memory.clock

end Interposed

end RecordPath
