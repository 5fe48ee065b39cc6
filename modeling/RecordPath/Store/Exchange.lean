import RecordPath.Store.Key
import RecordPath.Store.Record

/-!
What passes between a client and a record store. An exchange is a client's side: what it asks, and
how it goes on with each possible answer. Any store can take the other side.
-/

namespace RecordPath

structure ReadRequest where
  key : Key
  operations : List FieldOperation
  deriving DecidableEq, Repr

inductive WriteRequest where
  /-- All the operations or none, and only at the expected generation where there is one. -/
  | operate (key : Key) (operations : List FieldOperation) (expected : Option UInt32)
  | reject (key : Key) (code : Int)
  deriving DecidableEq, Repr

abbrev Reply := Except StoreError View

structure RecordStore (σ : Type) where
  read : Key → List FieldOperation → σ → Reply × σ
  write : Key → List FieldOperation → Option UInt32 → σ → Reply × σ
  batchRead : List ReadRequest → σ → List Reply × σ
  batchWrite : List WriteRequest → σ → List Reply × σ
  now : σ → UInt64

inductive Exchange (α : Type) where
  | done (result : α)
  | read (key : Key) (operations : List FieldOperation) (next : Reply → Exchange α)
  | write (key : Key) (operations : List FieldOperation) (expected : Option UInt32)
      (next : Reply → Exchange α)
  | batchRead (requests : List ReadRequest) (next : List Reply → Exchange α)
  | batchWrite (requests : List WriteRequest) (next : List Reply → Exchange α)
  | now (next : UInt64 → Exchange α)

namespace Exchange

variable {α β σ : Type}

def map (f : α → β) : Exchange α → Exchange β
  | .done result => .done (f result)
  | .read key operations next => .read key operations fun reply => map f (next reply)
  | .write key operations expected next =>
      .write key operations expected fun reply => map f (next reply)
  | .batchRead requests next => .batchRead requests fun replies => map f (next replies)
  | .batchWrite requests next => .batchWrite requests fun replies => map f (next replies)
  | .now next => .now fun time => map f (next time)

def run (store : RecordStore σ) : Exchange α → σ → α × σ
  | .done result, s => (result, s)
  | .read key operations next, s =>
      let (reply, s) := store.read key operations s
      run store (next reply) s
  | .write key operations expected next, s =>
      let (reply, s) := store.write key operations expected s
      run store (next reply) s
  | .batchRead requests next, s =>
      let (replies, s) := store.batchRead requests s
      run store (next replies) s
  | .batchWrite requests next, s =>
      let (replies, s) := store.batchWrite requests s
      run store (next replies) s
  | .now next, s => run store (next (store.now s)) s

end Exchange

end RecordPath
