import RecordPath.Client.Single
import RecordPath.Proofs.Store.Writes

/-!
Any number of clients at work on one memory. A call is a session from its first request to its
answer; the memory serves one request at a time, of any session, and other writers may come between
any two. Which writes were done, and in which order, is kept beside the memory.
-/

namespace RecordPath

structure Client.Call where
  config : ClientConfig
  key : Key
  fields : List String
  path : String
  operation : Operation

namespace Client.Call

def exchange (call : Client.Call) : Exchange Answer :=
  Client.execute call.config call.key call.fields call.path call.operation

def changes (call : Client.Call) : Bool :=
  call.operation.isWrite && !call.fields.isEmpty

def alone (call : Client.Call) (time : UInt64) (memory : Memory) : Answer × Memory :=
  call.exchange.run (Memory.storeAt time) memory

end Client.Call

structure Session where
  call : Client.Call
  rest : Exchange Answer
  /-- What its clock said, once it was asked. -/
  time : Option UInt64
  /-- How many writes had been done when it read. -/
  seen : Nat

namespace Session

def start (call : Client.Call) : Session :=
  ⟨call, call.exchange, none, 0⟩

def answer? (session : Session) : Option Answer :=
  match session.rest with
  | .done answer => some answer
  | _ => none

def isBound (session : Session) : Bool :=
  match session.rest with
  | .write _ _ (some _) _ => true
  | _ => false

end Session

/-- A write that was done, with the time of the memory. -/
inductive Commit where
  | ofCall (session : Nat) (call : Client.Call) (time clock : UInt64)
  /-- Of another writer, such as a batch. -/
  | free (key : Key) (operations : List FieldOperation) (expected : Option UInt32) (clock : UInt64)

namespace Commit

def key : Commit → Key
  | .ofCall _ call _ _ => call.key
  | .free key _ _ _ => key

def session? : Commit → Option Nat
  | .ofCall session _ _ _ => some session
  | .free _ _ _ _ => none

def replay (memory : Memory) : Commit → Memory
  | .ofCall _ call time clock => (call.alone time { memory with clock }).2
  | .free key operations expected clock =>
      (Memory.write { memory with clock } key operations expected).2

def replayAll (memory : Memory) (commits : List Commit) : Memory :=
  commits.foldl replay memory

def since (commits : List Commit) (seen : Nat) (key : Key) : Nat :=
  (commits.drop seen).countP fun commit => decide (commit.key = key)

end Commit

structure Pool where
  memory : Memory
  sessions : List Session
  commits : List Commit

inductive Event where
  | tick (clock : UInt64)
  | enter (call : Client.Call)
  /-- The next request of a session, whose clock says `time` if that is what it asks. -/
  | serve (session : Nat) (time : UInt64)
  | write (key : Key) (operations : List FieldOperation) (expected : Option UInt32)

namespace Pool

def start (memory : Memory) : Pool :=
  ⟨memory, [], []⟩

def since (pool : Pool) (session : Session) : Nat :=
  Commit.since pool.commits session.seen session.call.key

def written (commit : Commit) : Reply → List Commit
  | .ok _ => [commit]
  | .error _ => []

/-- No call sends batches. -/
def serve (pool : Pool) (i : Nat) (session : Session) (time : UInt64) : Pool :=
  match session.rest with
  | .read key operations next =>
      let reply := pool.memory.read key operations
      let session := { session with rest := next reply, seen := pool.commits.length }
      { pool with sessions := pool.sessions.set i session }
  | .now next =>
      let session := { session with rest := next time, time := some time }
      { pool with sessions := pool.sessions.set i session }
  | .write key operations expected next =>
      let (reply, memory) := pool.memory.write key operations expected
      let commit := .ofCall i session.call (session.time.getD 0) pool.memory.clock
      { memory,
        sessions := pool.sessions.set i { session with rest := next reply },
        commits := pool.commits ++ written commit reply }
  | .done _ => pool
  | .batchRead _ _ => pool
  | .batchWrite _ _ => pool

def step (pool : Pool) : Event → Pool
  | .tick clock => { pool with memory := { pool.memory with clock } }
  | .enter call => { pool with sessions := pool.sessions ++ [.start call] }
  | .serve i time =>
      match pool.sessions[i]? with
      | some session => pool.serve i session time
      | none => pool
  | .write key operations expected =>
      let (reply, memory) := pool.memory.write key operations expected
      let commit := .free key operations expected pool.memory.clock
      { pool with memory, commits := pool.commits ++ written commit reply }

def run (pool : Pool) (events : List Event) : Pool :=
  events.foldl step pool

/-- A write bound to a generation comes before the record has gone through all generations. -/
def IsTimely (pool : Pool) : Event → Prop
  | .serve i _ =>
      ∀ session, pool.sessions[i]? = some session → session.isBound = true →
        pool.since session < Memory.generations
  | _ => True

def Timely : Pool → List Event → Prop
  | _, [] => True
  | pool, event :: events => pool.IsTimely event ∧ (pool.step event).Timely events

end Pool

end RecordPath
