import RecordPath.Client.Item
import RecordPath.Client.Single

/-!
Many items in at most two rounds. The first round sends the reads, the fetches for queries and the
writes without queries; the second one the bound writes of the queries' changes. Every item keeps
its own report, and an item with a failing field writes nothing.
-/

namespace RecordPath

abbrev Outcome := Except DocumentError Json

abbrev Report := Members Outcome

structure ItemResult where
  key : Key
  state : ItemState
  fields : Report

namespace ItemResult

def isSuccess (outcome : Outcome) : Bool :=
  match outcome with
  | .ok _ => true
  | .error _ => false

def isOk (result : ItemResult) : Bool :=
  result.fields.all fun entry => isSuccess entry.2

end ItemResult

namespace Batch

def poisoned : Int :=
  -20

inductive Plan where
  | read (operations : List FieldOperation)
  | write (operations : List FieldOperation)
  | twoPhase (fetches : List FieldOperation) (steps : Location) (residual : Residual)
  deriving DecidableEq, Repr

def plan (config : ClientConfig) (item : Item) : Except DocumentError Plan :=
  match Path.compile item.path with
  | .error e => .error e
  | .ok compiled =>
      match Query.checkWritable compiled item.operation with
      | .error e => .error e
      | .ok () =>
          match compiled.residual with
          | none =>
              let build := fun field =>
                Native.build field compiled.native item.operation config.listPut
              (item.fields.mapM build).map fun operations =>
                if item.operation.isWrite then .write operations else .read operations
          | some residual =>
              let fetch := fun field => Native.fetch field compiled.native item.operation
              (item.fields.mapM fetch).map fun fetches =>
                .twoPhase fetches compiled.native residual

structure Slot where
  item : Item
  plan : Option Plan
  state : ItemState
  report : Report
  fetched : Option View
  request : Option WriteRequest

namespace Slot

def fail (slot : Slot) (e : DocumentError) : Slot :=
  { slot with
    report := Members.ofList (slot.item.fields.map fun field => (field, .error e))
    state := .failed }

def succeed (slot : Slot) (values : List Json) (state : ItemState) : Slot :=
  { slot with
    report := Members.ofList (slot.item.fields.zip (values.map .ok))
    state := state }

def written (slot : Slot) (state : ItemState) : Slot :=
  slot.succeed (slot.item.fields.map fun _ => .null) state

def prepare (config : ClientConfig) (item : Item) : Slot :=
  match Batch.plan config item with
  | .ok plan => ⟨item, some plan, .pending, [], none, none⟩
  | .error e => fail ⟨item, none, .pending, [], none, none⟩ e

def readRequest? (slot : Slot) : Option ReadRequest :=
  match slot.plan with
  | some (.read operations) => some ⟨slot.item.key, operations⟩
  | some (.twoPhase fetches _ _) => some ⟨slot.item.key, fetches⟩
  | _ => none

def writeRequest? (slot : Slot) : Option WriteRequest :=
  match slot.plan with
  | some (.write operations) => some (.operate slot.item.key operations none)
  | _ => none

def takeRead (slot : Slot) (reply : Reply) : Slot :=
  match reply, slot.plan with
  | .error e, _ => slot.fail e.classify
  | .ok view, some (.twoPhase _ _ _) =>
      { slot with state := .firstStepDone, fetched := some view }
  | .ok view, _ => slot.succeed view.values .firstStepDone

def takeWrite (slot : Slot) (reply : Reply) : Slot :=
  match reply with
  | .error e => slot.fail e.classify
  | .ok _ => slot.written .firstStepDone

/-- A poisoned item has its errors already. -/
def takeSecond (slot : Slot) (reply : Reply) : Slot :=
  if slot.state = .failed then slot
  else
    match reply with
    | .error e => slot.fail e.classify
    | .ok _ => slot.written .secondStepDone

/-- Each error is reported once, under the first listing of its field. -/
def poisonedReport : List String → Members DocumentError → Report → Report
  | [], _, report => report
  | field :: fields, errors, report =>
      let e := (Members.get? field errors).getD (.itemAborted poisoned)
      poisonedReport fields (Members.erase field errors) (Members.insert field (.error e) report)

def poison (slot : Slot) (errors : Members DocumentError) : Slot :=
  { slot with
    report := poisonedReport slot.item.fields errors []
    state := .failed
    request := some (.reject slot.item.key poisoned) }

def writes (steps : Location) :
    List (String × Outcome) → List FieldOperation × List (String × DocumentError)
  | [] => ([], [])
  | (field, outcome) :: rest =>
      let (operations, errors) := writes steps rest
      match outcome.bind (Native.storeSubtree field steps) with
      | .ok operation => (operation :: operations, errors)
      | .error e => (operations, (field, e) :: errors)

def evaluateWrite (slot : Slot) (steps : Location) (stamp : Stamp)
    (outcomes : List (String × Outcome)) : Slot :=
  match writes steps outcomes with
  | (operations, []) =>
      { slot with request := some ((Guard.capture slot.item.key stamp).request operations) }
  | (_, errors) => slot.poison (Members.ofList errors)

def evaluateRead (slot : Slot) (outcomes : List (String × Outcome)) : Slot :=
  { slot with
    report := Members.ofList outcomes
    state :=
      if outcomes.all fun outcome => ItemResult.isSuccess outcome.2 then .secondStepDone
      else .failed }

def evaluate (slot : Slot) (steps : Location) (residual : Residual) (view : View)
    (now : UInt64) : Slot :=
  let record := Client.context view.stamp now
  let outcomes := (slot.item.fields.zip view.values).map fun (field, subtree) =>
    (field, Query.run subtree residual record slot.item.operation)
  if slot.item.operation.isWrite then slot.evaluateWrite steps view.stamp outcomes
  else slot.evaluateRead outcomes

def result (slot : Slot) : ItemResult :=
  ⟨slot.item.key, slot.state, slot.report⟩

end Slot

def chunks {α : Type} (n : Nat) (xs : List α) : List (List α) :=
  match xs with
  | [] => []
  | x :: rest => (x :: rest.take (n - 1)) :: chunks n (rest.drop (n - 1))
termination_by xs.length
decreasing_by
  simp only [List.length_drop, List.length_cons]
  omega

/-- One reply for each request, whatever the store gave. -/
def aligned (expected : Nat) (replies : List Reply) : List Reply :=
  replies.take expected ++ List.replicate (expected - replies.length) (.error .unanswered)

theorem length_aligned (expected : Nat) (replies : List Reply) :
    (aligned expected replies).length = expected := by
  simp [aligned]
  omega

def sendReads {α : Type} : List (List ReadRequest) → (List Reply → Exchange α) → Exchange α
  | [], next => next []
  | chunk :: chunks, next =>
      .batchRead chunk fun replies =>
        sendReads chunks fun more => next (aligned chunk.length replies ++ more)

def sendWrites {α : Type} : List (List WriteRequest) → (List Reply → Exchange α) → Exchange α
  | [], next => next []
  | chunk :: chunks, next =>
      .batchWrite chunk fun replies =>
        sendWrites chunks fun more => next (aligned chunk.length replies ++ more)

def deliver (asks : Slot → Bool) (take : Slot → Reply → Slot) :
    List Slot → List Reply → List Slot
  | [], _ => []
  | slot :: slots, replies =>
      if asks slot then
        match replies with
        | [] => slot :: deliver asks take slots []
        | reply :: replies => take slot reply :: deliver asks take slots replies
      else slot :: deliver asks take slots replies

def evaluateAll {α : Type} : List Slot → (List Slot → Exchange α) → Exchange α
  | [], next => next []
  | slot :: slots, next =>
      match slot.plan, slot.fetched with
      | some (.twoPhase _ steps residual), some view =>
          .now fun now =>
            let slot := slot.evaluate steps residual view now
            evaluateAll slots fun rest => next (slot :: rest)
      | _, _ => evaluateAll slots fun rest => next (slot :: rest)

def secondRound (max : Nat) (slots : List Slot) : Exchange (List ItemResult) :=
  evaluateAll slots fun slots =>
    sendWrites (chunks max (slots.filterMap Slot.request)) fun replies =>
      let slots := deliver (fun slot => slot.request.isSome) Slot.takeSecond slots replies
      .done (slots.map Slot.result)

def perform (config : ClientConfig) (items : List Item) : Exchange (List ItemResult) :=
  let max := config.batch.maxRequestsPerCall
  let slots := items.map (Slot.prepare config)
  sendReads (chunks max (slots.filterMap Slot.readRequest?)) fun reads =>
    sendWrites (chunks max (slots.filterMap Slot.writeRequest?)) fun writes =>
      let slots := deliver (fun slot => slot.readRequest?.isSome) Slot.takeRead slots reads
      let slots := deliver (fun slot => slot.writeRequest?.isSome) Slot.takeWrite slots writes
      secondRound max slots

end Batch

end RecordPath
