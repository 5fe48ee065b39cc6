import RecordPath.Client.Batch
import RecordPath.Store.Memory

namespace RecordPath

namespace Batch

variable {α β σ : Type}

def thread (step : σ → α → β × σ) : σ → List α → List β × σ
  | s, [] => ([], s)
  | s, x :: xs =>
      let (y, s) := step s x
      let (ys, s) := thread step s xs
      (y :: ys, s)

theorem thread_cons (step : σ → α → β × σ) (s : σ) (x : α) (xs : List α) :
    thread step s (x :: xs) =
      ((step s x).1 :: (thread step (step s x).2 xs).1, (thread step (step s x).2 xs).2) :=
  rfl

theorem length_thread (step : σ → α → β × σ) :
    ∀ (s : σ) (xs : List α), (thread step s xs).1.length = xs.length := by
  intro s xs
  induction xs generalizing s with
  | nil => rfl
  | cons x xs ih => rw [thread_cons, List.length_cons, ih, List.length_cons]

theorem getElem?_thread (step : σ → α → β × σ) (s : σ) (xs : List α) (i : Nat) :
    (thread step s xs).1[i]? =
      xs[i]?.map fun x => (step (thread step s (xs.take i)).2 x).1 := by
  induction xs generalizing s i with
  | nil => rfl
  | cons x xs ih =>
      cases i with
      | zero => rfl
      | succ i =>
          rw [thread_cons, List.take_succ_cons, thread_cons, List.getElem?_cons_succ,
            List.getElem?_cons_succ]
          exact ih _ i

theorem thread_eraseIdx {step : σ → α → β × σ} (idle : β → Prop)
    (h : ∀ s x, idle (step s x).1 → (step s x).2 = s) :
    ∀ (s : σ) (xs : List α) (i : Nat) (y : β), (thread step s xs).1[i]? = some y → idle y →
      thread step s (xs.eraseIdx i) = ((thread step s xs).1.eraseIdx i, (thread step s xs).2) := by
  intro s xs
  induction xs generalizing s with
  | nil => intro i y hy; cases hy
  | cons x xs ih =>
      intro i y hy hidle
      rw [thread_cons] at hy ⊢
      cases i with
      | zero =>
          cases hy
          have same : (step s x).2 = s := h s x hidle
          simp only [same, List.eraseIdx_cons_zero]
      | succ i =>
          have rest := ih (step s x).2 i y hy hidle
          rw [List.eraseIdx_cons_succ, thread_cons, rest, List.eraseIdx_cons_succ]

theorem flatten_chunks (n : Nat) (xs : List α) : (chunks n xs).flatten = xs := by
  induction xs using chunks.induct n with
  | case1 => rw [chunks]; rfl
  | case2 x rest ih =>
      rw [chunks, List.flatten_cons, ih, List.cons_append, List.take_append_drop]

theorem aligned_of_length {n : Nat} {replies : List Reply} (h : replies.length = n) :
    aligned n replies = replies := by
  have whole : replies.take n = replies := List.take_of_length_le (Nat.le_of_eq h)
  rw [aligned, whole, h, Nat.sub_self, List.replicate_zero, List.append_nil]

end Batch

namespace Memory

def answerRead (memory : Memory) (request : ReadRequest) : Reply :=
  memory.read request.key request.operations

theorem answerAll_cons (memory : Memory) (request : WriteRequest) (rest : List WriteRequest) :
    memory.answerAll (request :: rest) =
      ((memory.answer request).1 :: ((memory.answer request).2.answerAll rest).1,
        ((memory.answer request).2.answerAll rest).2) :=
  rfl

theorem answerAll_eq_thread (memory : Memory) (requests : List WriteRequest) :
    memory.answerAll requests = Batch.thread answer memory requests := by
  induction requests generalizing memory with
  | nil => rfl
  | cons request rest ih => rw [answerAll_cons, ih, Batch.thread_cons]

theorem length_answerAll (memory : Memory) (requests : List WriteRequest) :
    (memory.answerAll requests).1.length = requests.length := by
  rw [answerAll_eq_thread, Batch.length_thread]

theorem answerAll_append (memory : Memory) (requests others : List WriteRequest) :
    memory.answerAll (requests ++ others) =
      ((memory.answerAll requests).1 ++ ((memory.answerAll requests).2.answerAll others).1,
        ((memory.answerAll requests).2.answerAll others).2) := by
  induction requests generalizing memory with
  | nil => rfl
  | cons request rest ih =>
      rw [List.cons_append, answerAll_cons, ih, answerAll_cons, List.cons_append]

end Memory

namespace Batch

variable {α : Type} {time : UInt64}

theorem run_sendReads (pieces : List (List ReadRequest)) (next : List Reply → Exchange α)
    (memory : Memory) :
    (sendReads pieces next).run (Memory.storeAt time) memory =
      (next (pieces.flatten.map memory.answerRead)).run (Memory.storeAt time) memory := by
  induction pieces generalizing next with
  | nil => rfl
  | cons piece pieces ih =>
      have length : (piece.map memory.answerRead).length = piece.length := List.length_map _
      change (sendReads pieces fun more =>
        next (aligned piece.length (piece.map memory.answerRead) ++ more)).run _ memory = _
      rw [ih, aligned_of_length length, List.flatten_cons, List.map_append]

theorem run_sendWrites (pieces : List (List WriteRequest)) (next : List Reply → Exchange α)
    (memory : Memory) :
    (sendWrites pieces next).run (Memory.storeAt time) memory =
      (next (memory.answerAll pieces.flatten).1).run (Memory.storeAt time)
        (memory.answerAll pieces.flatten).2 := by
  induction pieces generalizing next memory with
  | nil => rfl
  | cons piece pieces ih =>
      have length := memory.length_answerAll piece
      change (sendWrites pieces fun more =>
        next (aligned piece.length (memory.answerAll piece).1 ++ more)).run _
          (memory.answerAll piece).2 = _
      rw [ih, aligned_of_length length, List.flatten_cons, Memory.answerAll_append]

namespace Slot

def fetchFrom (memory : Memory) (slot : Slot) : Slot :=
  match slot.readRequest? with
  | some request => slot.takeRead (memory.answerRead request)
  | none => slot

def evaluated (now : UInt64) (slot : Slot) : Slot :=
  match slot.plan, slot.fetched with
  | some (.twoPhase _ steps residual), some view => slot.evaluate steps residual view now
  | _, _ => slot

def send (request? : Slot → Option WriteRequest) (take : Slot → Reply → Slot) (memory : Memory)
    (slot : Slot) : Slot × Memory :=
  match request? slot with
  | some request => (take slot (memory.answer request).1, (memory.answer request).2)
  | none => (slot, memory)

def sendFirst : Memory → Slot → Slot × Memory :=
  send writeRequest? takeWrite

def sendSecond : Memory → Slot → Slot × Memory :=
  send request takeSecond

def finish (memory : Memory) (slot : Slot) : ItemResult × Memory :=
  ((slot.sendSecond memory).1.result, (slot.sendSecond memory).2)

theorem writeRequest?_fetchFrom (memory : Memory) (slot : Slot) :
    (slot.fetchFrom memory).writeRequest? = slot.writeRequest? := by
  have plan : (slot.fetchFrom memory).plan = slot.plan ∧
      (slot.fetchFrom memory).item = slot.item := by
    unfold fetchFrom
    split
    · unfold takeRead
      split <;> exact ⟨rfl, rfl⟩
    · exact ⟨rfl, rfl⟩
  rw [writeRequest?, plan.1, plan.2, writeRequest?]

end Slot

theorem deliver_answerRead (memory : Memory) (slots : List Slot) :
    deliver (fun slot => slot.readRequest?.isSome) Slot.takeRead slots
        ((slots.filterMap Slot.readRequest?).map memory.answerRead) =
      slots.map (Slot.fetchFrom memory) := by
  induction slots with
  | nil => rfl
  | cons slot slots ih =>
      cases h : slot.readRequest? with
      | none => simp [deliver, Slot.fetchFrom, h, ih]
      | some request => simp [deliver, Slot.fetchFrom, h, ih]

theorem deliver_answerAll (request? : Slot → Option WriteRequest) (take : Slot → Reply → Slot)
    (memory : Memory) (slots : List Slot) :
    deliver (fun slot => (request? slot).isSome) take slots
        (memory.answerAll (slots.filterMap request?)).1 =
      (thread (Slot.send request? take) memory slots).1 ∧
    (memory.answerAll (slots.filterMap request?)).2 =
      (thread (Slot.send request? take) memory slots).2 := by
  induction slots generalizing memory with
  | nil => exact ⟨rfl, rfl⟩
  | cons slot slots ih =>
      cases h : request? slot with
      | none =>
          have sent : Slot.send request? take memory slot = (slot, memory) := by
            simp only [Slot.send, h]
          obtain ⟨delivered, kept⟩ := ih memory
          rw [List.filterMap_cons_none h, thread_cons, sent, kept]
          refine ⟨?_, rfl⟩
          simp only [deliver, h, Option.isSome_none, Bool.false_eq_true, if_false, delivered]
      | some request =>
          have sent : Slot.send request? take memory slot =
              (take slot (memory.answer request).1, (memory.answer request).2) := by
            simp only [Slot.send, h]
          obtain ⟨delivered, kept⟩ := ih (memory.answer request).2
          rw [List.filterMap_cons_some h, thread_cons, sent, Memory.answerAll_cons]
          refine ⟨?_, kept⟩
          simp only [deliver, h, Option.isSome_some, if_true, delivered]

theorem run_evaluateAll (slots : List Slot) (next : List Slot → Exchange α) (memory : Memory) :
    (evaluateAll slots next).run (Memory.storeAt time) memory =
      (next (slots.map (Slot.evaluated time))).run (Memory.storeAt time) memory := by
  induction slots generalizing next with
  | nil => rfl
  | cons slot slots ih =>
      rw [evaluateAll, List.map_cons, Slot.evaluated]
      generalize slot.plan = plan, slot.fetched = fetched
      rcases plan with _ | (operations | operations | ⟨fetches, steps, residual⟩)
      · exact ih _
      · exact ih _
      · exact ih _
      · rcases fetched with _ | view
        · exact ih _
        · exact ih _

theorem run_secondRound (max : Nat) (slots : List Slot) (memory : Memory) :
    (secondRound max slots).run (Memory.storeAt time) memory =
      ((thread Slot.sendSecond memory (slots.map (Slot.evaluated time))).1.map Slot.result,
        (thread Slot.sendSecond memory (slots.map (Slot.evaluated time))).2) := by
  have second := deliver_answerAll Slot.request Slot.takeSecond memory
    (slots.map (Slot.evaluated time))
  rw [secondRound, run_evaluateAll, run_sendWrites, flatten_chunks, second.1, second.2]
  rfl

def firstRound (config : ClientConfig) (items : List Item) (memory : Memory) :
    List Slot × Memory :=
  thread Slot.sendFirst memory
    ((items.map (Slot.prepare config)).map (Slot.fetchFrom memory))

theorem run_perform (config : ClientConfig) (items : List Item) (memory : Memory) :
    (perform config items).run (Memory.storeAt time) memory =
      (secondRound config.batch.maxRequestsPerCall (firstRound config items memory).1).run
        (Memory.storeAt time) (firstRound config items memory).2 := by
  -- The reads leave the plans as they are, and so the writes that are asked for.
  have asked (slots : List Slot) :
      slots.filterMap Slot.writeRequest? =
        (slots.map (Slot.fetchFrom memory)).filterMap Slot.writeRequest? := by
    rw [List.filterMap_map]
    congr 1
    funext slot
    exact (Slot.writeRequest?_fetchFrom memory slot).symm
  have first := deliver_answerAll Slot.writeRequest? Slot.takeWrite memory
    ((items.map (Slot.prepare config)).map (Slot.fetchFrom memory))
  rw [perform, run_sendReads, run_sendWrites, flatten_chunks, flatten_chunks,
    deliver_answerRead, asked]
  dsimp only
  rw [first.1, first.2]
  rfl

end Batch

end RecordPath
