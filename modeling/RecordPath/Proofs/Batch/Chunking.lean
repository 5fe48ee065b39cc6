import RecordPath.Proofs.Batch.Rounds

namespace RecordPath.Batch

variable {α ρ σ : Type} {limit expected i j : Nat} {requests piece : List ρ}
  {pieces : List (List ρ)} {answer : List Reply} {answers : List (List Reply)}

structure Pieces (limit : Nat) (requests : List ρ) (pieces : List (List ρ)) : Prop where
  whole : pieces.flatten = requests
  nonempty : ∀ piece ∈ pieces, 1 ≤ piece.length
  bound : ∀ piece ∈ pieces, piece.length ≤ max limit 1

theorem length_of_mem_chunks (h : piece ∈ chunks limit requests) :
    1 ≤ piece.length ∧ piece.length ≤ max limit 1 := by
  induction requests using chunks.induct limit with
  | case1 =>
      rw [chunks] at h
      cases h
  | case2 request rest ih =>
      rw [chunks] at h
      rcases List.mem_cons.1 h with rfl | later
      · rw [List.length_cons, List.length_take]
        omega
      · exact ih later

theorem pieces_chunks (limit : Nat) (requests : List ρ) :
    Pieces limit requests (chunks limit requests) where
  whole := flatten_chunks limit requests
  nonempty _ h := (length_of_mem_chunks h).1
  bound _ h := (length_of_mem_chunks h).2

-- An element of a piece is found in the whole behind the elements of the pieces before it.
theorem getElem?_flatten_piece (sent : pieces[i]? = some piece) (inside : j < piece.length) :
    pieces.flatten[(pieces.take i).flatten.length + j]? = piece[j]? := by
  induction pieces generalizing i with
  | nil => cases sent
  | cons first pieces ih =>
      cases i with
      | zero =>
          cases sent
          rw [List.take_zero, List.flatten_nil, List.length_nil, Nat.zero_add, List.flatten_cons,
            List.getElem?_append_left inside]
      | succ i =>
          rw [List.take_succ_cons, List.flatten_cons, List.flatten_cons, List.length_append,
            Nat.add_assoc, List.getElem?_append_right (Nat.le_add_right _ _),
            Nat.add_sub_cancel_left, ih sent]

theorem getElem?_aligned (replies : List Reply) (h : i < expected) :
    (aligned expected replies)[i]? = some (replies[i]?.getD (.error .unanswered)) := by
  rw [aligned]
  rcases Nat.lt_or_ge i replies.length with given | missing
  · have taken : i < (replies.take expected).length := by
      rw [List.length_take]
      omega
    rw [List.getElem?_append_left taken, List.getElem?_take_of_lt h,
      List.getElem?_eq_getElem given, Option.getD_some]
  · have taken : (replies.take expected).length = replies.length := by
      rw [List.length_take]
      omega
    have padded : i - replies.length < expected - replies.length := by omega
    rw [List.getElem?_append_right (by omega), taken, List.getElem?_replicate_of_lt padded,
      List.getElem?_eq_none missing, Option.getD_none]

def results (pieces : List (List ρ)) (answers : List (List Reply)) : List Reply :=
  (List.zipWith (fun piece answer => aligned piece.length answer) pieces answers).flatten

theorem results_cons (piece : List ρ) (pieces : List (List ρ)) (answer : List Reply)
    (answers : List (List Reply)) :
    results (piece :: pieces) (answer :: answers) =
      aligned piece.length answer ++ results pieces answers := by
  rw [results, List.zipWith_cons_cons, List.flatten_cons, results]

theorem length_results (h : answers.length = pieces.length) :
    (results pieces answers).length = pieces.flatten.length := by
  induction pieces generalizing answers with
  | nil => rfl
  | cons piece pieces ih =>
      cases answers with
      | nil => cases h
      | cons answer answers =>
          rw [results_cons, List.length_append, length_aligned, ih (Nat.succ.inj h),
            List.flatten_cons, List.length_append]

theorem getElem?_results (h : answers.length = pieces.length) (sent : pieces[i]? = some piece)
    (given : answers[i]? = some answer) (inside : j < piece.length) :
    (results pieces answers)[(pieces.take i).flatten.length + j]? =
      some (answer[j]?.getD (.error .unanswered)) := by
  have before : (results (pieces.take i) (answers.take i)).length =
      (pieces.take i).flatten.length := by
    apply length_results
    rw [List.length_take, List.length_take, h]
  have block : (List.zipWith (fun piece answer => aligned piece.length answer) pieces
      answers)[i]? = some (aligned piece.length answer) := by
    rw [List.getElem?_zipWith, sent, given]
  have here : j < (aligned piece.length answer).length := by
    rw [length_aligned]
    exact inside
  rw [← before, results, results, ← List.take_zipWith, getElem?_flatten_piece block here,
    getElem?_aligned answer inside]

def calls (ask : List ρ → σ → List Reply × σ) : σ → List (List ρ) → List (List Reply) × σ :=
  thread fun s piece => ask piece s

theorem run_sendReads_pieces (store : RecordStore σ) (pieces : List (List ReadRequest))
    (next : List Reply → Exchange α) (s : σ) :
    (sendReads pieces next).run store s =
      (next (results pieces (calls store.batchRead s pieces).1)).run store
        (calls store.batchRead s pieces).2 := by
  induction pieces generalizing next s with
  | nil => rfl
  | cons piece pieces ih =>
      rw [calls, thread_cons, results_cons]
      exact ih _ (store.batchRead piece s).2

theorem run_sendWrites_pieces (store : RecordStore σ) (pieces : List (List WriteRequest))
    (next : List Reply → Exchange α) (s : σ) :
    (sendWrites pieces next).run store s =
      (next (results pieces (calls store.batchWrite s pieces).1)).run store
        (calls store.batchWrite s pieces).2 := by
  induction pieces generalizing next s with
  | nil => rfl
  | cons piece pieces ih =>
      rw [calls, thread_cons, results_cons]
      exact ih _ (store.batchWrite piece s).2

/-- From `s` on the store was asked for the pieces, one call each, and every request has the result
at its own position in the answer to its piece. -/
structure SentInPieces (ask : List ρ → σ → List Reply × σ) (limit : Nat) (s : σ)
    (requests : List ρ) (replies : List Reply) (last : σ) : Prop where
  length : replies.length = requests.length
  own : ∃ pieces, Pieces limit requests pieces ∧ (calls ask s pieces).2 = last ∧
    (calls ask s pieces).1.length = pieces.length ∧
    ∀ i j piece answer, pieces[i]? = some piece → (calls ask s pieces).1[i]? = some answer →
      j < piece.length →
      requests[(pieces.take i).flatten.length + j]? = piece[j]? ∧
        replies[(pieces.take i).flatten.length + j]? =
          some (answer[j]?.getD (.error .unanswered))

theorem sentInPieces_chunks (ask : List ρ → σ → List Reply × σ) (limit : Nat) (s : σ)
    (requests : List ρ) :
    SentInPieces ask limit s requests
      (results (chunks limit requests) (calls ask s (chunks limit requests)).1)
      (calls ask s (chunks limit requests)).2 := by
  have all : (calls ask s (chunks limit requests)).1.length = (chunks limit requests).length :=
    length_thread _ s _
  constructor
  · rw [length_results all, flatten_chunks]
  · refine ⟨_, pieces_chunks limit requests, rfl, all, ?_⟩
    intro i j piece answer sent given inside
    refine ⟨?_, getElem?_results all sent given inside⟩
    rw [← getElem?_flatten_piece sent inside, flatten_chunks]

theorem run_sentInPieces (store : RecordStore σ) (limit : Nat) (s : σ) :
    (∀ (requests : List ReadRequest) (next : List Reply → Exchange α), ∃ replies last,
      SentInPieces store.batchRead limit s requests replies last ∧
        (sendReads (chunks limit requests) next).run store s = (next replies).run store last) ∧
    ∀ (requests : List WriteRequest) (next : List Reply → Exchange α), ∃ replies last,
      SentInPieces store.batchWrite limit s requests replies last ∧
        (sendWrites (chunks limit requests) next).run store s = (next replies).run store last := by
  constructor
  · intro requests next
    exact ⟨_, _, sentInPieces_chunks store.batchRead limit s requests,
      run_sendReads_pieces store (chunks limit requests) next s⟩
  · intro requests next
    exact ⟨_, _, sentInPieces_chunks store.batchWrite limit s requests,
      run_sendWrites_pieces store (chunks limit requests) next s⟩

end RecordPath.Batch
