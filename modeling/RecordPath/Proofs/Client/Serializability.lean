import Mathlib.Control.Monad.Basic
import RecordPath.Proofs.Client.Pool
import RecordPath.Proofs.Client.Protocol
import RecordPath.Proofs.Store.Writes

/-!
Calls that read, compute and write are serializable. The invariant is kept for each session apart:
as long as no write to its record was done since it read, the record is the one it read, and what is
left of the session does there what the whole call would do; and by every write that was done the
generation is one further.
-/

namespace RecordPath

open Exchange

namespace Commit

variable {commits : List Commit} {commit : Commit} {seen : Nat} {key : Key}

theorem since_append_self (h : seen ≤ commits.length) (hk : commit.key = key) :
    since (commits ++ [commit]) seen key = since commits seen key + 1 := by
  simp [since, List.drop_append_of_le_length h, hk]

theorem since_append_of_ne (h : seen ≤ commits.length) (hk : commit.key ≠ key) :
    since (commits ++ [commit]) seen key = since commits seen key := by
  simp [since, List.drop_append_of_le_length h, hk]

theorem since_length (commits : List Commit) (key : Key) :
    since commits commits.length key = 0 := by
  simp [since]

theorem replayAll_append (memory : Memory) (commits : List Commit) (commit : Commit) :
    replayAll memory (commits ++ [commit]) = replay (replayAll memory commits) commit := by
  simp [replayAll]

def Without (commits : List Commit) (i : Nat) : Prop :=
  ∀ commit ∈ commits, commit.session? ≠ some i

theorem without_append {i : Nat} (h : Without commits i) (hc : commit.session? ≠ some i) :
    Without (commits ++ [commit]) i := by
  intro found hf
  rcases List.mem_append.1 hf with hm | hm
  · exact h found hm
  · cases List.mem_singleton.1 hm
    exact hc

end Commit

open Commit

variable {initial memory after : Memory} {commits : List Commit} {commit : Commit} {i : Nat}
  {session : Session} {record : Record}

/-- A session that is over: it has one commit, with the answer of the whole call alone on the memory
of the commits before, or it has none and has changed nothing. -/
inductive Settled (initial : Memory) (commits : List Commit) (i : Nat) (session : Session)
    (answer : Answer) : Prop
  | committed {earlier later : List Commit} {clock : UInt64} {values : Fields} :
      commits = earlier ++ .ofCall i session.call (session.time.getD 0) clock :: later →
      Without earlier i → Without later i →
      (session.call.alone (session.time.getD 0) { replayAll initial earlier with clock }).1 =
        answer →
      answer = .ok values → Settled initial commits i session answer
  | unchanged : Without commits i → Unchanged session.call.changes answer →
      Settled initial commits i session answer

/-- The record that was read, and how far the memory has gone since. -/
structure Current (memory : Memory) (commits : List Commit) (session : Session)
    (record : Record) : Prop where
  seen : session.seen ≤ commits.length
  untouched : since commits session.seen session.call.key = 0 →
    memory.records session.call.key = some record
  generation : memory.generation session.call.key =
    record.stamp.generation + .ofNat (since commits session.seen session.call.key)

def Resumes (session : Session) (record : Record) (time : UInt64) : Prop :=
  ∀ memory : Memory, memory.records session.call.key = some record →
    session.rest.run (Memory.storeAt time) memory = session.call.alone time memory

inductive Progress (initial memory : Memory) (commits : List Commit) (i : Nat)
    (session : Session) : Prop
  | ready : Without commits i → session.time = none →
      Ready session.call.key session.call.changes session.rest →
      (∀ time memory, session.rest.run (Memory.storeAt time) memory =
        session.call.alone time memory) →
      Progress initial memory commits i session
  | fetched {record : Record} : Without commits i → session.time = none →
      Current memory commits session record →
      Fetched session.call.key record.stamp.generation session.call.changes session.rest →
      (∀ time, Resumes session record time) → Progress initial memory commits i session
  | bound {record : Record} {time : UInt64} : Without commits i → session.time = some time →
      Current memory commits session record →
      Bound session.call.key record.stamp.generation session.call.changes session.rest →
      Resumes session record time → Progress initial memory commits i session
  | ended {answer : Answer} : session.rest = .done answer →
      Settled initial commits i session answer → Progress initial memory commits i session

structure Advances (memory after : Memory) (commit : Commit) : Prop where
  others : ∀ key, key ≠ commit.key → after.records key = memory.records key
  generation : after.generation commit.key = memory.generation commit.key + 1

theorem Current.advance (h : Current memory commits session record)
    (advances : Advances memory after commit) :
    Current after (commits ++ [commit]) session record := by
  by_cases hk : commit.key = session.call.key
  · have one := since_append_self h.seen hk
    refine ⟨by simpa using Nat.le_succ_of_le h.seen, fun unwritten => ?_, ?_⟩
    · rw [one] at unwritten
      cases unwritten
    · rw [one, ← hk, advances.generation, hk, h.generation, UInt32.ofNat_add, UInt32.add_assoc]
      rfl
  · have same := since_append_of_ne h.seen hk
    refine ⟨by simpa using Nat.le_succ_of_le h.seen, fun unwritten => ?_, ?_⟩
    · rw [advances.others _ (Ne.symm hk)]
      exact h.untouched (same ▸ unwritten)
    · rw [same, Memory.generation_congr (advances.others _ (Ne.symm hk))]
      exact h.generation

theorem Current.tick (h : Current memory commits session record)
    (same : after.records = memory.records) : Current after commits session record :=
  ⟨h.seen, fun unwritten => same ▸ h.untouched unwritten,
    (Memory.generation_congr (congrFun same _)).trans h.generation⟩

theorem Settled.append {answer : Answer} (h : Settled initial commits i session answer)
    (hc : commit.session? ≠ some i) : Settled initial (commits ++ [commit]) i session answer := by
  cases h with
  | committed split before behind alone ok =>
      refine .committed ?_ before (without_append behind hc) alone ok
      rw [split, List.append_assoc, List.cons_append]
  | unchanged without unchanged => exact .unchanged (without_append without hc) unchanged

theorem Progress.advance (h : Progress initial memory commits i session)
    (advances : Advances memory after commit) (hc : commit.session? ≠ some i) :
    Progress initial after (commits ++ [commit]) i session := by
  cases h with
  | ready without time ready resumes =>
      exact .ready (without_append without hc) time ready resumes
  | fetched without time current fetched resumes =>
      exact .fetched (without_append without hc) time (current.advance advances) fetched resumes
  | bound without time current bound resumes =>
      exact .bound (without_append without hc) time (current.advance advances) bound resumes
  | ended done settled => exact .ended done (settled.append hc)

theorem Progress.tick (h : Progress initial memory commits i session)
    (same : after.records = memory.records) : Progress initial after commits i session := by
  cases h with
  | ready without time ready resumes => exact .ready without time ready resumes
  | fetched without time current fetched resumes =>
      exact .fetched without time (current.tick same) fetched resumes
  | bound without time current bound resumes =>
      exact .bound without time (current.tick same) bound resumes
  | ended done settled => exact .ended done settled

namespace Pool

variable {pool : Pool} {time : UInt64} {key : Key} {operations : List FieldOperation}
  {expected : Option UInt32} {next : Reply → Exchange Answer}

def Owned (sessions : List Session) (i : Nat) (commit : Commit) : Prop :=
  ∃ session values time clock, sessions[i]? = some session ∧ session.rest = .done (.ok values) ∧
    commit = .ofCall i session.call time clock

theorem Owned.set {sessions : List Session} {j : Nat} {changed : Session}
    (h : Owned sessions i commit) (hn : j ≠ i) : Owned (sessions.set j changed) i commit := by
  obtain ⟨session, values, time, clock, hi, hr, hc⟩ := h
  exact ⟨session, values, time, clock, (List.getElem?_set_ne hn).trans hi, hr, hc⟩

structure Consistent (initial : Memory) (pool : Pool) : Prop where
  replayed : pool.memory.records = (replayAll initial pool.commits).records
  progress : ∀ i session, pool.sessions[i]? = some session →
    Progress initial pool.memory pool.commits i session
  owned : ∀ commit ∈ pool.commits, ∀ i, commit.session? = some i →
    Owned pool.sessions i commit

theorem consistent_start (memory : Memory) : Consistent memory (start memory) :=
  ⟨rfl, fun i session h => by simp [start] at h, fun commit h => by cases h⟩

theorem Consistent.replayAll_eq (h : Consistent initial pool) :
    { replayAll initial pool.commits with clock := pool.memory.clock } = pool.memory :=
  Memory.eq_of_records h.replayed.symm rfl

theorem advances_write {view : View} (hk : commit.key = key)
    (h : (memory.write key operations expected).1 = .ok view) :
    Advances memory (memory.write key operations expected).2 commit := by
  subst hk
  exact ⟨fun other ho => Memory.write_records_of_ne ho, Memory.write_generation h⟩

theorem session_of_set {sessions : List Session} {j : Nat} {changed found : Session}
    (h : (sessions.set i changed)[j]? = some found) :
    (j = i ∧ found = changed) ∨ (j ≠ i ∧ sessions[j]? = some found) := by
  rw [List.getElem?_set] at h
  split at h
  · rename_i hi
    split at h
    · cases h
      exact .inl ⟨hi.symm, rfl⟩
    · cases h
  · rename_i hi
    exact .inr ⟨Ne.symm hi, h⟩

theorem session_of_append {sessions : List Session} {new found : Session}
    (h : (sessions ++ [new])[i]? = some found) :
    sessions[i]? = some found ∨ (i = sessions.length ∧ found = new) := by
  rw [List.getElem?_append] at h
  split at h
  · exact .inl h
  · obtain ⟨hi, rfl⟩ := List.getElem?_eq_some_iff.1 h
    simp only [List.length_singleton] at hi
    exact .inr ⟨by omega, by simp⟩

theorem Consistent.set {changed : Session} (h : Consistent initial pool)
    (without : Without pool.commits i)
    (hc : Progress initial pool.memory pool.commits i changed) :
    Consistent initial { pool with sessions := pool.sessions.set i changed } := by
  refine ⟨h.replayed, fun j found hj => ?_, fun commit hm k hk => ?_⟩
  · rcases session_of_set hj with ⟨rfl, rfl⟩ | ⟨-, hf⟩
    · exact hc
    · exact h.progress j found hf
  · refine (h.owned commit hm k hk).set ?_
    rintro rfl
    exact without commit hm hk

theorem Consistent.committed {values : Fields} {time clock : UInt64}
    (h : Consistent initial pool) (without : Without pool.commits i)
    (hi : i < pool.sessions.length) (owner : commit = .ofCall i session.call time clock)
    (advances : Advances pool.memory after commit)
    (replayed : replay (replayAll initial pool.commits) commit = after)
    (hc : Progress initial after (pool.commits ++ [commit]) i
      { session with rest := .done (.ok values) }) :
    Consistent initial ⟨after, pool.sessions.set i { session with rest := .done (.ok values) },
      pool.commits ++ [commit]⟩ := by
  have own : commit.session? = some i := by rw [owner]; rfl
  refine ⟨?_, fun j found hj => ?_, fun found hf k hk => ?_⟩
  · rw [replayAll_append, replayed]
  · rcases session_of_set hj with ⟨rfl, rfl⟩ | ⟨hn, hf⟩
    · exact hc
    · refine (h.progress j found hf).advance advances ?_
      rw [own]
      exact fun he => hn (Option.some.inj he).symm
  · rcases List.mem_append.1 hf with hm | hm
    · refine (h.owned found hm k hk).set ?_
      rintro rfl
      exact without found hm hk
    · cases List.mem_singleton.1 hm
      cases own.symm.trans hk
      exact ⟨_, values, time, clock, List.getElem?_set_self hi, rfl, owner⟩

theorem Consistent.serve_write (h : Consistent initial pool)
    (hi : pool.sessions[i]? = some session) (without : Without pool.commits i)
    (hr : session.rest = .write session.call.key operations expected next)
    (concludes : Concludes next)
    (alone : ∀ view, (pool.memory.write session.call.key operations expected).1 = .ok view →
      session.rest.run (Memory.storeAt (session.time.getD 0)) pool.memory =
        session.call.alone (session.time.getD 0) pool.memory) :
    Consistent initial (pool.serve i session time) := by
  have bound : i < pool.sessions.length := (List.getElem?_eq_some_iff.1 hi).1
  simp only [serve, hr]
  cases hw : (pool.memory.write session.call.key operations expected).1 with
  | error e =>
      simp only [written, List.append_nil, Memory.write_error hw, concludes.error e]
      exact h.set without (.ended rfl (.unchanged without (unchanged_error _ _)))
  | ok view =>
      obtain ⟨values, hv⟩ := concludes.ok view
      have whole : session.call.alone (session.time.getD 0) pool.memory =
          (.ok values, (pool.memory.write session.call.key operations expected).2) := by
        rw [← alone view hw, hr, Exchange.run, Memory.storeAt_write]
        simp only [hw, hv]
        rfl
      simp only [written, hv]
      refine h.committed without bound rfl (advances_write rfl hw) ?_ (.ended rfl ?_)
      · rw [replay, h.replayAll_eq, whole]
      · refine .committed rfl without (fun commit hc => by cases hc) ?_ rfl
        rw [h.replayAll_eq, whole]

theorem Consistent.serve_read (h : Consistent initial pool) (without : Without pool.commits i)
    (unasked : session.time = none)
    (hr : session.rest = .read session.call.key operations next)
    (error : ∀ e, next (.error e) = .done (.error e.classify))
    (ok : ∀ view, view.values.length = operations.length →
      Fetched session.call.key view.stamp.generation session.call.changes (next (.ok view)))
    (alone : ∀ time memory, session.rest.run (Memory.storeAt time) memory =
      session.call.alone time memory) : Consistent initial (pool.serve i session time) := by
  simp only [serve, hr]
  cases hw : pool.memory.read session.call.key operations with
  | error e =>
      refine h.set without (.ended (error e) (.unchanged without (unchanged_error _ _)))
  | ok view =>
      obtain ⟨record, found, stamp, values⟩ := Memory.read_ok hw
      refine h.set without (.fetched without unasked (?_ : Current _ _ _ record) ?_ ?_)
      · refine ⟨Nat.le_refl _, fun _ => found, ?_⟩
        rw [since_length, Memory.generation, found]
        exact (UInt32.add_zero _).symm
      · rw [← stamp]
        exact ok view (Memory.length_readAll values)
      · intro time memory same
        have reply : memory.read session.call.key operations = .ok view :=
          (Memory.read_congr (same.trans found.symm)).trans hw
        rw [← alone time memory, hr, Exchange.run, Memory.storeAt_read]
        simp only [reply]

theorem not_stale_of_ok {g : UInt32} {view : View}
    (h : (memory.write key operations (some g)).1 = .ok view) : memory.generation key = g := by
  refine Decidable.byContradiction fun hg => ?_
  rw [Memory.write_of_stale hg] at h
  cases h

theorem since_eq_zero (h : Current memory commits session record)
    (timely : Commit.since commits session.seen session.call.key < Memory.generations)
    (same : memory.generation session.call.key = record.stamp.generation) :
    Commit.since commits session.seen session.call.key = 0 := by
  refine Decidable.byContradiction fun hn => ?_
  exact Memory.add_ofNat_ne hn timely (h.generation.symm.trans same)

theorem consistent_serve (h : Consistent initial pool) (hi : pool.sessions[i]? = some session)
    (timely : session.isBound = true → pool.since session < Memory.generations) :
    Consistent initial (pool.serve i session time) := by
  have done {answer : Answer} (hr : session.rest = .done answer) :
      Consistent initial (pool.serve i session time) := by
    simpa only [serve, hr] using h
  cases h.progress i session hi with
  | ready without unasked ready alone =>
      generalize hr : session.rest = rest at ready
      cases ready with
      | done => exact done hr
      | write concludes =>
          exact h.serve_write hi without hr concludes fun _ _ => alone _ _
      | read error ok => exact h.serve_read without unasked hr error ok alone
  | @fetched record without unasked current fetched resumes =>
      generalize hr : session.rest = rest at fetched
      cases fetched with
      | done => exact done hr
      | now bound =>
          simp only [serve, hr]
          refine h.set without (.bound without rfl
            ⟨current.seen, current.untouched, current.generation⟩ (bound time) ?_)
          intro memory same
          rw [← resumes time memory same, hr]
          rfl
  | @bound record asked without time current bound resumes =>
      generalize hr : session.rest = rest at bound
      cases bound with
      | done => exact done hr
      | write concludes =>
          refine h.serve_write hi without hr concludes fun view hw => ?_
          have few := timely (by simp [Session.isBound, hr])
          rw [time]
          exact resumes _ (current.untouched (since_eq_zero current few (not_stale_of_ok hw)))
  | ended hr => exact done hr

theorem consistent_step (h : Consistent initial pool) {event : Event}
    (timely : pool.IsTimely event) : Consistent initial (pool.step event) := by
  cases event with
  | tick clock =>
      exact ⟨h.replayed, fun i session hi => (h.progress i session hi).tick rfl, h.owned⟩
  | enter call =>
      refine ⟨h.replayed, fun i session hi => ?_, fun commit hc i hk => ?_⟩
      · simp only [step] at hi
        rcases session_of_append hi with hf | ⟨rfl, rfl⟩
        · exact h.progress i session hf
        · refine .ready (fun commit hc hk => ?_) rfl ?_ fun _ _ => rfl
          · obtain ⟨session, -, -, -, hi, -, -⟩ := h.owned commit hc _ hk
            exact Nat.lt_irrefl _ (List.getElem?_eq_some_iff.1 hi).1
          · exact Client.ready_execute call.config call.key call.fields call.path call.operation
      · obtain ⟨session, values, time, clock, hi, hr, own⟩ := h.owned commit hc i hk
        have bound := (List.getElem?_eq_some_iff.1 hi).1
        exact ⟨session, values, time, clock, (List.getElem?_append_left bound).trans hi, hr, own⟩
  | serve i time =>
      simp only [step]
      split
      · rename_i session hi
        exact consistent_serve h hi fun bound => timely session hi bound
      · exact h
  | write key operations expected =>
      simp only [step]
      cases hw : (pool.memory.write key operations expected).1 with
      | error e => simpa only [written, List.append_nil, Memory.write_error hw] using h
      | ok view =>
          have advances : Advances pool.memory (pool.memory.write key operations expected).2
              (.free key operations expected pool.memory.clock) := advances_write rfl hw
          refine ⟨?_, fun i session hi => ?_, fun commit hc i hk => ?_⟩
          · simp only [written]
            rw [replayAll_append, replay, h.replayAll_eq]
          · exact (h.progress i session hi).advance advances nofun
          · rcases List.mem_append.1 hc with hm | hm
            · exact h.owned commit hm i hk
            · cases List.mem_singleton.1 hm
              cases hk

theorem consistent_run (events : List Event) :
    ∀ {pool : Pool}, Consistent initial pool → pool.Timely events →
      Consistent initial (pool.run events) := by
  induction events with
  | nil => exact fun h _ => h
  | cons event events ih => exact fun h timely => ih (consistent_step h timely.1) timely.2

theorem Consistent.reads_bound (h : Consistent initial pool)
    (hi : pool.sessions[i]? = some session) {g : UInt32}
    (hr : session.rest = .write key operations (some g) next) :
    ∃ record now, key = session.call.key ∧ g = record.stamp.generation ∧ Concludes next ∧
      session.time = some now ∧ Current pool.memory pool.commits session record ∧
      Resumes session record now := by
  cases h.progress i session hi with
  | ready without unasked ready alone => rw [hr] at ready; cases ready
  | fetched without unasked current fetched resumes => rw [hr] at fetched; cases fetched
  | @bound record now without time current bound resumes =>
      have resumed := resumes
      rw [hr] at bound
      cases bound with
      | write concludes => exact ⟨record, now, rfl, rfl, concludes, time, current, resumed⟩
  | ended done => rw [hr] at done; cases done

theorem step_serve_write (time : UInt64) (hi : pool.sessions[i]? = some session)
    (hr : session.rest = .write key operations expected next) {answer : Answer}
    (ha : next (pool.memory.write key operations expected).1 = .done answer) :
    (pool.step (.serve i time)).memory = (pool.memory.write key operations expected).2 ∧
      (pool.step (.serve i time)).sessions[i]? = some { session with rest := .done answer } := by
  simp only [step, hi, serve, hr, ha]
  exact ⟨trivial, List.getElem?_set_self (List.getElem?_eq_some_iff.1 hi).1⟩

theorem Concludes.done (h : Concludes next) (reply : Reply) :
    ∃ answer, next reply = .done answer := by
  cases reply with
  | error e => exact ⟨_, h.error e⟩
  | ok view =>
      obtain ⟨values, hv⟩ := h.ok view
      exact ⟨_, hv⟩

/-- The calls of all sessions are as good as one after another, in the order of their commits. -/
structure Serializable (initial : Memory) (pool : Pool) : Prop where
  replayed : pool.memory.records = (replayAll initial pool.commits).records
  owned : ∀ commit ∈ pool.commits, ∀ i, commit.session? = some i → Owned pool.sessions i commit
  settled : ∀ i session answer, pool.sessions[i]? = some session →
    session.rest = .done answer → Settled initial pool.commits i session answer
  /-- A bound write, with no write to the record since the read, does what the whole call would do
  at this moment, with the time its clock said. -/
  whole : ∀ i session key operations g next time, pool.sessions[i]? = some session →
    session.rest = .write key operations (some g) next → pool.since session = 0 →
    ∃ now answer, session.time = some now ∧
      session.call.alone now pool.memory = (answer, (pool.step (.serve i time)).memory) ∧
      (pool.step (.serve i time)).sessions[i]? = some { session with rest := .done answer }
  /-- After a write to the record it is a conflict and changes nothing. -/
  conflict : ∀ i session key operations g next time, pool.sessions[i]? = some session →
    session.rest = .write key operations (some g) next →
    pool.since session ≠ 0 → pool.since session < Memory.generations →
    (pool.step (.serve i time)).memory = pool.memory ∧
      (pool.step (.serve i time)).sessions[i]? =
        some { session with rest := .done (.error (.conflict session.call.key.text g)) }

theorem Consistent.serializable (h : Consistent initial pool) : Serializable initial pool where
  replayed := h.replayed
  owned := h.owned
  settled i session answer hi hr := by
    cases h.progress i session hi with
    | ready without unasked ready alone =>
        rw [hr] at ready
        cases ready with
        | done unchanged => exact .unchanged without unchanged
    | fetched without unasked current fetched resumes =>
        rw [hr] at fetched
        cases fetched with
        | done unchanged => exact .unchanged without unchanged
    | bound without time current bound resumes =>
        rw [hr] at bound
        cases bound with
        | done unchanged => exact .unchanged without unchanged
    | ended done settled =>
        cases done.symm.trans hr
        exact settled
  whole i session key operations g next time hi hr untouched := by
    obtain ⟨record, now, rfl, rfl, concludes, asked, current, resumes⟩ := h.reads_bound hi hr
    obtain ⟨answer, ha⟩ := Concludes.done concludes
      (pool.memory.write session.call.key operations (some record.stamp.generation)).1
    obtain ⟨hm, hs⟩ := step_serve_write time hi hr ha
    refine ⟨now, answer, asked, ?_, hs⟩
    rw [← resumes _ (current.untouched untouched), hr, Exchange.run, Memory.storeAt_write, hm]
    simp only [ha]
    rfl
  conflict i session key operations g next time hi hr overwritten few := by
    obtain ⟨record, now, rfl, rfl, concludes, asked, current, resumes⟩ := h.reads_bound hi hr
    have stale : pool.memory.generation session.call.key ≠ record.stamp.generation := fun same =>
      overwritten (since_eq_zero current few same)
    have refused : pool.memory.write session.call.key operations (some record.stamp.generation) =
        (.error _, pool.memory) := Memory.write_of_stale stale
    obtain ⟨hm, hs⟩ := step_serve_write time hi hr (by rw [refused, concludes.error])
    exact ⟨hm.trans (by rw [refused]), hs⟩

theorem length_written_le (commit : Commit) (reply : Reply) :
    (written commit reply).length ≤ 1 := by
  cases reply <;> simp [written]

theorem length_commits_step (pool : Pool) (event : Event) :
    (pool.step event).commits.length ≤ pool.commits.length + 1 := by
  cases event with
  | tick clock => simp [step]
  | enter call => simp [step]
  | serve i time =>
      simp only [step]
      split
      · unfold serve
        split
        case h_3 =>
          rw [List.length_append]
          exact Nat.add_le_add_left (length_written_le _ _) _
        all_goals exact Nat.le_succ _
      · exact Nat.le_succ _
  | write key operations expected =>
      simp only [step, List.length_append]
      exact Nat.add_le_add_left (length_written_le _ _) _

theorem since_le (pool : Pool) (session : Session) : pool.since session ≤ pool.commits.length := by
  refine Nat.le_trans List.countP_le_length ?_
  rw [List.length_drop]
  exact Nat.sub_le _ _

theorem timely_of_length (events : List Event) :
    ∀ pool : Pool, pool.commits.length + events.length ≤ Memory.generations →
      pool.Timely events := by
  induction events with
  | nil => exact fun _ _ => trivial
  | cons event events ih =>
      intro pool h
      rw [List.length_cons] at h
      refine ⟨?_, ih _ ?_⟩
      · cases event with
        | serve i time =>
            intro session hi bound
            have := since_le pool session
            omega
        | _ => trivial
      · have := length_commits_step pool event
        omega

/-- Whatever the order in which the requests of the sessions and the writes of others come, if no
record goes through all its generations between a read and the write bound to it. -/
theorem serializable_run (memory : Memory) (events : List Event)
    (timely : (start memory).Timely events) : Serializable memory ((start memory).run events) :=
  (consistent_run events (consistent_start memory) timely).serializable

/-- Both calls read the record before either writes: the first put is done, and the second is told
of the conflict and leaves the record as the first one made it. -/
theorem serializable_run_race :
    let key : Key := ⟨"test", "documents", "1"⟩
    let memory := (Memory.empty 7).seed key [("doc", .obj [("a", .array [.nat 1])])]
    let put (n : Nat) : Client.Call := ⟨.standard, key, ["doc"], "$.a[*]", .put (.nat n)⟩
    let events : List Event :=
      [.enter (put 2), .enter (put 3), .serve 0 8, .serve 1 8, .serve 0 8, .serve 1 8, .serve 0 8,
        .serve 1 8]
    let pool := (start memory).run events
    (start memory).Timely events ∧ Serializable memory pool ∧
      pool.commits.map Commit.session? = [some 0] ∧
      pool.sessions.map Session.answer? = [some (.ok [("doc", .null)]),
        some (.error (.conflict "test/documents/1" 1))] ∧
      pool.memory.records key = some ⟨[("doc", .obj [("a", .array [.nat 2])])], ⟨2, 7⟩⟩ := by
  intro key memory put events pool
  have timely : (start memory).Timely events :=
    timely_of_length events (start memory) (by decide +kernel)
  exact ⟨timely, serializable_run memory events timely, by decide +kernel, by decide +kernel,
    by decide +kernel⟩

end Pool

end RecordPath
