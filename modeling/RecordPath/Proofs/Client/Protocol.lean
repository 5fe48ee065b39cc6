import RecordPath.Client.Single
import RecordPath.Proofs.Outcomes

namespace RecordPath

namespace Exchange

structure Concludes (next : Reply → Exchange Answer) : Prop where
  error : ∀ e, next (.error e) = .done (.error e.classify)
  ok : ∀ view, ∃ values, next (.ok view) = .done (.ok values)

def Unchanged (changes : Bool) (answer : Answer) : Prop :=
  changes = true → ∃ e, answer = .error e

inductive Bound (key : Key) (generation : UInt32) (changes : Bool) : Exchange Answer → Prop
  | done {answer : Answer} : Unchanged changes answer → Bound key generation changes (.done answer)
  | write {operations : List FieldOperation} {next : Reply → Exchange Answer} :
      Concludes next → Bound key generation changes (.write key operations (some generation) next)

inductive Fetched (key : Key) (generation : UInt32) (changes : Bool) : Exchange Answer → Prop
  | done {answer : Answer} :
      Unchanged changes answer → Fetched key generation changes (.done answer)
  | now {next : UInt64 → Exchange Answer} :
      (∀ time, Bound key generation changes (next time)) →
      Fetched key generation changes (.now next)

inductive Ready (key : Key) (changes : Bool) : Exchange Answer → Prop
  | done {answer : Answer} : Unchanged changes answer → Ready key changes (.done answer)
  | write {operations : List FieldOperation} {next : Reply → Exchange Answer} :
      Concludes next → Ready key changes (.write key operations none next)
  | read {operations : List FieldOperation} {next : Reply → Exchange Answer} :
      (∀ e, next (.error e) = .done (.error e.classify)) →
      (∀ view, view.values.length = operations.length →
        Fetched key view.stamp.generation changes (next (.ok view))) →
      Ready key changes (.read key operations next)

theorem unchanged_error (changes : Bool) (e : DocumentError) : Unchanged changes (.error e) :=
  fun _ => ⟨e, rfl⟩

theorem unchanged_of_false {changes : Bool} (h : changes = false) (answer : Answer) :
    Unchanged changes answer := by
  rintro rfl
  cases h

end Exchange

open Exchange

namespace Client

variable {key : Key} {fields : List String} {steps : Location} {residual : Residual}
  {operation : Operation} {changes : Bool}

theorem ready_singlePhase (config : ClientConfig)
    (h : operation.isWrite = false → changes = false) :
    Ready key changes (singlePhase config key fields steps operation) := by
  unfold singlePhase
  split
  · exact .done (unchanged_error _ _)
  · split
    · exact .write ⟨fun e => rfl, fun view => ⟨_, rfl⟩⟩
    · rename_i hw
      refine .read (fun e => rfl) fun view _ => .done ?_
      exact unchanged_of_false (h (by simpa using hw)) _

theorem length_of_evaluate {record : RecordContext} :
    ∀ {pairs : List (String × Json)} {outputs : List (String × Json)},
      evaluate residual record operation pairs = .ok outputs → outputs.length = pairs.length := by
  intro pairs
  induction pairs with
  | nil => intro outputs h; cases h; rfl
  | cons pair rest ih =>
      intro outputs h
      obtain ⟨field, subtree⟩ := pair
      simp only [evaluate] at h
      split at h
      · cases h
      · cases hr : evaluate residual record operation rest with
        | error e => rw [hr] at h; cases h
        | ok others =>
            rw [hr] at h
            cases h
            simp [ih hr]

theorem bound_writeBack (guard : Guard) {outputs : List (String × Json)}
    (h : outputs = [] → changes = false) :
    Bound guard.key guard.expected changes (writeBack guard steps outputs) := by
  unfold writeBack
  split
  · exact .done (unchanged_error _ _)
  · rename_i hm
    have empty : outputs = [] := List.eq_nil_of_length_eq_zero (Outcomes.length_of_mapM hm).symm
    exact .done (unchanged_of_false (h empty) _)
  · exact .write ⟨fun e => rfl, fun view => ⟨_, rfl⟩⟩

theorem bound_secondPhase (view : View) (now : UInt64)
    (length : view.values.length = fields.length)
    (h : operation.isWrite = false ∨ fields = [] → changes = false) :
    Bound key view.stamp.generation changes
      (secondPhase key fields steps residual operation view now) := by
  simp only [secondPhase]
  split
  · exact .done (unchanged_error _ _)
  · rename_i outputs he
    split
    · refine bound_writeBack (Guard.capture key view.stamp) fun empty => h (.inr ?_)
      have := length_of_evaluate he
      rw [empty, List.length_zip, length, Nat.min_self] at this
      exact List.eq_nil_of_length_eq_zero this.symm
    · rename_i hw
      exact .done (unchanged_of_false (h (.inl (by simpa using hw))) _)

theorem ready_twoPhase (h : operation.isWrite = false ∨ fields = [] → changes = false) :
    Ready key changes (twoPhase key fields steps residual operation) := by
  unfold twoPhase
  split
  · exact .done (unchanged_error _ _)
  · rename_i fetches hf
    refine .read (fun e => rfl) fun view length => .now fun now => ?_
    exact bound_secondPhase view now (length.trans (Outcomes.length_of_mapM hf)) h

theorem ready_execute (config : ClientConfig) (key : Key) (fields : List String) (path : String)
    (operation : Operation) :
    Ready key (operation.isWrite && !fields.isEmpty)
      (execute config key fields path operation) := by
  have changes : operation.isWrite = false ∨ fields = [] →
      (operation.isWrite && !fields.isEmpty) = false := by
    rintro (hw | hf)
    · simp [hw]
    · simp [hf]
  unfold execute
  split
  · exact .done (unchanged_error _ _)
  · split
    · exact .done (unchanged_error _ _)
    · split
      · rename_i hf
        exact .done (unchanged_of_false (changes (.inr hf)) _)
      · split
        · exact ready_singlePhase config fun hw => changes (.inl hw)
        · exact ready_twoPhase changes

end Client

end RecordPath
