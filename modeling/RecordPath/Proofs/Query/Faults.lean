import RecordPath.Proofs.Outcomes
import RecordPath.Query.Run

namespace RecordPath

namespace DocumentError

def isOfQuery : DocumentError → Bool
  | .queryEvaluation _ _ => true
  | .objectNotFound _ => true
  | .notAList _ => true
  | _ => false

end DocumentError

namespace Query

variable {subtree value : Json} {residual : Residual} {record : RecordContext}
  {expression : List Char} {e : DocumentError}

theorem isOfQuery_of_nodes (h : nodes expression subtree = .error e) : e.isOfQuery = true := by
  unfold nodes at h
  split at h
  · cases h
  · cases h
    rfl

theorem isOfQuery_of_values (h : values expression subtree = .error e) : e.isOfQuery = true := by
  unfold values at h
  split at h
  · cases h
  · cases hn : nodes expression subtree with
    | error e' =>
        rw [hn] at h
        cases h
        exact isOfQuery_of_nodes hn
    | ok found =>
        rw [hn] at h
        cases h

theorem isOfQuery_of_parsedLocation {path : List Char}
    (h : parsedLocation expression path = .error e) : e.isOfQuery = true := by
  unfold parsedLocation at h
  split at h
  · cases h
  · cases h
    rfl

theorem isOfQuery_of_locations (h : locations expression subtree = .error e) :
    e.isOfQuery = true := by
  unfold locations at h
  split at h
  · cases h
  · split at h
    · rename_i hn
      cases h
      exact isOfQuery_of_nodes hn
    · obtain ⟨node, -, failed⟩ := Outcomes.exists_of_mapM_error h
      exact isOfQuery_of_parsedLocation failed

theorem isOfQuery_of_read (h : read subtree residual record = .error e) : e.isOfQuery = true := by
  simp only [read] at h
  split at h
  · rename_i hv
    cases h
    exact isOfQuery_of_values hv
  · split at h
    · cases h
    · split at h
      · cases h
      · cases h
        rfl

theorem isOfQuery_of_setOrAdd (h : setOrAdd subtree residual record value = .error e) :
    e.isOfQuery = true := by
  simp only [setOrAdd] at h
  split at h
  · rename_i hl
    cases h
    exact isOfQuery_of_locations hl
  · split at h
    · cases h
      rfl
    · split at h
      · rename_i hl
        cases h
        exact isOfQuery_of_locations hl
      · split at h
        · cases h
        · cases h
          rfl
  · cases h

theorem isOfQuery_of_append (h : append subtree residual record value = .error e) :
    e.isOfQuery = true := by
  simp only [append] at h
  split at h
  · rename_i hl
    cases h
    exact isOfQuery_of_locations hl
  · cases h
    rfl
  · rename_i places _ _
    cases ha : appendAll value places subtree with
    | ok changed =>
        rw [ha] at h
        cases h
    | error fault =>
        rw [ha] at h
        cases h
        cases fault <;> rfl

theorem isOfQuery_of_delete (h : delete subtree residual record = .error e) :
    e.isOfQuery = true := by
  unfold delete at h
  cases hl : locations (render record residual.tokens) subtree with
  | error e' =>
      rw [hl] at h
      cases h
      exact isOfQuery_of_locations hl
  | ok places =>
      rw [hl] at h
      cases h

theorem isOfQuery_of_run {operation : Operation}
    (h : run subtree residual record operation = .error e) : e.isOfQuery = true := by
  cases operation with
  | get => exact isOfQuery_of_read h
  | put value => exact isOfQuery_of_setOrAdd h
  | append value => exact isOfQuery_of_append h
  | delete => exact isOfQuery_of_delete h

end Query

end RecordPath
