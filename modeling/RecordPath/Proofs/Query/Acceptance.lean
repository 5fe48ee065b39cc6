import RecordPath.Proofs.Query.Creation
import RecordPath.Proofs.Query.Nesting

namespace RecordPath.Query

variable {record : RecordContext} {found : List Token} {subtree : Json} {residual : Residual}
  {operation : Operation} {expression : List Char} {text : String}

def WithinBounds (record : RecordContext) (found : List Token) : Prop :=
  ∀ token ∈ found, token.inBounds record = true ∧ token.nesting ≤ nestingBound

instance (record : RecordContext) (found : List Token) : Decidable (WithinBounds record found) :=
  inferInstanceAs (Decidable (∀ token ∈ found, _ ∧ _))

section Texts

theorem isTaken_iff (record : RecordContext) (wellFormed : Path.WellFormed found)
    (names : ∀ token ∈ found, token.startsPlain = true) :
    isTaken record found = true ↔ ∀ token ∈ found, token.inBounds record = true := by
  rw [isTaken, scansSelect_of_scans wellFormed.scans, Bool.true_and, List.all_eq_true]
  apply forall₂_congr
  intro token ht
  rw [Token.isTaken, names token ht, Bool.and_true]

theorem isSome_ofText?_iff (record : RecordContext) (wellFormed : Path.WellFormed found)
    (names : ∀ token ∈ found, token.startsPlain = true) :
    (Expression.ofText? (render record found)).isSome = true ↔ WithinBounds record found := by
  have filters : ∀ source p, .filter source p ∈ found → p.WellFormed := fun source p mem =>
    Predicate.wellFormed_of_ofText (wellFormed.tokens _ mem).2
  have deepest := nesting_render_le_iff record filters nestingBound
  have taken := isTaken_iff record wellFormed names
  constructor
  · intro accepted
    rw [ofText?_render wellFormed.functions (wellFormed.readsBack record)] at accepted
    split at accepted
    · rename_i bounds
      exact fun token ht => ⟨taken.1 bounds.2 token ht, deepest.1 bounds.1 token ht⟩
    · cases accepted
  · intro within
    have bounds := And.intro (deepest.2 fun token ht => (within token ht).2)
      (taken.2 fun token ht => (within token ht).1)
    rw [ofText?_render wellFormed.functions (wellFormed.readsBack record), if_pos bounds]
    rfl

end Texts

section Runs

theorem refused_of_nodes {e : DocumentError} (h : nodes expression subtree = .error e) :
    Expression.ofText? expression = none := by
  unfold nodes at h
  split at h
  · cases h
  · assumption

theorem refused_of_values {e : DocumentError} (h : values expression subtree = .error e) :
    Expression.ofText? expression = none := by
  unfold values at h
  split at h
  · cases h
  · cases hn : nodes expression subtree with
    | error fault => exact refused_of_nodes hn
    | ok found =>
        rw [hn] at h
        cases h

theorem refused_of_locations
    (h : locations expression subtree = .error (.queryEvaluation text .engine)) :
    Expression.ofText? expression = none := by
  unfold locations at h
  split at h
  · cases h
  · split at h
    · rename_i hn
      exact refused_of_nodes hn
    · obtain ⟨node, -, failed⟩ := Outcomes.exists_of_mapM_error h
      unfold parsedLocation at failed
      split at failed <;> cases failed

theorem ne_engine_of_toNumbers {f : AggregateFunction} {found : List Json} {fault : QueryFault}
    (h : f.toNumbers found = .error fault) : fault ≠ .engine := by
  induction found with
  | nil => cases h
  | cons value found ih =>
      simp only [AggregateFunction.toNumbers] at h
      split at h
      · rename_i hv
        cases h
        unfold AggregateFunction.toNumber at hv
        split at hv <;> cases hv
        rintro ⟨⟩
      · cases hr : f.toNumbers found with
        | ok numbers =>
            rw [hr] at h
            cases h
        | error fault =>
            rw [hr] at h
            cases h
            exact ih hr

theorem ne_engine_of_apply {f : AggregateFunction} {found : List Json} {fault : QueryFault}
    (h : f.apply found = .error fault) : fault ≠ .engine := by
  have finite (x : Float) (hf : AggregateFunction.finite x = .error fault) : fault ≠ .engine := by
    unfold AggregateFunction.finite at hf
    split at hf <;> cases hf
    rintro ⟨⟩
  unfold AggregateFunction.apply at h
  split at h
  · cases h
  · split at h
    · rename_i hn
      cases h
      exact ne_engine_of_toNumbers hn
    · cases h
      rintro ⟨⟩
    · split at h
      · cases h
      · cases h
      · exact finite _ h
      · exact finite _ h

theorem refused_of_run
    (h : run subtree residual record operation = .error (.queryEvaluation text .engine)) :
    Expression.ofText? (render record residual.tokens) = none ∨
      ∃ last parents, creation? residual.tokens = some (last, parents) ∧
        Expression.ofText? (render record parents) = none := by
  cases operation with
  | get =>
      simp only [run, read] at h
      split at h
      · rename_i hv
        exact .inl (refused_of_values hv)
      · split at h
        · cases h
        · split at h
          · cases h
          · rename_i ha
            cases h
            exact absurd rfl (ne_engine_of_apply ha)
  | put value =>
      simp only [run, setOrAdd] at h
      split at h
      · rename_i hl
        cases h
        exact .inl (refused_of_locations hl)
      · split at h
        · cases h
        · rename_i last parents hc
          split at h
          · rename_i hl
            cases h
            exact .inr ⟨last, parents, hc, refused_of_locations hl⟩
          · split at h <;> cases h
      · cases h
  | append value =>
      simp only [run, append] at h
      split at h
      · rename_i hl
        cases h
        exact .inl (refused_of_locations hl)
      · cases h
      · rename_i places _ _
        cases ha : appendAll value places subtree with
        | ok changed =>
            rw [ha] at h
            cases h
        | error fault =>
            rw [ha] at h
            cases fault <;> cases h
  | delete =>
      simp only [run, delete] at h
      cases hl : locations (render record residual.tokens) subtree with
      | ok places =>
          rw [hl] at h
          cases h
      | error e =>
          rw [hl] at h
          cases h
          exact .inl (refused_of_locations hl)

theorem run_of_refused (refused : Expression.ofText? (render record residual.tokens) = none)
    (full : subtree.isNull = false) : run subtree residual record operation =
      .error (.queryEvaluation (renderText record residual.tokens) .engine) := by
  have failed : nodes (render record residual.tokens) subtree =
      .error (.queryEvaluation (renderText record residual.tokens) .engine) := by
    simp only [nodes, refused]
    rfl
  have located : locations (render record residual.tokens) subtree =
      .error (.queryEvaluation (renderText record residual.tokens) .engine) := by
    simp only [locations, full, failed, Bool.false_eq_true, if_false]
  cases operation with
  | get =>
      have selected : values (render record residual.tokens) subtree =
          .error (.queryEvaluation (renderText record residual.tokens) .engine) := by
        simp only [values, full, failed, Bool.false_eq_true, if_false]
        rfl
      simp only [run, read, selected]
  | put value => simp only [run, setOrAdd, located]
  | append value => simp only [run, append, located]
  | delete =>
      simp only [run, delete, located]
      rfl

end Runs

theorem engine_accepts_iff {path : String} {compiled : CompiledPath}
    (compiles : Path.compile path = .ok compiled) (rest : compiled.residual = some residual)
    (names : ∀ token ∈ residual.tokens, token.startsPlain = true) (record : RecordContext) :
    ((Expression.ofText? (render record residual.tokens)).isSome = true ↔
        WithinBounds record residual.tokens) ∧
      (∀ last parents, creation? residual.tokens = some (last, parents) →
        ((Expression.ofText? (render record parents)).isSome = true ↔
          WithinBounds record parents)) ∧
      (WithinBounds record residual.tokens → ∀ subtree operation text,
        run subtree residual record operation ≠ .error (.queryEvaluation text .engine)) ∧
      (¬ WithinBounds record residual.tokens → ∀ subtree operation, subtree.isNull = false →
        run subtree residual record operation =
          .error (.queryEvaluation (renderText record residual.tokens) .engine)) := by
  obtain ⟨found, -, cut⟩ := Path.tokenize_of_compile compiles
  have wellFormed := Path.wellFormed_of_tokenize (cut.expression residual rest).1
  have whole := isSome_ofText?_iff record wellFormed names
  have above (last : Token) (parents : List Token)
      (creates : creation? residual.tokens = some (last, parents)) :
      (∀ token ∈ parents, token ∈ residual.tokens) ∧
        ((Expression.ofText? (render record parents)).isSome = true ↔
          WithinBounds record parents) := by
    obtain ⟨split, descent⟩ := creation?_eq_some creates
    rw [split] at wellFormed names ⊢
    have front : ∀ token ∈ parents, token ∈ parents ++ [last] := fun token ht =>
      List.mem_append_left _ ht
    exact ⟨front, isSome_ofText?_iff record (wellFormed.init descent) fun token ht =>
      names token (front token ht)⟩
  refine ⟨whole, fun last parents creates => (above last parents creates).2, ?_, ?_⟩
  · intro within subtree operation text failed
    rcases refused_of_run failed with refused | ⟨last, parents, creates, refused⟩
    · have accepted := whole.2 within
      rw [refused] at accepted
      cases accepted
    · obtain ⟨front, accepts⟩ := above last parents creates
      have accepted := accepts.2 fun token ht => within token (front token ht)
      rw [refused] at accepted
      cases accepted
  · intro outside subtree operation full
    apply run_of_refused _ full
    rw [← Option.not_isSome_iff_eq_none, whole]
    exact outside

theorem engine_accepts_quantifier :
    let path := "$[?(any(@.a, !(@['x y'][3] >= -2)) && version() == 2)].b"
    let filter : Token := .filter "any(@.a, !(@['x y'][3] >= -2)) && version() == 2"
      (.and (.quantified .any [.key "a"] (.not (.compare (.path [.key "x y", .index 3]) .ge
        (.literal (.number (.int (-2))))))) (.compare (.recordField .version) .eq
          (.literal (.nat 2))))
    let residual : Residual := ⟨path, [filter, .key "b"]⟩
    let record : RecordContext := ⟨2, 0, 18446744073709551615⟩
    Path.compile path = .ok ⟨path, [], some residual⟩ ∧
      (Expression.ofText? (render record [filter, .key "b"])).isSome = true ∧
      (Expression.ofText? (render record [filter])).isSome = true ∧
      ∀ subtree operation text,
        run subtree residual record operation ≠ .error (.queryEvaluation text .engine) := by
  intro path filter residual record
  have compiles : Path.compile path = .ok ⟨path, [], some residual⟩ := by decide +kernel
  have names : ∀ token ∈ residual.tokens, token.startsPlain = true := by decide +kernel
  have within : WithinBounds record residual.tokens := by decide +kernel
  have above : WithinBounds record [filter] := by decide +kernel
  obtain ⟨whole, parents, runs, -⟩ := engine_accepts_iff compiles rfl names record
  exact ⟨compiles, whole.2 within, (parents (.key "b") [filter] rfl).2 above, runs within⟩

/-- A position that a double does not hold exactly is one of a path, but none of a query. -/
theorem not_engine_accepts_wide_position :
    ∃ (path : String) (residual : Residual) (record : RecordContext),
      Path.compile path = .ok ⟨path, [], some residual⟩ ∧
        Expression.ofText? (render record residual.tokens) = none ∧
        run (.array [.array [.nat 1]]) residual record .get =
          .error (.queryEvaluation "$[*][9007199254740992]" .engine) := by
  refine ⟨"$[*][9007199254740992]",
    ⟨"$[*][9007199254740992]", [.listWildcard, .index 9007199254740992]⟩, ⟨1, 0, 0⟩, ?_, ?_, ?_⟩ <;>
    decide +kernel

/-- A name that begins with a blank which is no space is one of a path, but none of a query. -/
theorem not_engine_accepts_blank_name :
    let path := "$[*].\u00a0a"
    let residual : Residual := ⟨path, [.listWildcard, .key "\u00a0a"]⟩
    let record : RecordContext := ⟨1, 0, 0⟩
    Path.compile path = .ok ⟨path, [], some residual⟩ ∧ WithinBounds record residual.tokens ∧
      Expression.ofText? (render record residual.tokens) = none := by
  decide +kernel

/-- Every negation of a path is a pair of parentheses in the query. -/
theorem not_engine_accepts_negations :
    let negations := String.ofList (List.replicate 127 '!')
    let path := "$[?(" ++ negations ++ "@.a)]"
    let residual : Residual := ⟨path,
      [.filter (negations ++ "@.a") (Nat.repeat .not 127 (.present [.key "a"]))]⟩
    let record : RecordContext := ⟨1, 0, 0⟩
    Path.compile path = .ok ⟨path, [], some residual⟩ ∧
      (∀ token ∈ residual.tokens, token.startsPlain = true ∧ token.inBounds record = true) ∧
      Expression.ofText? (render record residual.tokens) = none := by
  decide +kernel

end RecordPath.Query
