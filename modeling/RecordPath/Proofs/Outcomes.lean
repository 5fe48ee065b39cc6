namespace RecordPath.Outcomes

variable {ε α β : Type}

theorem mapM_cons_ok {f : α → Except ε β} {x : α} {xs : List α} {y : β} (h : f x = .ok y) :
    (x :: xs).mapM f = (xs.mapM f).map (y :: ·) := by
  rw [List.mapM_cons, h]
  rfl

theorem mapM_cons_error {f : α → Except ε β} {x : α} {xs : List α} {e : ε} (h : f x = .error e) :
    (x :: xs).mapM f = .error e := by
  rw [List.mapM_cons, h]
  rfl

theorem mapM_ok {f : α → Except ε β} {g : α → β} :
    ∀ {xs : List α}, (∀ x ∈ xs, f x = .ok (g x)) → xs.mapM f = .ok (xs.map g) := by
  intro xs
  induction xs with
  | nil => intro _; rfl
  | cons x xs ih =>
      intro h
      rw [mapM_cons_ok (h x List.mem_cons_self), ih fun y hy => h y (List.mem_cons_of_mem x hy)]
      rfl

theorem exists_of_mapM {f : α → Except ε β} :
    ∀ {xs : List α} {ys : List β}, xs.mapM f = .ok ys → ∀ x ∈ xs, ∃ y, f x = .ok y := by
  intro xs
  induction xs with
  | nil => intro ys h x hx; cases hx
  | cons x xs ih =>
      intro ys h z hz
      cases hx : f x with
      | error e => rw [mapM_cons_error hx] at h; cases h
      | ok y =>
          rw [mapM_cons_ok hx] at h
          cases hs : xs.mapM f with
          | error e => rw [hs] at h; cases h
          | ok rest =>
              rcases List.mem_cons.1 hz with rfl | hz
              · exact ⟨y, hx⟩
              · exact ih hs z hz

theorem exists_map_of_mapM [Inhabited β] {f : α → Except ε β} {xs : List α} {ys : List β}
    (h : xs.mapM f = .ok ys) : ∃ g : α → β, ys = xs.map g ∧ ∀ x ∈ xs, f x = .ok (g x) := by
  have given : ∀ x ∈ xs, f x = .ok ((f x).toOption.getD default) := by
    intro x hx
    obtain ⟨y, hy⟩ := exists_of_mapM h x hx
    rw [hy]
    rfl
  refine ⟨_, ?_, given⟩
  rw [mapM_ok given] at h
  cases h
  rfl

theorem exists_of_mapM_error {f : α → Except ε β} :
    ∀ {xs : List α} {e : ε}, xs.mapM f = .error e → ∃ x ∈ xs, f x = .error e := by
  intro xs
  induction xs with
  | nil => intro e h; cases h
  | cons x xs ih =>
      intro e h
      cases hx : f x with
      | error e' =>
          rw [mapM_cons_error hx] at h
          cases h
          exact ⟨x, List.mem_cons_self, hx⟩
      | ok y =>
          rw [mapM_cons_ok hx] at h
          cases hs : xs.mapM f with
          | error e' =>
              rw [hs] at h
              cases h
              obtain ⟨z, hz, failed⟩ := ih hs
              exact ⟨z, List.mem_cons_of_mem x hz, failed⟩
          | ok rest => rw [hs] at h; cases h

theorem length_of_mapM {f : α → Except ε β} :
    ∀ {xs : List α} {ys : List β}, xs.mapM f = .ok ys → ys.length = xs.length := by
  intro xs
  induction xs with
  | nil => intro ys h; cases h; rfl
  | cons x xs ih =>
      intro ys h
      cases hx : f x with
      | error e => rw [mapM_cons_error hx] at h; cases h
      | ok y =>
          rw [mapM_cons_ok hx] at h
          cases hs : xs.mapM f with
          | error e => rw [hs] at h; cases h
          | ok rest =>
              rw [hs] at h
              cases h
              simp [ih hs]

end RecordPath.Outcomes
