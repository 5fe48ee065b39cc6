import RecordPath.Proofs.Path.Division

namespace RecordPath

namespace PathFault

def isOfCut : PathFault → Bool
  | .unmarkedQuery => true
  | .queryBeforeMark _ => true
  | .residual _ _ => true
  | _ => false

end PathFault

namespace CompiledPath

def residualTokens (compiled : CompiledPath) : List Token :=
  (compiled.residual.map Residual.tokens).getD []

structure Parts (compiled : CompiledPath) (path : String) (found start : List Token) : Prop where
  source : compiled.source = path
  plain : ∀ token ∈ start, (∃ name, token = .key name) ∨ ∃ i, token = .index i
  native : start.mapM Token.step? = some compiled.native
  whole : start ++ compiled.residualTokens = found
  text : ∃ before after, path.toList = '$' :: (before ++ after) ∧
    Path.tokenize (Path.rooted before) = .ok start ∧
    (compiled.residual = none → after = []) ∧
    ∀ residual, compiled.residual = some residual →
      residual.expression = Path.rooted after ∧
        Path.tokenize residual.expression = .ok residual.tokens

end CompiledPath

namespace Path

section Fault

variable {size : Nat} {cs : List Char} {fault : PathFault}

theorem isOfCut_member (h : member size cs = .error fault) : fault.isOfCut = false := by
  simp only [member] at h
  split at h
  · cases h
    rfl
  · split at h
    · split at h
      · cases h
      · cases h
        rfl
    · cases h
      rfl
    · cases h

theorem isOfCut_filter (h : filter cs = .error fault) : fault.isOfCut = false := by
  unfold filter at h
  split at h
  · split at h
    · cases h
      rfl
    · split at h
      · cases h
        rfl
      · cases h
    · cases h
      rfl
  · cases h
    rfl

theorem isOfCut_bracket (h : bracket size cs = .error fault) : fault.isOfCut = false := by
  unfold bracket at h
  split at h
  · exact isOfCut_filter h
  · simp only at h
    split at h
    · cases h
      rfl
    · split at h
      · cases h
      · split at h
        · cases h
        · cases h
          rfl

theorem map_eq_error_iff {α β : Type} {f : α → β} {result : Except PathFault α} :
    result.map f = .error fault ↔ result = .error fault := by
  cases result with
  | error e => exact ⟨by rintro ⟨⟩; rfl, by rintro ⟨⟩; rfl⟩
  | ok a => exact ⟨by rintro ⟨⟩, by rintro ⟨⟩⟩

theorem isOfCut_tokens (h : tokens size cs = .error fault) : fault.isOfCut = false := by
  fun_induction tokens size cs with
  | case1 => cases h
  | case2 more ih => exact ih (map_eq_error_iff.1 h)
  | case3 c more _ _ other hm =>
      rw [← Except.error.inj h]
      exact isOfCut_member hm
  | case4 =>
      cases h
      rfl
  | case5 c more _ _ token after hm _ ih => exact ih (map_eq_error_iff.1 h)
  | case6 =>
      cases h
      rfl
  | case7 =>
      cases h
      rfl
  | case8 rest _ other hm =>
      cases h
      exact isOfCut_member hm
  | case9 rest _ token after hm ih => exact ih (map_eq_error_iff.1 h)
  | case10 rest other hb =>
      cases h
      exact isOfCut_bracket hb
  | case11 rest token after hb ih => exact ih (map_eq_error_iff.1 h)
  | case12 =>
      cases h
      rfl

theorem isOfCut_readSteps (h : readSteps cs = .error fault) : fault.isOfCut = false := by
  unfold readSteps at h
  split at h
  · rename_i ht
    cases h
    exact isOfCut_tokens ht
  · split at h
    · cases h
    · cases h
      rfl

theorem compile_of_tokenize_error {path : String} {e : DocumentError}
    (h : tokenize path = .error e) :
    compile path = .error e ∧ (e = .rootMissing path ∨
      ∃ fault, e = .pathFormat path fault ∧ fault.isOfCut = false) := by
  unfold tokenize at h
  split at h
  · rename_i cs hp
    split at h
    · rename_i fault hr
      cases h
      exact ⟨by simp only [compile, hp, hr], .inr ⟨fault, rfl, isOfCut_readSteps hr⟩⟩
    · cases h
  · rename_i rootless
    cases h
    refine ⟨?_, .inl rfl⟩
    unfold compile
    split
    · rename_i cs hp
      exact (rootless cs hp).elim
    · rfl

end Fault

section Parts

variable {path : String} {found : List Token}

theorem plain_of_mapM_step? {start : List Token} {steps : Location}
    (h : start.mapM Token.step? = some steps) :
    ∀ token ∈ start, (∃ name, token = .key name) ∨ ∃ i, token = .index i := by
  induction start generalizing steps with
  | nil => intro token ht; cases ht
  | cons first rest ih =>
      intro token ht
      rw [List.mapM_cons] at h
      obtain ⟨step, hs, hr⟩ := Option.bind_eq_some_iff.1 h
      obtain ⟨others, ho, -⟩ := Option.bind_eq_some_iff.1 hr
      rcases List.mem_cons.1 ht with rfl | later
      · cases token with
        | key name => exact .inl ⟨name, rfl⟩
        | index i => exact .inr ⟨i, rfl⟩
        | _ => cases hs
      · exact ih ho token later

theorem compile_parts (h : tokenize path = .ok found) :
    ∃ compiled start, compile path = .ok compiled ∧ compiled.Parts path found start := by
  obtain ⟨cs, hp, hr⟩ := tokenize_eq_ok_iff.1 h
  rcases compile_cut hr with ⟨steps, native, -, -, compiles⟩ |
    ⟨before, after, steps, joined, first, native, -, residual, -, compiles⟩
  · refine ⟨_, found, compiles path hp, rfl, plain_of_mapM_step? native, native, ?_, ?_⟩
    · exact List.append_nil found
    · exact ⟨cs, [], by rw [hp, List.append_nil], tokenize_rooted hr, fun _ => rfl,
        by rintro residual ⟨⟩⟩
  -- Cut in two, the steps before the cut are the plain ones that the path starts with.
  · refine ⟨_, found.takeWhile Token.isPlain, compiles path hp, rfl, plain_of_mapM_step? native,
      native, ?_, ?_⟩
    · exact List.takeWhile_append_dropWhile
    · refine ⟨before, after, by rw [hp, joined], tokenize_rooted first, by rintro ⟨⟩, ?_⟩
      rintro _ ⟨⟩
      exact ⟨rfl, tokenize_rooted residual⟩

end Parts

theorem compile_lossless (path : String) :
    (∃ e, tokenize path = .error e ∧ compile path = .error e ∧ (e = .rootMissing path ∨
      ∃ fault, e = .pathFormat path fault ∧ fault.isOfCut = false)) ∨
    ∃ found compiled start, tokenize path = .ok found ∧ compile path = .ok compiled ∧
      compiled.Parts path found start := by
  cases ht : tokenize path with
  | error e =>
      obtain ⟨fails, ofText⟩ := compile_of_tokenize_error ht
      exact .inl ⟨e, rfl, fails, ofText⟩
  | ok found =>
      obtain ⟨compiled, start, compiles, parts⟩ := compile_parts ht
      exact .inr ⟨found, compiled, start, rfl, compiles, parts⟩

end Path

end RecordPath
