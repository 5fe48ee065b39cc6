import RecordPath.Proofs.Path.Division

namespace RecordPath.Path

section Seam

variable {cs after : List Char} {found more : List Token} {token : Token}

theorem Opens.append (h : Opens cs) (opens : Opens after) : Opens (cs ++ after) := by
  cases cs with
  | nil => exact opens
  | cons c rest => exact h

theorem Spelled.append (h : Spelled cs found) (next : Spelled after more) :
    Spelled (cs ++ after) (found ++ more) := by
  induction h with
  | nil => exact next
  | name hn _ ih => simpa using Spelled.name hn ih
  | function f _ ih => simpa using Spelled.function f ih
  | index hi _ ih => simpa using Spelled.index hi ih
  | listWildcard _ ih => exact .listWildcard ih
  | filter closes hp _ ih => simpa using Spelled.filter closes hp ih
  | deepName hn _ ih => simpa using Spelled.deepName hn ih
  | deepBracket _ ih => exact .deepBracket ih

theorem map_precede_precede (text inside : List Char) (split : Option (List Char × List Char)) :
    (split.map (precede inside)).map (precede text) = split.map (precede (text ++ inside)) := by
  cases split with
  | none => rfl
  | some parts => simp [precede]

theorem splitAtMark_plain (h : Spelled cs found) (plain : ∀ token ∈ found, token.isPlain = true)
    (opens : Opens after) :
    splitAtMark (cs ++ after) = (splitAtMark after).map (precede cs) := by
  induction h with
  | nil =>
      rw [List.nil_append]
      cases splitAtMark after <;> rfl
  | @name name rest found hn spelled ih =>
      have unstarred := (isPlain_tokenOfName hn).1 (plain _ List.mem_cons_self)
      have split := splitAtMark_name hn unstarred (spelled.opens.append opens)
      rw [ih fun other ho => plain other (List.mem_cons_of_mem _ ho), map_precede_precede] at split
      simpa using split
  | @index digits rest i found hi spelled ih =>
      have split := @splitAtMark_index digits (rest ++ after) i hi
      rw [ih fun other ho => plain other (List.mem_cons_of_mem _ ho), map_precede_precede] at split
      simpa using split
  -- No other step is plain.
  | function => cases plain _ List.mem_cons_self
  | listWildcard => cases plain _ List.mem_cons_self
  | filter => cases plain _ List.mem_cons_self
  | deepName => cases plain _ List.mem_cons_self
  | deepBracket => cases plain _ List.mem_cons_self

theorem startsMark_of_needsQuery (h : Spelled cs (token :: more))
    (query : token.needsQuery = true) :
    startsMark cs = true := by
  generalize hs : token :: more = found at h
  cases h with
  | nil => cases hs
  | @name name rest found hn spelled =>
      cases hs
      unfold tokenOfName at query
      split at query
      · rename_i star
        rw [star]
        rfl
      · cases query
  | function f => exact startsMark_function f _
  | index => cases hs; cases query
  | listWildcard => rfl
  | filter => rfl
  | deepName => rfl
  | deepBracket => rfl

end Seam

section Compile

variable {path suffix : String} {compiled : CompiledPath} {cs : List Char} {found more : List Token}

theorem rooted_toList (suffix : String) : rooted suffix.toList = "$" ++ suffix :=
  String.toList_injective (by simp [rooted])

theorem plain_of_compile (h : compile path = .ok compiled) (native : compiled.residual = none) :
    ∃ cs found, path.toList = '$' :: cs ∧ readSteps cs = .ok found ∧
      found.mapM Token.step? = some compiled.native ∧
      ∀ token ∈ found, token.isPlain = true := by
  obtain ⟨found, read, -⟩ := tokenize_of_compile h
  obtain ⟨cs, hp, hr⟩ := tokenize_eq_ok_iff.1 read
  refine ⟨cs, found, hp, hr, ?_⟩
  rcases compile_cut hr with ⟨steps, taken, -, all, compiles⟩ |
    ⟨before, after, steps, -, -, -, -, -, -, compiles⟩
  · cases h.symm.trans (compiles path hp)
    exact ⟨taken, List.dropWhile_eq_nil_iff.1 all⟩
  · cases h.symm.trans (compiles path hp)
    cases native

end Compile

theorem compile_append {path suffix : String} {compiled : CompiledPath} {first : Token}
    {rest : List Token} (compiles : compile path = .ok compiled)
    (native : compiled.residual = none) (read : tokenize ("$" ++ suffix) = .ok (first :: rest))
    (query : first.needsQuery = true) :
    compile (path ++ suffix) = .ok
      ⟨path ++ suffix, compiled.native, some ⟨"$" ++ suffix, first :: rest⟩⟩ := by
  obtain ⟨cs, found, hp, start, steps, plain⟩ := plain_of_compile compiles native
  obtain ⟨after, hs, residual⟩ := tokenize_eq_ok_iff.1 read
  obtain rfl : suffix.toList = after := by simpa using hs
  obtain ⟨spelled, -⟩ := readSteps_eq_ok_iff.1 start
  obtain ⟨next, last⟩ := readSteps_eq_ok_iff.1 residual
  have joined : (path ++ suffix).toList = '$' :: (cs ++ suffix.toList) := by
    rw [String.toList_append, hp, List.cons_append]
  have whole : readSteps (cs ++ suffix.toList) = .ok (found ++ first :: rest) :=
    readSteps_eq_ok_iff.2 ⟨spelled.append next, functionsLast_append plain last⟩
  have cut : splitAtMark (cs ++ suffix.toList) = some (cs, suffix.toList) := by
    rw [splitAtMark_plain spelled plain next.opens,
      splitAtMark_marked (startsMark_of_needsQuery next query)]
    simp [precede]
  simp only [compile, joined, whole, cut, start, steps, residual, rooted_toList]

/-- Neither what looks like a query inside a name nor what looks like one in the quotes of the
filter moves the cut. -/
theorem compile_append_quoted_marks :
    let path := "$.min.a*[7].it's"
    let suffix := "[?(@.x == '[*].max()..y)' || @['.*'])]..b.length()"
    ∃ compiled found, compile path = .ok compiled ∧ tokenize ("$" ++ suffix) = .ok found ∧
      compiled.native = [.key "min", .key "a*", .index 7, .key "it's"] ∧
      compiled.residual = none ∧ compile (path ++ suffix) = .ok
        ⟨path ++ suffix, compiled.native, some ⟨"$" ++ suffix, found⟩⟩ := by
  intro path suffix
  have compiles : compile path =
      .ok ⟨path, [.key "min", .key "a*", .index 7, .key "it's"], none⟩ := by decide +kernel
  have read : tokenize ("$" ++ suffix) = .ok [
      .filter "@.x == '[*].max()..y)' || @['.*']"
        (.or (.compare (.path [.key "x"]) .eq (.literal (.string "[*].max()..y)")))
          (.present [.key ".*"])),
      .deepScan, .key "b", .function .length] := by decide +kernel
  exact ⟨_, _, compiles, read, rfl, rfl, compile_append compiles rfl read rfl⟩

end RecordPath.Path
