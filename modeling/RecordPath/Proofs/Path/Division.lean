import Mathlib.Data.List.TakeWhile
import RecordPath.Path.Compiled
import RecordPath.Proofs.Path.Spelling

namespace RecordPath

namespace Token

def ofStep : Step → Token
  | .key name => .key name
  | .index i => .index i

def isStarred : Token → Bool
  | .key name => name.toList.head? = some '*'
  | _ => false

def isPlain (token : Token) : Bool :=
  !token.needsQuery && !token.isStarred

theorem step?_of_isPlain {token : Token} (h : token.isPlain = true) :
    ∃ step, token.step? = some step ∧ ofStep step = token := by
  cases token with
  | key name => exact ⟨.key name, rfl, rfl⟩
  | index i => exact ⟨.index i, rfl, rfl⟩
  | _ => cases h

theorem isFunction_of_isPlain {token : Token} (h : token.isPlain = true) :
    token.isFunction = false := by
  cases token <;> first | rfl | cases h

theorem mapM_step? {tokens : List Token} (h : ∀ token ∈ tokens, token.isPlain = true) :
    ∃ steps, tokens.mapM step? = some steps ∧ steps.map ofStep = tokens := by
  induction tokens with
  | nil => exact ⟨[], rfl, rfl⟩
  | cons token rest ih =>
      obtain ⟨step, hs, ht⟩ := step?_of_isPlain (h token List.mem_cons_self)
      obtain ⟨steps, hr, hm⟩ := ih fun other ho => h other (List.mem_cons_of_mem token ho)
      exact ⟨step :: steps, by rw [List.mapM_cons, hs, hr]; rfl, by rw [List.map_cons, ht, hm]⟩

theorem cut_isPlain {tokens : List Token}
    (h : ∀ token ∈ tokens.takeWhile fun token => !token.needsQuery, token.isStarred = false) :
    (tokens.takeWhile isPlain = tokens.takeWhile fun token => !token.needsQuery) ∧
      tokens.dropWhile isPlain = tokens.dropWhile fun token => !token.needsQuery := by
  induction tokens with
  | nil => exact ⟨rfl, rfl⟩
  | cons token rest ih =>
      cases hq : token.needsQuery with
      | true => simp [isPlain, hq]
      | false =>
          have taken : (token :: rest).takeWhile (fun token => !token.needsQuery) =
              token :: rest.takeWhile fun token => !token.needsQuery :=
            List.takeWhile_cons_of_pos (by rw [hq]; rfl)
          rw [taken] at h
          have starred := h token List.mem_cons_self
          obtain ⟨before, after⟩ := ih fun other ho => h other (List.mem_cons_of_mem token ho)
          simp [isPlain, hq, starred, before, after]

end Token

structure CompiledPath.CutAtMark (compiled : CompiledPath) (path : String) (found : List Token) :
    Prop where
  source : compiled.source = path
  native : compiled.native.map Token.ofStep = found.takeWhile Token.isPlain
  whole : compiled.residual = none → found.dropWhile Token.isPlain = []
  rest : ∀ residual, compiled.residual = some residual →
    residual.tokens = found.dropWhile Token.isPlain ∧ residual.tokens ≠ []
  expression : ∀ residual, compiled.residual = some residual →
    Path.tokenize residual.expression = .ok residual.tokens ∧
      ∃ before after, path.toList = '$' :: (before ++ after) ∧
        residual.expression = Path.rooted after

namespace Path

section Mark

variable {cs name digits inside after : List Char} {c : Char} {i : Nat}

theorem mark_cases (h : startsMark cs = true) :
    (∃ rest, cs = '[' :: '*' :: ']' :: rest) ∨ (∃ rest, cs = '.' :: '.' :: rest) ∨
    (∃ rest, cs = '[' :: '?' :: rest) ∨ (∃ rest, cs = '.' :: '*' :: rest) ∨
    ∃ (f : AggregateFunction) (rest : List Char),
      cs = '.' :: (f.name.toList ++ '(' :: ')' :: rest) := by
  obtain ⟨mark, hm, hp⟩ := List.any_eq_true.1 h
  obtain ⟨rest, rfl⟩ := List.isPrefixOf_iff_prefix.1 hp
  rcases List.mem_append.1 hm with structural | function
  · obtain ⟨text, ht, rfl⟩ := List.mem_map.1 structural
    simp only [List.mem_cons, List.not_mem_nil, or_false] at ht
    rcases ht with rfl | rfl | rfl | rfl
    · exact .inl ⟨rest, rfl⟩
    · exact .inr (.inl ⟨rest, rfl⟩)
    · exact .inr (.inr (.inl ⟨rest, rfl⟩))
    · exact .inr (.inr (.inr (.inl ⟨rest, rfl⟩)))
  · obtain ⟨f, -, rfl⟩ := List.mem_map.1 function
    refine .inr (.inr (.inr (.inr ⟨f, rest, ?_⟩)))
    simp [Token.chars]

theorem startsMark_function (f : AggregateFunction) (rest : List Char) :
    startsMark ('.' :: (f.name.toList ++ '(' :: ')' :: rest)) = true := by
  cases f <;> rfl

theorem startsMark_of_ne (dot : c ≠ '.') (opening : c ≠ '[') :
    startsMark (c :: cs) = false := by
  refine Bool.eq_false_iff.2 fun marked => ?_
  rcases mark_cases marked with ⟨_, ⟨⟩⟩ | ⟨_, ⟨⟩⟩ | ⟨_, ⟨⟩⟩ | ⟨_, ⟨⟩⟩ | ⟨_, _, ⟨⟩⟩ <;>
    contradiction

theorem startsMark_name (h : IsName name) (plain : name.head? ≠ some '*') (opens : Opens after) :
    startsMark ('.' :: (name ++ after)) = false := by
  refine Bool.eq_false_iff.2 fun marked => ?_
  cases name with
  | nil => exact h.nonempty rfl
  | cons c name =>
      rcases mark_cases marked with ⟨_, ⟨⟩⟩ | ⟨_, hc⟩ | ⟨_, ⟨⟩⟩ | ⟨_, hc⟩ | ⟨f, rest, hf⟩
      · cases hc
        cases h.characters '.' List.mem_cons_self
      · cases hc
        exact plain rfl
      · -- The reader would take the same text for a name and for a function.
        have read := @member_name 0 after (c :: name) h opens
        rw [(List.cons.inj hf).2, member_function] at read
        have := isFunction_tokenOfName (c :: name)
        rw [← (Prod.mk.inj (Except.ok.inj read)).1] at this
        cases this

theorem startsMark_index (h : Text.index? digits = some i) :
    startsMark ('[' :: (digits ++ ']' :: after)) = false := by
  obtain ⟨nonempty, digit⟩ := digits_of_index h
  refine Bool.eq_false_iff.2 fun marked => ?_
  cases digits with
  | nil => exact nonempty rfl
  | cons d digits =>
      have first := digit d List.mem_cons_self
      rcases mark_cases marked with ⟨_, hc⟩ | ⟨_, ⟨⟩⟩ | ⟨_, hc⟩ | ⟨_, ⟨⟩⟩ | ⟨_, _, ⟨⟩⟩
      · obtain ⟨rfl, -⟩ := List.cons.inj (List.cons.inj hc).2
        cases first
      · obtain ⟨rfl, -⟩ := List.cons.inj (List.cons.inj hc).2
        cases first

def precede (text : List Char) : List Char × List Char → List Char × List Char
  | (before, after) => (text ++ before, after)

theorem splitAtMark_inside (h : ∀ c ∈ inside, c ≠ '.' ∧ c ≠ '[') :
    splitAtMark (inside ++ after) = (splitAtMark after).map (precede inside) := by
  induction inside with
  | nil =>
      rw [List.nil_append]
      cases splitAtMark after <;> rfl
  | cons c rest ih =>
      obtain ⟨dot, opening⟩ := h c List.mem_cons_self
      rw [List.cons_append, splitAtMark, startsMark_of_ne dot opening, if_neg Bool.false_ne_true,
        ih fun d hd => h d (List.mem_cons_of_mem c hd)]
      cases splitAtMark after <;> rfl

theorem splitAtMark_step (unmarked : startsMark (c :: (inside ++ after)) = false)
    (h : ∀ c ∈ inside, c ≠ '.' ∧ c ≠ '[') :
    splitAtMark (c :: (inside ++ after)) = (splitAtMark after).map (precede (c :: inside)) := by
  rw [splitAtMark, unmarked, if_neg Bool.false_ne_true, splitAtMark_inside h]
  cases splitAtMark after <;> rfl

theorem splitAtMark_marked (h : startsMark cs = true) : splitAtMark cs = some ([], cs) := by
  cases cs with
  | nil => cases h
  | cons c rest => rw [splitAtMark, if_pos h]

theorem IsName.unmarked (h : IsName name) : ∀ c ∈ name, c ≠ '.' ∧ c ≠ '[' := by
  intro c hc
  constructor <;> rintro rfl <;> cases h.characters _ hc

theorem digits_unmarked (h : Text.index? digits = some i) :
    ∀ c ∈ digits ++ [']'], c ≠ '.' ∧ c ≠ '[' := by
  intro c hc
  rcases List.mem_append.1 hc with hd | hd
  · have := (digits_of_index h).2 c hd
    constructor <;> rintro rfl <;> cases this
  · cases List.mem_singleton.1 hd
    decide

theorem splitAtMark_name (h : IsName name) (plain : name.head? ≠ some '*') (opens : Opens after) :
    splitAtMark ('.' :: (name ++ after)) = (splitAtMark after).map (precede ('.' :: name)) :=
  splitAtMark_step (startsMark_name h plain opens) h.unmarked

theorem splitAtMark_index (h : Text.index? digits = some i) :
    splitAtMark ('[' :: (digits ++ ']' :: after)) =
      (splitAtMark after).map (precede ('[' :: (digits ++ [']']))) := by
  have regroup : digits ++ ']' :: after = (digits ++ [']']) ++ after := by simp
  have unmarked := @startsMark_index digits after i h
  rw [regroup] at unmarked ⊢
  exact splitAtMark_step unmarked (digits_unmarked h)

theorem isPlain_tokenOfName (h : IsName name) :
    (tokenOfName name).isPlain = true ↔ name.head? ≠ some '*' := by
  unfold tokenOfName
  split
  · rename_i star
    subst star
    simp [Token.isPlain, Token.needsQuery]
  · simp [Token.isPlain, Token.needsQuery, Token.isStarred]

end Mark

def Cut (cs : List Char) (found : List Token) : Prop :=
  (splitAtMark cs = none ∧ found.dropWhile Token.isPlain = []) ∨
  ∃ before after, splitAtMark cs = some (before, after) ∧
    Spelled before (found.takeWhile Token.isPlain) ∧
    Spelled after (found.dropWhile Token.isPlain) ∧ found.dropWhile Token.isPlain ≠ []

section Cut

variable {cs : List Char} {found : List Token} {token : Token}

theorem cut_marked (spelled : Spelled cs (token :: found)) (marked : startsMark cs = true)
    (notPlain : ¬ token.isPlain = true) : Cut cs (token :: found) := by
  refine .inr ⟨[], cs, splitAtMark_marked marked, ?_⟩
  rw [List.takeWhile_cons_of_neg notPlain, List.dropWhile_cons_of_neg notPlain]
  exact ⟨.nil, spelled, List.cons_ne_nil _ _⟩

theorem cut_plain {text rest : List Char}
    (split : splitAtMark (text ++ rest) = (splitAtMark rest).map (precede text))
    (plain : token.isPlain = true) (cut : Cut rest found)
    (spelled : ∀ {before some}, Spelled before some → Spelled (text ++ before) (token :: some)) :
    Cut (text ++ rest) (token :: found) := by
  unfold Cut
  rw [split, List.takeWhile_cons_of_pos plain, List.dropWhile_cons_of_pos plain]
  rcases cut with ⟨none, all⟩ | ⟨before, after, cut, first, second, nonempty⟩
  · exact .inl ⟨by rw [none]; rfl, all⟩
  · exact .inr ⟨text ++ before, after, by rw [cut]; rfl, spelled first, second, nonempty⟩

theorem cut_of_spelled (h : Spelled cs found) : Cut cs found := by
  induction h with
  | nil => exact .inl ⟨rfl, rfl⟩
  | @name name rest found hn spelled ih =>
      -- The mark of the wildcard is also the beginning of a name with a star.
      by_cases plain : name.head? = some '*'
      · have notPlain : ¬ (tokenOfName name).isPlain = true := by
          rw [isPlain_tokenOfName hn]
          exact fun h => h plain
        refine cut_marked (.name hn spelled) ?_ notPlain
        cases name with
        | nil => cases plain
        | cons c name =>
            cases plain
            rfl
      · exact @cut_plain found (tokenOfName name) ('.' :: name) rest
          (splitAtMark_name hn plain spelled.opens) ((isPlain_tokenOfName hn).2 plain) ih
          fun first => .name hn first
  | function f spelled ih =>
      exact cut_marked (.function f spelled) (startsMark_function f _) Bool.false_ne_true
  | @index digits rest i found hi spelled ih =>
      have regroup (more : List Char) : '[' :: (digits ++ ']' :: more) =
          ('[' :: (digits ++ [']'])) ++ more := by simp
      have split := @splitAtMark_index digits rest i hi
      rw [regroup] at split ⊢
      refine cut_plain split rfl ih ?_
      intro before text first
      rw [← regroup]
      exact .index hi first
  | listWildcard spelled ih => exact cut_marked (.listWildcard spelled) rfl Bool.false_ne_true
  | filter closes hp spelled ih =>
      exact cut_marked (.filter closes hp spelled) rfl Bool.false_ne_true
  | deepName hn spelled ih => exact cut_marked (.deepName hn spelled) rfl Bool.false_ne_true
  | deepBracket spelled ih => exact cut_marked (.deepBracket spelled) rfl Bool.false_ne_true

end Cut

section Compile

variable {path : String} {cs : List Char} {found before after : List Token}
  {compiled : CompiledPath}

theorem functionsLast_append (plain : ∀ token ∈ before, token.isPlain = true)
    (last : functionsLast after = true) : functionsLast (before ++ after) = true := by
  induction before with
  | nil => exact last
  | cons token rest ih =>
      have tail := ih fun other ho => plain other (List.mem_cons_of_mem token ho)
      rw [List.cons_append]
      cases hr : rest ++ after with
      | nil => rfl
      | cons next others =>
          rw [hr] at tail
          rw [functionsLast, Token.isFunction_of_isPlain (plain token List.mem_cons_self), tail]
          · rfl
          · exact List.cons_ne_nil _ _

theorem functionsLast_of_plain (h : ∀ token ∈ found, token.isPlain = true) :
    functionsLast found = true := by
  have last := @functionsLast_append found [] h rfl
  rwa [List.append_nil] at last

theorem functionsLast_of_append (h : functionsLast (before ++ after) = true) :
    functionsLast after = true := by
  induction before with
  | nil => exact h
  | cons token before ih =>
      refine ih ?_
      rw [List.cons_append] at h
      cases hr : before ++ after with
      | nil => rfl
      | cons next rest =>
          rw [hr, functionsLast, Bool.and_eq_true] at h
          · exact h.2
          · exact List.cons_ne_nil _ _

theorem readSteps_eq_ok_iff :
    readSteps cs = .ok found ↔ Spelled cs found ∧ functionsLast found = true := by
  unfold readSteps
  cases ht : tokens (cs.length + 1) cs with
  | error fault =>
      refine iff_of_false (by rintro ⟨⟩) fun h => ?_
      rw [h.1.tokens] at ht
      cases ht
  | ok steps =>
      rw [← @tokens_eq_ok_iff (cs.length + 1), ht]
      cases hf : functionsLast steps with
      | true =>
          simp only [hf, if_true]
          refine ⟨?_, fun h => h.1⟩
          rintro ⟨⟩
          exact ⟨rfl, hf⟩
      | false =>
          simp only [hf, Bool.false_eq_true, if_false]
          refine iff_of_false (by rintro ⟨⟩) ?_
          rintro ⟨⟨⟩, last⟩
          rw [last] at hf
          cases hf

theorem tokenize_eq_ok_iff :
    tokenize path = .ok found ↔ ∃ cs, path.toList = '$' :: cs ∧ readSteps cs = .ok found := by
  unfold tokenize
  constructor
  · intro h
    split at h
    · rename_i cs hp
      split at h
      · cases h
      · rename_i hr
        cases h
        exact ⟨cs, hp, hr⟩
    · cases h
  · rintro ⟨cs, hp, hr⟩
    simp only [hp, hr]

theorem tokenize_rooted (h : readSteps cs = .ok found) : tokenize (rooted cs) = .ok found :=
  tokenize_eq_ok_iff.2 ⟨cs, String.toList_ofList, h⟩

theorem compile_cut (h : readSteps cs = .ok found) :
    (∃ steps, found.mapM Token.step? = some steps ∧ steps.map Token.ofStep = found ∧
      found.dropWhile Token.isPlain = [] ∧
      ∀ path : String, path.toList = '$' :: cs → compile path = .ok ⟨path, steps, none⟩) ∨
    ∃ before after steps, before ++ after = cs ∧
      readSteps before = .ok (found.takeWhile Token.isPlain) ∧
      (found.takeWhile Token.isPlain).mapM Token.step? = some steps ∧
      steps.map Token.ofStep = found.takeWhile Token.isPlain ∧
      readSteps after = .ok (found.dropWhile Token.isPlain) ∧
      found.dropWhile Token.isPlain ≠ [] ∧
      ∀ path : String, path.toList = '$' :: cs →
        compile path = .ok ⟨path, steps, some ⟨rooted after, found.dropWhile Token.isPlain⟩⟩ := by
  obtain ⟨spelled, last⟩ := readSteps_eq_ok_iff.1 h
  have plain : ∀ token ∈ found.takeWhile Token.isPlain, token.isPlain = true :=
    List.all_eq_true.1 List.all_takeWhile
  have whole := List.takeWhile_append_dropWhile (p := Token.isPlain) (l := found)
  obtain ⟨steps, native, names⟩ := Token.mapM_step? plain
  rcases cut_of_spelled spelled with ⟨unmarked, all⟩ | ⟨before, after, cut, first, second, more⟩
  · rw [all, List.append_nil] at whole
    rw [whole] at native names
    refine .inl ⟨steps, native, names, all, fun path hp => ?_⟩
    simp only [compile, hp, h, unmarked, native]
  · have start : readSteps before = .ok (found.takeWhile Token.isPlain) :=
      readSteps_eq_ok_iff.2 ⟨first, functionsLast_of_plain plain⟩
    have residual : readSteps after = .ok (found.dropWhile Token.isPlain) := by
      refine readSteps_eq_ok_iff.2 ⟨second, ?_⟩
      rw [← whole] at last
      exact functionsLast_of_append last
    refine .inr ⟨before, after, steps, splitAtMark_append cut, start, native, names, residual,
      more, fun path hp => ?_⟩
    simp only [compile, hp, h, cut, start, native, residual]

theorem compile_of_tokenize (h : tokenize path = .ok found) :
    ∃ compiled, compile path = .ok compiled ∧ compiled.CutAtMark path found := by
  obtain ⟨cs, hp, hr⟩ := tokenize_eq_ok_iff.1 h
  rcases compile_cut hr with ⟨steps, -, names, all, compiles⟩ |
    ⟨before, after, steps, joined, -, -, names, residual, more, compiles⟩
  · refine ⟨_, compiles path hp, rfl, ?_, fun _ => all, by rintro residual ⟨⟩,
      by rintro residual ⟨⟩⟩
    have whole := List.takeWhile_append_dropWhile (p := Token.isPlain) (l := found)
    rw [all, List.append_nil] at whole
    rw [names, whole]
  · refine ⟨_, compiles path hp, rfl, names, by rintro ⟨⟩, ?_, ?_⟩
    · rintro _ ⟨⟩
      exact ⟨rfl, more⟩
    · rintro _ ⟨⟩
      exact ⟨tokenize_rooted residual, before, after, by rw [joined, hp], rfl⟩

theorem tokenize_of_compile (h : compile path = .ok compiled) :
    ∃ found, tokenize path = .ok found ∧ compiled.CutAtMark path found := by
  cases ht : tokenize path with
  | ok found =>
      obtain ⟨other, hc, cut⟩ := compile_of_tokenize ht
      rw [h] at hc
      cases hc
      exact ⟨found, rfl, cut⟩
  | error e =>
      unfold compile at h
      unfold tokenize at ht
      split at h
      · rename_i hp
        split at h
        · cases h
        · rename_i hr
          simp only [hp, hr] at ht
          cases ht
      · cases h

end Compile

end Path

namespace CompiledPath

structure DividedAtQuery (compiled : CompiledPath) (found : List Token) : Prop where
  residual : compiled.residual.isSome = true ↔ ∃ token ∈ found, token.needsQuery = true
  native : compiled.native.map Token.ofStep = found.takeWhile fun token => !token.needsQuery
  first : ∀ residual, compiled.residual = some residual →
    ∃ token rest, residual.tokens = token :: rest ∧ token.needsQuery = true

theorem dividedAtQuery_iff_of_cutAtMark {compiled : CompiledPath} {path : String}
    {found : List Token} (cut : compiled.CutAtMark path found) :
    compiled.DividedAtQuery found ↔
      ∀ token ∈ found.takeWhile fun token => !token.needsQuery, token.isStarred = false := by
  constructor
  · intro divided token ht
    rw [← divided.native, cut.native] at ht
    have plain : token.isPlain = true := List.all_eq_true.1 List.all_takeWhile token ht
    rw [Token.isPlain, Bool.and_eq_true, Bool.not_eq_true', Bool.not_eq_true'] at plain
    exact plain.2
  · intro plain
    obtain ⟨before, after⟩ := Token.cut_isPlain plain
    have query (residual : Residual) (h : compiled.residual = some residual) :
        ∃ token rest, residual.tokens = token :: rest ∧ token.needsQuery = true := by
      obtain ⟨tokens, nonempty⟩ := cut.rest residual h
      have stop := List.head?_dropWhile_not (fun token : Token => !token.needsQuery) found
      rw [← after, ← tokens] at stop
      cases ht : residual.tokens with
      | nil => exact absurd ht nonempty
      | cons token rest =>
          rw [ht] at stop
          exact ⟨token, rest, rfl, by simpa using stop⟩
    refine ⟨?_, cut.native.trans before, query⟩
    cases hr : compiled.residual with
    | none =>
        have whole := cut.whole hr
        rw [after, List.dropWhile_eq_nil_iff] at whole
        refine iff_of_false Bool.false_ne_true ?_
        rintro ⟨token, ht, needs⟩
        have := whole token ht
        rw [needs] at this
        cases this
    | some residual =>
        obtain ⟨token, rest, tokens, needs⟩ := query residual hr
        refine iff_of_true rfl ⟨token, ?_, needs⟩
        have mem : token ∈ residual.tokens := tokens ▸ List.mem_cons_self
        rw [(cut.rest residual hr).1] at mem
        exact (List.dropWhile_sublist _).mem mem

end CompiledPath

namespace Path

theorem compile_dividedAtQuery_iff {path : String} {compiled : CompiledPath}
    (h : compile path = .ok compiled) :
    ∃ found, tokenize path = .ok found ∧ compiled.CutAtMark path found ∧
      (compiled.DividedAtQuery found ↔
        ∀ token ∈ found.takeWhile fun token => !token.needsQuery, token.isStarred = false) := by
  obtain ⟨found, ht, cut⟩ := tokenize_of_compile h
  exact ⟨found, ht, cut, CompiledPath.dividedAtQuery_iff_of_cutAtMark cut⟩

/-- Neither a star inside a name nor the name of a function is a mark, and what comes after the
first one does not matter. -/
theorem compile_dividedAtQuery_of_names :
    let path := "$.a*[0].length..*c.max()"
    ∃ compiled found, compile path = .ok compiled ∧ tokenize path = .ok found ∧
      compiled.DividedAtQuery found := by
  intro path
  have compiles : compile path = .ok ⟨path, [.key "a*", .index 0, .key "length"],
      some ⟨"$..*c.max()", [.deepScan, .key "*c", .function .max]⟩⟩ := by decide +kernel
  have read : tokenize path = .ok [.key "a*", .index 0, .key "length", .deepScan, .key "*c",
      .function .max] := by decide +kernel
  obtain ⟨found, hf, -, divided⟩ := compile_dividedAtQuery_iff compiles
  rw [read] at hf
  cases hf
  exact ⟨_, _, compiles, read, divided.2 (by decide)⟩

/-- A name that begins with a star goes to the query, though no step needs one. -/
theorem not_dividedAtQuery_starred_name :
    let path := "$.a.*b[0]"
    ∃ compiled found, compile path = .ok compiled ∧ tokenize path = .ok found ∧
      ¬ compiled.DividedAtQuery found := by
  intro path
  have compiles : compile path =
      .ok ⟨path, [.key "a"], some ⟨"$.*b[0]", [.key "*b", .index 0]⟩⟩ := by decide +kernel
  have read : tokenize path = .ok [.key "a", .key "*b", .index 0] := by decide +kernel
  refine ⟨_, _, compiles, read, fun divided => ?_⟩
  obtain ⟨token, ht, needs⟩ := divided.residual.1 rfl
  revert token
  decide

end Path

end RecordPath
