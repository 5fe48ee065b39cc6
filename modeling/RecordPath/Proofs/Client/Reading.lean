import RecordPath.Proofs.Client.Rewriting
import RecordPath.Proofs.Path.Selection

namespace RecordPath

namespace Native

open FieldOperation

variable {bins : Members Json} {field : String} {steps : Location} {step : Step}
  {target value : Json}

def lookupAction : Step → ReadAction
  | .key name => .mapLookup name
  | .index i => .listLookup i

theorem fetchFor_get_concat (field : String) (steps : Location) (last : Step) :
    fetchFor .get (steps ++ [last]) field = ⟨field, steps, .read (lookupAction last)⟩ := by
  cases last <;> simp [fetchFor, strictFetch_concat, Operation.isWrite, lenient, lookupAction,
    getAction]

theorem eq_of_readValue_lookup (h : readValue target (lookupAction step) = .ok value) :
    value = (target.child? step).getD .null := by
  cases step <;> cases target <;> cases h <;> rfl

theorem eq_of_read_fetchFor_get
    (h : FieldOperation.read bins (fetchFor .get steps field) = .ok value) :
    value = ((document bins field).get? steps).getD .null := by
  rcases List.eq_nil_or_concat steps with rfl | ⟨before, last, rfl⟩
  · cases hf : Members.get? field bins <;>
      simp_all [fetchFor, strictFetch, lenient, Operation.isWrite, FieldOperation.read, readField,
        document, locate, readValue, readsAbsent, Json.get?]
  · rw [List.concat_eq_append] at h ⊢
    rw [fetchFor_get_concat] at h
    simp only [FieldOperation.read, readField] at h
    cases hf : Members.get? field bins with
    | none =>
        simp only [hf] at h
        split at h
        · cases h
          rw [document, hf, Option.getD_none, get?_null_concat, Option.getD_none]
        · cases h
    | some root =>
        simp only [hf] at h
        split at h
        · cases h
        · rename_i target located
          rw [document, hf, Option.getD_some, get?_concat, get?_of_locate located,
            Option.bind_some, eq_of_readValue_lookup h]

end Native

namespace Token

/-- Whether a query reads the name of the step as it is: a bare one loses blanks at its end. -/
def isExact : Token → Bool
  | .key name => !(Path.isBare name.toList && name.toList.getLast?.any Text.isBlank)
  | _ => true

theorem asRead_eq_self_iff {token : Token} : token.asRead = token ↔ token.isExact = true := by
  cases token with
  | key name =>
      cases bare : Path.isBare name.toList with
      | true =>
          have same : String.ofList (Text.trimEnd name.toList) = name ↔
              Text.trimEnd name.toList = name.toList := by
            rw [← String.toList_inj, String.toList_ofList]
          simp [asRead, isExact, Step.nameAsRead, bare, same, Text.trimEnd_eq_self_iff]
      | false => simp [asRead, isExact, Step.nameAsRead, bare]
  | _ => exact iff_of_true rfl rfl

theorem map_asRead {found : List Token} (h : ∀ token ∈ found, token.isExact = true) :
    found.map asRead = found := by
  rw [List.map_congr_left fun token ht => asRead_eq_self_iff.2 (h token ht), List.map_id']

end Token

namespace Client

variable {memory : Memory} {key : Key} {fields : List String} {residual : Residual}
  {answer : Fields} {steps : Location} {time : UInt64}

theorem twoPhase_get_ok
    (h : ((twoPhase key fields steps residual .get).run (Memory.storeAt time) memory).1 =
      .ok answer) :
    ∃ (record : Record) (output : String → Json), memory.records key = some record ∧
      answer = Members.ofList (fields.map fun field => (field, output field)) ∧
      ∀ field ∈ fields, Query.read
        (((FieldOperation.document record.bins field).get? steps).getD .null) residual
        (context record.stamp time) = .ok (output field) := by
  rw [run_twoPhase] at h
  split at h
  · cases h
  · rename_i view read
    obtain ⟨record, value, found, rfl, fetched⟩ := exists_record_of_read read
    simp only [secondPhase, ← List.map_prod_left_eq_zip] at h
    rcases @evaluate_map fields residual .get (context record.stamp time) value with
      ⟨e, failed, -⟩ | ⟨output, evaluated, computed⟩
    · rw [failed] at h
      cases h
    · rw [evaluated] at h
      cases h
      refine ⟨record, output, found, rfl, fun field hf => ?_⟩
      rw [← Native.eq_of_read_fetchFor_get (fetched field hf)]
      exact computed field hf

theorem get_through_query (config : ClientConfig) (time : UInt64) (memory : Memory) (key : Key)
    {fields : List String} {path field : String} {found : List Token} {compiled : CompiledPath}
    {residual : Residual} {answer : Fields} (reads : Path.tokenize path = .ok found)
    (compiles : Path.compile path = .ok compiled) (query : compiled.residual = some residual)
    (structural : ∀ token ∈ residual.tokens, token.isStructural = true)
    (answered : ((get config key fields path).run (Memory.storeAt time) memory).1 = .ok answer)
    (listed : field ∈ fields) :
    ∃ record, memory.records key = some record ∧
      Members.get? field answer = some (.array (Path.select
        (compiled.native.map Token.ofStep ++ residual.tokens.map Token.asRead)
        (FieldOperation.document record.bins field))) ∧
      ((∀ token ∈ residual.tokens, token.isExact = true) →
        Members.get? field answer =
          some (.array (Path.select found (FieldOperation.document record.bins field)))) := by
  obtain ⟨other, hc, cut⟩ := Path.compile_of_tokenize reads
  rw [compiles] at hc
  cases hc
  obtain ⟨rest, nonempty⟩ := cut.rest residual query
  have whole : compiled.native.map Token.ofStep ++ residual.tokens = found := by
    rw [cut.native, rest, List.takeWhile_append_dropWhile]
  have wellFormed := Path.wellFormed_of_tokenize (cut.expression residual query).1
  have phases : get config key fields path =
      twoPhase key fields compiled.native residual .get := by
    have writable : Query.checkWritable compiled .get = .ok () := by
      simp only [Query.checkWritable, query]
    exact execute_query (List.ne_nil_of_mem listed) compiles writable query
  rw [phases] at answered
  obtain ⟨record, output, there, rfl, computed⟩ := twoPhase_get_ok answered
  have selected := Query.read_eq_select nonempty wellFormed structural (computed field listed)
  have all : Members.get? field (Members.ofList (fields.map fun field => (field, output field))) =
      some (.array (Path.select
        (compiled.native.map Token.ofStep ++ residual.tokens.map Token.asRead)
        (FieldOperation.document record.bins field))) := by
    rw [Members.get?_ofList_map output listed, selected, Path.select_ofStep]
    have nothing : Path.select (residual.tokens.map Token.asRead) .null = [] :=
      Path.select_null (by simpa using nonempty)
    cases (FieldOperation.document record.bins field).get? compiled.native with
    | some subtree => simp
    | none => simp [nothing]
  refine ⟨record, there, all, fun exactNames => ?_⟩
  rw [all, Token.map_asRead exactNames, whole]

theorem get_through_query_quoted_name :
    let key : Key := ⟨"test", "documents", "1"⟩
    let inner : Json := .obj [("it's", .nat 2)]
    let memory := (Memory.empty 7).seed key
      [("doc", .obj [("a", .array [.obj [("it's", .nat 1)], .obj [("it's", inner)]])])]
    let found : List Token := [.key "a", .deepScan, .key "it's"]
    let call := (get .standard key ["doc"] "$.a..it's").run (Memory.storeAt 9) memory
    call.1 = .ok [("doc", .array [.nat 1, inner, .nat 2])] ∧
      ∃ record, memory.records key = some record ∧
        Members.get? "doc" [("doc", Json.array [.nat 1, inner, .nat 2])] =
          some (.array (Path.select found (FieldOperation.document record.bins "doc"))) := by
  intro key inner memory found call
  have reads : Path.tokenize "$.a..it's" = .ok found := by decide +kernel
  have compiles : Path.compile "$.a..it's" =
      .ok ⟨"$.a..it's", [.key "a"], some ⟨"$..it's", [.deepScan, .key "it's"]⟩⟩ := by
    decide +kernel
  have answered : call.1 = .ok [("doc", .array [.nat 1, inner, .nat 2])] := by decide +kernel
  obtain ⟨record, there, -, selected⟩ := get_through_query .standard 9 memory key reads compiles rfl
    (List.all_eq_true.1 (by decide)) answered List.mem_cons_self
  exact ⟨answered, record, there, selected (List.all_eq_true.1 (by decide +kernel))⟩

/-- A bare name with a blank at its end is read as the name without it. -/
theorem not_get_through_query_blank_name :
    ∃ (key : Key) (memory : Memory) (record : Record) (found : List Token) (answer : Fields),
      Path.tokenize "$[*].a\u00a0" = .ok found ∧ memory.records key = some record ∧
      ((get .standard key ["doc"] "$[*].a\u00a0").run (Memory.storeAt 9) memory).1 = .ok answer ∧
      Members.get? "doc" answer = some (.array [.nat 1]) ∧
      Path.select found (FieldOperation.document record.bins "doc") = [.nat 2] := by
  refine ⟨⟨"test", "documents", "1"⟩,
    (Memory.empty 7).seed ⟨"test", "documents", "1"⟩
      [("doc", .array [.obj [("a", .nat 1), ("a\u00a0", .nat 2)]])],
    ⟨[("doc", .array [.obj [("a", .nat 1), ("a\u00a0", .nat 2)]])], ⟨1, 7⟩⟩,
    [.listWildcard, .key "a\u00a0"], [("doc", .array [.nat 1])], ?_, ?_, ?_, rfl, ?_⟩
  · decide +kernel
  · rfl
  · decide +kernel
  · decide +kernel

end Client

end RecordPath
