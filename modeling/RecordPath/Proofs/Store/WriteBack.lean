import RecordPath.Client.Native
import RecordPath.Proofs.Json.Update
import RecordPath.Proofs.Outcomes

namespace RecordPath

namespace FieldOperation

theorem locate_of_get? {context : Location} :
    ∀ {value found : Json}, value.get? context = some found → locate context value = .ok found := by
  induction context with
  | nil => intro value found h; cases h; rfl
  | cons step rest ih =>
      intro value found h
      obtain ⟨child, hc, hr⟩ := Option.bind_eq_some_iff.1 h
      cases step <;> cases value <;> simp only [Json.child?] at hc
      case key.object name members => simp only [locate, asMap, hc, ih hr]
      case index.array i items => simp only [locate, asList, hc, ih hr]
      all_goals cases hc

def document (bins : Members Json) (field : String) : Json :=
  (Members.get? field bins).getD .null

def replaced (steps : Location) (bins : Members Json) (field : String) (value : Json) :
    Members Json :=
  Members.insert field ((document bins field).update (fun _ => value) steps) bins

def replacedAll (steps : Location) (bins : Members Json) (outputs : List (String × Json)) :
    Members Json :=
  outputs.foldl (fun bins output => replaced steps bins output.1 output.2) bins

section Replaced

variable {steps : Location} {bins : Members Json} {field other : String} {value : Json}
  {outputs : List (String × Json)}

theorem get?_replaced_self : Members.get? field (replaced steps bins field value) =
    some ((document bins field).update (fun _ => value) steps) :=
  Members.get?_insert_self field _ bins

theorem get?_replaced_of_ne (h : other ≠ field) :
    Members.get? other (replaced steps bins field value) = Members.get? other bins :=
  Members.get?_insert_of_ne h _ bins

theorem document_replaced_self : document (replaced steps bins field value) field =
    (document bins field).update (fun _ => value) steps := by
  rw [document, get?_replaced_self]
  rfl

theorem document_replaced_of_ne (h : other ≠ field) :
    document (replaced steps bins field value) other = document bins other := by
  rw [document, get?_replaced_of_ne h, document]

theorem get?_document_replaced {found : Json}
    (there : (document bins other).get? steps = some found) :
    ∃ kept, (document (replaced steps bins field value) other).get? steps = some kept := by
  by_cases h : other = field
  · subst h
    exact ⟨value, by rw [document_replaced_self, Json.get?_update_self _ there]⟩
  · exact ⟨found, by rw [document_replaced_of_ne h, there]⟩

theorem get?_replacedAll_of_not_mem (h : field ∉ outputs.map Prod.fst) :
    Members.get? field (replacedAll steps bins outputs) = Members.get? field bins := by
  induction outputs generalizing bins with
  | nil => rfl
  | cons output rest ih =>
      obtain ⟨first, others⟩ := not_or.1 fun hf => h (List.mem_cons.2 hf)
      exact (ih others).trans (get?_replaced_of_ne first)

theorem get?_replacedAll_of_mem (h : field ∈ outputs.map Prod.fst)
    (same : ∀ output ∈ outputs, output.1 = field → output.2 = value) :
    Members.get? field (replacedAll steps bins outputs) =
      some ((document bins field).update (fun _ => value) steps) := by
  induction outputs generalizing bins with
  | nil => cases h
  | cons output rest ih =>
      obtain ⟨name, given⟩ := output
      have later : ∀ output ∈ rest, output.1 = field → output.2 = value :=
        fun output ho => same output (List.mem_cons_of_mem _ ho)
      by_cases again : field ∈ rest.map Prod.fst
      · refine (ih again later).trans ?_
        by_cases hn : field = name
        · subst hn
          rw [document_replaced_self, Json.update_update]
        · rw [document_replaced_of_ne hn]
      · have hn : field = name := (List.mem_cons.1 h).resolve_right again
        subst hn
        have given : given = value := same (field, given) List.mem_cons_self rfl
        subst given
        exact (get?_replacedAll_of_not_mem again).trans get?_replaced_self

end Replaced

end FieldOperation

namespace Native

open FieldOperation

def strictFetch (field : String) (steps : Location) : FieldOperation :=
  match steps.getLast? with
  | none => ⟨field, [], .read .whole⟩
  | some last => ⟨field, steps.dropLast, .read (getAction last)⟩

def fetchFor (operation : Operation) (steps : Location) (field : String) : FieldOperation :=
  if operation.isWrite then strictFetch field steps
  else { strictFetch field steps with action := lenient (strictFetch field steps).action }

def writeBack (steps : Location) (field : String) (value : Json) : FieldOperation :=
  match steps.getLast? with
  | none => ⟨field, [], .write (.whole value)⟩
  | some last => ⟨field, steps.dropLast, .write (putAction .strict value last)⟩

theorem fetch_eq (field : String) (steps : Location) (operation : Operation) :
    fetch field steps operation = .ok (fetchFor operation steps field) := by
  unfold fetch fetchFor build strictFetch
  cases steps.getLast? <;> cases operation.isWrite <;> rfl

theorem mapM_fetch (fields : List String) (steps : Location) (operation : Operation) :
    (fields.mapM fun field => fetch field steps operation) =
      .ok (fields.map (fetchFor operation steps)) :=
  Outcomes.mapM_ok fun field _ => fetch_eq field steps operation

theorem storeSubtree_eq (field : String) (steps : Location) (value : Json) :
    storeSubtree field steps value = .ok (writeBack steps field value) := by
  unfold storeSubtree build writeBack
  cases steps.getLast? <;> rfl

theorem isWrite_fetchFor (operation : Operation) (steps : Location) (field : String) :
    (fetchFor operation steps field).action.isWrite = false := by
  unfold fetchFor strictFetch
  cases steps.getLast? with
  | none => cases operation.isWrite <;> rfl
  | some last => cases operation.isWrite <;> cases last <;> rfl

section Written

variable {bins : Members Json} {field : String} {steps : Location} {step : Step}
  {target found old : Json}

theorem strictFetch_concat (field : String) (steps : Location) (last : Step) :
    strictFetch field (steps ++ [last]) = ⟨field, steps, .read (getAction last)⟩ := by
  simp [strictFetch]

theorem writeBack_concat (field : String) (steps : Location) (last : Step) (value : Json) :
    writeBack (steps ++ [last]) field value =
      ⟨field, steps, .write (putAction .strict value last)⟩ := by
  simp [writeBack]

theorem readValue_getAction_iff :
    readValue target (getAction step) = .ok found ↔ target.child? step = some found := by
  cases step with
  | key name =>
      cases target <;> simp only [getAction, readValue, asMap, Json.child?, reduceCtorEq]
      case object members => cases Members.get? name members <;> simp
  | index i =>
      cases target <;> simp only [getAction, readValue, asList, Json.child?, reduceCtorEq]
      case array items => cases items[i]? <;> simp

theorem writeValue_putAction (value : Json) (h : target.child? step = some old) :
    writeValue target (putAction .strict value step) =
      .ok (.null, Json.setChild value target step) := by
  cases target <;> cases step <;> simp only [Json.child?, reduceCtorEq] at h
  case array.index items i =>
    have bound := (List.getElem?_eq_some_iff.1 h).1
    simp only [putAction, writeValue, asList, bound, if_true, Json.setChild]
  case object.key members name =>
    have there : Members.contains name members = true := by
      rw [Members.contains, h]
      rfl
    simp only [putAction, writeValue, asMap, Json.setChild, there, if_true, Except.map]

theorem readsAbsent_getAction (context : Location) (step : Step) :
    readsAbsent context (getAction step) = false := by
  cases step <;> rfl

theorem get?_null_concat (steps : Location) (last : Step) :
    Json.null.get? (steps ++ [last]) = none := by
  cases steps <;> rfl

theorem get?_concat (value : Json) (steps : Location) (last : Step) :
    value.get? (steps ++ [last]) = (value.get? steps).bind fun inner => inner.child? last := by
  rw [Json.get?_append]
  congr
  funext inner
  cases h : inner.child? last <;> simp [Json.get?, h]

theorem read_strictFetch_iff :
    read bins (strictFetch field steps) = .ok found ↔
      (document bins field).get? steps = some found := by
  rcases List.eq_nil_or_concat steps with rfl | ⟨before, last, rfl⟩
  · cases h : Members.get? field bins <;>
      simp [strictFetch, FieldOperation.read, readField, document, h, locate, readValue,
        readsAbsent, Json.get?]
  · rw [List.concat_eq_append, strictFetch_concat]
    simp only [FieldOperation.read, readField, document]
    cases h : Members.get? field bins with
    | none =>
        simp only [readsAbsent_getAction, Bool.false_eq_true, if_false, Option.getD_none,
          get?_null_concat, reduceCtorEq]
    | some root =>
        simp only [Option.getD_some, get?_concat]
        cases hl : locate before root with
        | error e =>
            have nowhere : root.get? before = none := by
              cases hg : root.get? before with
              | none => rfl
              | some target =>
                  rw [locate_of_get? hg] at hl
                  cases hl
            simp only [nowhere, Option.bind_none, reduceCtorEq]
        | ok target =>
            simp only [get?_of_locate hl, Option.bind_some, readValue_getAction_iff]

theorem write_writeBack (value : Json) (h : (document bins field).get? steps = some found) :
    write bins (writeBack steps field value) = .ok (.null, replaced steps bins field value) := by
  -- The last step is the action, the steps before it lead to the container it changes.
  rcases List.eq_nil_or_concat steps with rfl | ⟨before, last, rfl⟩
  · rfl
  · rw [List.concat_eq_append] at h ⊢
    rw [writeBack_concat]
    cases hr : Members.get? field bins with
    | none =>
        simp only [document, hr, Option.getD_none, get?_null_concat] at h
        cases h
    | some root =>
        have inside : writeField bins field before (putAction .strict value last) =
            writeInside bins field root before (putAction .strict value last) := by
          cases last <;> cases before <;> simp [writeField, putAction, hr]
        rw [get?_concat] at h
        simp only [document, hr, Option.getD_some] at h
        obtain ⟨target, ht, hc⟩ := Option.bind_eq_some_iff.1 h
        have changed : root.update (fun _ => Json.setChild value target last) before =
            root.update (fun _ => value) (before ++ [last]) := by
          rw [Json.update_append]
          refine Json.update_congr ht ?_
          simp only [Json.update, hc]
        simp only [FieldOperation.write, inside, writeInside, locate_of_get? ht,
          writeValue_putAction value hc, changed, replaced, document, hr, Option.getD_some]

theorem writeAll_writeBack {outputs : List (String × Json)}
    (h : ∀ output ∈ outputs, ∃ found, (document bins output.1).get? steps = some found) :
    ∃ answers, writeAll bins (outputs.map fun output => writeBack steps output.1 output.2) =
      .ok (answers, replacedAll steps bins outputs) := by
  induction outputs generalizing bins with
  | nil => exact ⟨[], rfl⟩
  | cons output rest ih =>
      obtain ⟨found, hf⟩ := h output List.mem_cons_self
      obtain ⟨answers, hw⟩ := @ih (replaced steps bins output.1 output.2) fun next hn => by
        obtain ⟨before, hb⟩ := h next (List.mem_cons_of_mem _ hn)
        exact get?_document_replaced hb
      refine ⟨.null :: answers, ?_⟩
      rw [List.map_cons, writeAll, write_writeBack output.2 hf]
      simp only [hw]
      rfl

theorem writeAll_of_fetch (steps : Location) (outputs : List (String × Json))
    (h : ∀ output ∈ outputs, ∃ found, read bins (strictFetch output.1 steps) = .ok found) :
    ∃ result, writeAll bins (outputs.map fun output => writeBack steps output.1 output.2) =
      .ok result := by
  obtain ⟨answers, hw⟩ := @writeAll_writeBack bins steps outputs fun output ho => by
    obtain ⟨found, hf⟩ := h output ho
    exact ⟨found, read_strictFetch_iff.1 hf⟩
  exact ⟨_, hw⟩

end Written

end Native

end RecordPath
