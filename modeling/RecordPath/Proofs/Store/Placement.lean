import RecordPath.Proofs.Store.Addressing

namespace RecordPath

namespace FieldOperation

variable {bins : Members Json} {field : String} {root : Json} {context : Location}
  {action : WriteAction}

def start? (bins : Members Json) (field : String) (context : Location) (action : WriteAction) :
    Option Json :=
  (Members.get? field bins).or (if context = [] then created? action else none)

theorem start?_of_present (there : Members.get? field bins = some root) :
    start? bins field context action = some root := by
  rw [start?, there, Option.some_or]

end FieldOperation

namespace Native

open FieldOperation

inductive Puts (mode : ListPutMode) (value : Json) : Step → Json → Json → Prop
  | name (name : String) (members : Members Json) :
      Puts mode value (.key name) (.object members) (.object (Members.insert name value members))
  | item {i : Nat} {items : List Json} (bound : i < items.length) :
      Puts mode value (.index i) (.array items) (.array (items.set i value))
  | past {i : Nat} {items : List Json} (past : items.length ≤ i) (padded : mode = .autoExtend) :
      Puts mode value (.index i) (.array items)
        (.array (items ++ List.replicate (i - items.length) .null ++ [value]))

section Container

variable {mode : ListPutMode} {target new value old answer : Json} {step off : Step}

theorem writeValue_putAction_iff :
    writeValue target (putAction mode value step) = .ok (answer, new) ↔
      answer = .null ∧ Puts mode value step target new := by
  constructor
  · intro h
    cases step <;> cases target <;>
      simp only [putAction, writeValue, asMap, asList, Except.map, reduceCtorEq] at h
    case key.object name members =>
      cases h
      exact ⟨rfl, .name name members⟩
    case index.array i items =>
      split at h
      · rename_i bound
        cases h
        exact ⟨rfl, .item bound⟩
      · rename_i past
        split at h
        · rename_i padded
          cases h
          exact ⟨rfl, .past (Nat.le_of_not_lt past) (of_decide_eq_true padded)⟩
        · cases h
  · rintro ⟨rfl, puts⟩
    cases puts with
    | name name members => rfl
    | item bound => simp only [putAction, writeValue, asList, bound, if_true]
    | past past padded =>
        simp only [putAction, writeValue, asList, Nat.not_lt.2 past, if_false, padded,
          decide_true, if_true]

theorem length_padded {items : List Json} {i : Nat} (past : items.length ≤ i) :
    (items ++ List.replicate (i - items.length) Json.null).length = i := by
  rw [List.length_append, List.length_replicate]
  omega

theorem Puts.child? (puts : Puts mode value step target new) : new.child? step = some value := by
  cases puts with
  | name name members => exact Members.get?_insert_self name value members
  | item bound => exact List.getElem?_set_self bound
  | @past i items past padded =>
      have length := length_padded past
      rw [Json.child?, List.getElem?_append_right (Nat.le_of_eq length), length, Nat.sub_self,
        List.getElem?_cons_zero]

theorem Puts.kept {child : Json} (puts : Puts mode value step target new) (apart : off ≠ step)
    (there : target.child? off = some child) : new.child? off = some child := by
  cases puts with
  | name name members =>
      cases off with
      | index i => cases there
      | key other =>
          have ne : other ≠ name := fun e => apart (congrArg Step.key e)
          exact (Members.get?_insert_of_ne ne value members).trans there
  | @item i items bound =>
      cases off with
      | key name => cases there
      | index j =>
          have ne : i ≠ j := fun e => apart (congrArg Step.index e.symm)
          exact (List.getElem?_set_ne ne).trans there
  | @past i items past padded =>
      cases off with
      | key name => cases there
      | index j =>
          have bound := (List.getElem?_eq_some_iff.1 there).1
          rw [Json.child?, List.append_assoc, List.getElem?_append_left bound]
          exact there

theorem Puts.strict (puts : Puts .strict value step target new) (apart : off ≠ step)
    (absent : target.child? off = none) : new.child? off = none := by
  cases puts with
  | name name members =>
      cases off with
      | index i => rfl
      | key other =>
          have ne : other ≠ name := fun e => apart (congrArg Step.key e)
          exact (Members.get?_insert_of_ne ne value members).trans absent
  | @item i items bound =>
      cases off with
      | key name => rfl
      | index j =>
          have ne : i ≠ j := fun e => apart (congrArg Step.index e.symm)
          exact (List.getElem?_set_ne ne).trans absent
  | past past padded => cases padded

theorem Puts.again (puts : Puts mode value step target new) (next : Json) :
    ∃ final, Puts mode next step target final ∧ Puts mode next step new final := by
  cases puts with
  | name name members =>
      have last := @Puts.name mode next name (Members.insert name value members)
      rw [Members.insert_insert] at last
      exact ⟨_, .name name members, last⟩
  | @item i items bound =>
      have last := @Puts.item mode next i (items.set i value) (by rwa [List.length_set])
      rw [List.set_set] at last
      exact ⟨_, .item bound, last⟩
  | @past i items past padded =>
      have length := length_padded past
      have last := @Puts.item mode next i
        (items ++ List.replicate (i - items.length) .null ++ [value]) (by
          rw [List.length_append, length]
          exact Nat.lt_succ_self i)
      rw [List.set_append_right _ _ (Nat.le_of_eq length), length, Nat.sub_self,
        List.set_cons_zero] at last
      exact ⟨_, .past past padded, last⟩

theorem puts_of_child? (mode : ListPutMode) (value : Json) (there : target.child? step = some old) :
    Puts mode value step target (Json.setChild value target step) := by
  cases target <;> cases step <;> try cases there
  case array.index items i => exact .item (List.getElem?_eq_some_iff.1 there).1
  case object.key members name =>
    have contains : Members.contains name members = true := by
      rw [Members.contains, show Members.get? name members = some old from there]
      rfl
    rw [Json.setChild, if_pos contains]
    exact .name name members

end Container

def placing (mode : ListPutMode) (steps : Location) (field : String) (value : Json) :
    FieldOperation :=
  match steps.getLast? with
  | none => ⟨field, [], .write (.whole value)⟩
  | some last => ⟨field, steps.dropLast, .write (putAction mode value last)⟩

section Put

variable {mode : ListPutMode} {bins changed : Members Json} {field : String} {steps off : Location}
  {last : Step} {value answer found : Json}

theorem build_put (field : String) (steps : Location) (value : Json) (mode : ListPutMode) :
    build field steps (.put value) mode = .ok (placing mode steps field value) := by
  unfold build placing
  cases steps.getLast? <;> rfl

theorem placing_concat (mode : ListPutMode) (steps : Location) (last : Step) (field : String)
    (value : Json) : placing mode (steps ++ [last]) field value =
      ⟨field, steps, .write (putAction mode value last)⟩ := by
  simp [placing]

theorem writeField_putAction (bins : Members Json) (field : String) (context : Location)
    (mode : ListPutMode) (value : Json) (last : Step) :
    writeField bins field context (putAction mode value last) =
      (start? bins field context (putAction mode value last)).elim
        (.error (.missingField field))
        fun root => writeInside bins field root context (putAction mode value last) := by
  cases there : Members.get? field bins with
  | some root =>
      rw [start?_of_present there, Option.elim_some]
      cases last <;> cases context <;> simp only [writeField, putAction, there]
  | none =>
      rw [start?, there, Option.none_or]
      cases context with
      | nil =>
          cases last <;> cases mode <;>
            simp [writeField, putAction, there, writeAbsent, created?]
      | cons step rest => cases last <;> simp [writeField, there, writeAbsent]

theorem write_placing_iff :
    FieldOperation.write bins (placing mode (steps ++ [last]) field value) =
        .ok (answer, changed) ↔
      answer = .null ∧ ∃ root target new,
        start? bins field steps (putAction mode value last) = some root ∧
        root.get? steps = some target ∧ Puts mode value last target new ∧
        changed = Members.insert field (root.update (fun _ => new) steps) bins := by
  rw [placing_concat]
  simp only [FieldOperation.write, writeField_putAction]
  cases start? bins field steps (putAction mode value last) with
  | none => simp
  | some root =>
      simp only [Option.elim_some, writeInside_eq_ok_iff, writeValue_putAction_iff]
      constructor
      · rintro ⟨target, new, there, ⟨rfl, puts⟩, rfl⟩
        exact ⟨rfl, root, target, new, rfl, there, puts, rfl⟩
      · rintro ⟨rfl, other, target, new, ⟨⟩, there, puts, rfl⟩
        exact ⟨target, new, there, ⟨rfl, puts⟩, rfl⟩

theorem created?_cases {action : WriteAction} {root : Json} (h : created? action = some root) :
    root = .object [] ∨ root = .array [] := by
  unfold created? at h
  split at h
  · exact .inl (Option.some.inj h).symm
  · exact .inr (Option.some.inj h).symm
  · exact .inr (Option.some.inj h).symm
  · cases h

theorem get?_created {action : WriteAction} {root : Json} (h : created? action = some root)
    (below : off ≠ []) : root.get? off = none := by
  cases off with
  | nil => exact absurd rfl below
  | cons step rest => rcases created?_cases h with rfl | rfl <;> cases step <;> rfl

theorem created?_putAction (mode : ListPutMode) (value next : Json) (last : Step) :
    created? (putAction mode next last) = created? (putAction mode value last) := by
  cases last with
  | key name => rfl
  | index i => cases mode <;> rfl

theorem get?_start {action : WriteAction} {root : Json}
    (h : start? bins field steps action = some root) (below : off ≠ []) :
    root.get? off = (document bins field).get? off := by
  rw [start?] at h
  rw [document]
  cases there : Members.get? field bins with
  | some found =>
      rw [there, Option.some_or, Option.some.injEq] at h
      rw [h, Option.getD_some]
  | none =>
      rw [there, Option.none_or] at h
      split at h
      · rw [get?_created h below, Option.getD_none]
        cases off with
        | nil => exact absurd rfl below
        | cons step rest => cases step <;> rfl
      · cases h

theorem get?_of_placing
    (h : FieldOperation.write bins (placing mode steps field value) = .ok (answer, changed)) :
    (document changed field).get? steps = some value := by
  rcases List.eq_nil_or_concat steps with rfl | ⟨before, last, rfl⟩
  · cases h
    exact congrArg some (document_insert bins field value)
  · rw [List.concat_eq_append] at h ⊢
    obtain ⟨-, root, target, new, -, there, puts, rfl⟩ := write_placing_iff.1 h
    rw [document_insert, get?_concat, Json.get?_update_self _ there, Option.bind_some,
      puts.child?]

theorem get?_of_placing_beside
    (h : FieldOperation.write bins (placing mode steps field value) = .ok (answer, changed))
    (away : ¬ steps <+: off) (back : ¬ off <+: steps) :
    (document changed field).get? off = (document bins field).get? off ∨
    ∃ last target new next way, Puts mode value last target new ∧ next ≠ last ∧
      (document bins field).get? off =
        (target.child? next).bind (fun child => child.get? way) ∧
      (document changed field).get? off =
        (new.child? next).bind fun child => child.get? way := by
  rcases List.eq_nil_or_concat steps with rfl | ⟨before, last, rfl⟩
  · exact absurd List.nil_prefix away
  · rw [List.concat_eq_append] at h away back
    obtain ⟨-, root, target, new, start, inside, puts, rfl⟩ := write_placing_iff.1 h
    -- A container made by the put is empty, so that nothing was at the place there either.
    rw [← get?_start start (fun root => back (root ▸ List.nil_prefix)), document_insert]
    rcases Json.get?_update_beside new inside away back with same | ⟨next, way, other, rfl, was, is⟩
    · exact .inl same
    · exact .inr ⟨last, target, new, next, way, puts, other, was, is⟩

theorem get?_of_placing_off
    (h : FieldOperation.write bins (placing mode steps field value) = .ok (answer, changed))
    (away : ¬ steps <+: off) (back : ¬ off <+: steps)
    (there : (document bins field).get? off = some found) :
    (document changed field).get? off = some found := by
  rcases get?_of_placing_beside h away back with
    same | ⟨last, target, new, next, way, puts, other, was, is⟩
  · rw [same, there]
  · rw [was] at there
    obtain ⟨child, hc, hr⟩ := Option.bind_eq_some_iff.1 there
    rw [is, puts.kept other hc, Option.bind_some, hr]

theorem get?_of_placing_strict
    (h : FieldOperation.write bins (placing .strict steps field value) = .ok (answer, changed))
    (away : ¬ steps <+: off) (back : ¬ off <+: steps)
    (absent : (document bins field).get? off = none) :
    (document changed field).get? off = none := by
  rcases get?_of_placing_beside h away back with
    same | ⟨last, target, new, next, way, puts, other, was, is⟩
  · rw [same, absent]
  · rw [is]
    cases hc : target.child? next with
    | none => rw [puts.strict other hc, Option.bind_none]
    | some child =>
        rw [was, hc, Option.bind_some] at absent
        rw [puts.kept other hc, Option.bind_some, absent]

theorem write_placing_back (mode : ListPutMode) (inside : steps ≠ [])
    (there : (document bins field).get? steps = some value) :
    FieldOperation.write bins (placing mode steps field value) = .ok (.null, bins) := by
  rcases List.eq_nil_or_concat steps with rfl | ⟨before, last, rfl⟩
  · exact absurd rfl inside
  · rw [List.concat_eq_append] at there ⊢
    cases present : Members.get? field bins with
    | none =>
        rw [document, present, Option.getD_none, get?_null_concat] at there
        cases there
    | some root =>
        rw [document, present, Option.getD_some, get?_concat] at there
        obtain ⟨target, ht, hc⟩ := Option.bind_eq_some_iff.1 there
        have puts := puts_of_child? mode value hc
        rw [Json.setChild_child? hc] at puts
        refine write_placing_iff.2
          ⟨rfl, root, target, target, start?_of_present present, ht, puts, ?_⟩
        rw [Json.update_get? ht, Members.insert_get? present]

theorem write_placing_again
    (h : FieldOperation.write bins (placing mode steps field value) = .ok (answer, changed))
    (next : Json) : ∃ final,
      FieldOperation.write bins (placing mode steps field next) = .ok (.null, final) ∧
      FieldOperation.write changed (placing mode steps field next) = .ok (.null, final) := by
  rcases List.eq_nil_or_concat steps with rfl | ⟨before, last, rfl⟩
  · cases h
    refine ⟨Members.insert field next bins, rfl, ?_⟩
    rw [← Members.insert_insert field next value bins]
    rfl
  · rw [List.concat_eq_append] at h ⊢
    obtain ⟨-, root, target, new, start, inside, puts, rfl⟩ := write_placing_iff.1 h
    obtain ⟨final, first, second⟩ := puts.again next
    have same : start? bins field before (putAction mode next last) = some root := by
      rw [← start, start?, start?, created?_putAction mode value]
    refine ⟨_, write_placing_iff.2 ⟨rfl, root, target, final, same, inside, first, rfl⟩, ?_⟩
    have present : Members.get? field
        (Members.insert field (root.update (fun _ => new) before) bins) =
        some (root.update (fun _ => new) before) := Members.get?_insert_self _ _ _
    refine write_placing_iff.2 ⟨rfl, _, new, final, start?_of_present present,
      Json.get?_update_self _ inside, second, ?_⟩
    rw [Json.update_update, Members.insert_insert]

theorem write_placing_past (value : Json) {items : List Json} {i : Nat}
    (there : (document bins field).get? steps = some (.array items)) (past : items.length ≤ i) :
    ∃ changed, FieldOperation.write bins (placing .autoExtend (steps ++ [.index i]) field value) =
        .ok (.null, changed) ∧
      (document changed field).get? steps =
        some (.array (items ++ List.replicate (i - items.length) .null ++ [value])) := by
  obtain ⟨root, present, inside⟩ := exists_present_of_get? there (by rintro ⟨⟩)
  refine ⟨_, write_placing_iff.2 ⟨rfl, root, _, _, start?_of_present present, inside,
    .past past rfl, rfl⟩, ?_⟩
  rw [document_insert, Json.get?_update_self _ inside]

end Put

end Native

end RecordPath
