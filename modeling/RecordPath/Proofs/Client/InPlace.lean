import RecordPath.Proofs.Client.SingleField

namespace RecordPath.Client

open FieldOperation Native

variable {config : ClientConfig} {memory : Memory} {key : Key} {field path : String}
  {root target new value : Json} {place steps off : Location} {step : Step}
  {effect : Json → Json → Prop} {single : FieldOperation}
  {call : Except DocumentError Unit × Memory}

section Container

def withValue (memory : Memory) (key : Key) (field : String) (root : Json) (place : Location)
    (new : Json) : Members Json :=
  Members.insert field (root.update (fun _ => new) place) (memory.fields key)

inductive ChangedAt (memory : Memory) (key : Key) (field : String) (root : Json)
    (place : Location) (effect : Json → Json → Prop) : Except DocumentError Unit × Memory → Prop
  | unchanged {e : DocumentError}
      (never : ∀ target new, root.get? place = some target → ¬ effect target new) :
      ChangedAt memory key field root place effect (.error e, memory)
  | changed {target new : Json} (there : root.get? place = some target)
      (takes : effect target new) :
      ChangedAt memory key field root place effect
        (.ok (), memory.written key (withValue memory key field root place new))

theorem changedAt_of_changed (h : Changed memory key single call)
    (writes : ∀ {bins}, (∃ answer,
        FieldOperation.write (memory.fields key) single = .ok (answer, bins)) ↔
      ∃ target new, root.get? place = some target ∧ effect target new ∧
        bins = Members.insert field (root.update (fun _ => new) place) (memory.fields key)) :
    ChangedAt memory key field root place effect call := by
  cases h with
  | failed failed =>
      refine .unchanged fun target new there takes => ?_
      obtain ⟨answer, written⟩ := writes.2 ⟨target, new, there, takes, rfl⟩
      cases failed.symm.trans written
  | done written =>
      obtain ⟨target, new, there, takes, rfl⟩ := writes.1 ⟨_, written⟩
      exact .changed there takes

theorem ChangedAt.ok_iff (h : ChangedAt memory key field root place effect call) :
    call.1 = .ok () ↔ ∃ target new, root.get? place = some target ∧ effect target new := by
  cases h with
  | unchanged never =>
      refine iff_of_false nofun ?_
      rintro ⟨target, new, there, takes⟩
      exact never target new there takes
  | changed there takes => exact iff_of_true rfl ⟨_, _, there, takes⟩

theorem bin?_withValue : (memory.written key (withValue memory key field root place new)).bin?
    key field = some (root.update (fun _ => new) place) := by
  rw [Memory.bin?_eq, Memory.fields_written, withValue, Members.get?_insert_self]

theorem ChangedAt.exists_after (h : ChangedAt memory key field root place effect call)
    (ok : call.1 = .ok ()) :
    ∃ target new after, root.get? place = some target ∧ effect target new ∧
      call.2.bin? key field = some after ∧ after.get? place = some new := by
  cases h with
  | unchanged _ => cases ok
  | changed there takes =>
      exact ⟨_, _, _, there, takes, bin?_withValue, Json.get?_update_self _ there⟩

theorem ChangedAt.sameBins (h : ChangedAt memory key field root place effect call)
    (present : memory.bin? key field = some root) (there : root.get? place = some target)
    (idle : ∀ new, effect target new ↔ new = target) :
    call.1 = .ok () ∧ memory.SameBins call.2 := by
  cases h with
  | unchanged never => exact absurd ((idle target).2 rfl) (never target target there)
  | changed found takes =>
      cases there.symm.trans found
      cases (idle _).1 takes
      have same : withValue memory key field root place target = memory.fields key := by
        rw [Memory.bin?_eq] at present
        rw [withValue, Json.update_get? there, Members.insert_get? present]
      obtain ⟨record, recorded, -⟩ := Option.bind_eq_some_iff.1 present
      rw [same]
      exact ⟨rfl, Memory.sameBins_written_fields recorded⟩

theorem ChangedAt.sameBeside (h : ChangedAt memory key field root place effect call) :
    Memory.SameBeside key field memory call.2 := by
  cases h with
  | unchanged _ => exact Memory.sameBeside_refl key field memory
  | changed _ _ =>
      exact Memory.sameBeside_written fun name apart => Members.get?_insert_of_ne apart _ _

theorem ChangedAt.value?_apart (h : ChangedAt memory key field root place effect call)
    (present : memory.bin? key field = some root) (away : ¬ place <+: off)
    (back : ¬ off <+: place) :
    call.2.value? key field off = memory.value? key field off := by
  cases h with
  | unchanged _ => rfl
  | changed _ _ =>
      rw [Memory.value?_of_present bin?_withValue, Json.get?_update_off away back,
        Memory.value?_of_present present]

theorem ChangedAt.value?_beside (h : ChangedAt memory key field root place effect call)
    (present : memory.bin? key field = some root)
    (kept : ∀ target new next, effect target new → next ≠ step →
      new.child? next = target.child? next)
    (away : ¬ place ++ [step] <+: off) (back : ¬ off <+: place ++ [step]) :
    call.2.value? key field off = memory.value? key field off := by
  cases h with
  | unchanged _ => rfl
  | @changed target new there takes =>
      rw [Memory.value?_of_present bin?_withValue, Memory.value?_of_present present]
      rcases Json.get?_update_beside new there away back with
        same | ⟨next, way, other, rfl, was, is⟩
      · exact same
      · rw [was, is, kept target new next takes other]

theorem changedAt_append {shape : Shape} (native : Path.IsNative path steps) (inside : steps ≠ [])
    (present : memory.bin? key field = some root) (accepted : shape.accept = .ok value) :
    ChangedAt memory key field root steps (Appends value)
      ((append config key [field] path shape).run Memory.store memory) := by
  rw [Memory.bin?_eq] at present
  exact changedAt_of_changed (changed_append native inside accepted)
    (write_appending_iff present)

theorem changedAt_delete (native : Path.IsNative path (steps ++ [step]))
    (present : memory.bin? key field = some root) :
    ChangedAt memory key field root steps (Deletes step)
      ((delete config key [field] path).run Memory.store memory) := by
  rw [Memory.bin?_eq] at present
  exact changedAt_of_changed (changed_delete native) (write_removal_iff present)

end Container

def SameApart (config : ClientConfig) (key : Key) (field : String) (place : Location)
    (before after : Memory) : Prop :=
  ∀ other off, Path.IsNative other off → ¬ place <+: off → ¬ off <+: place → ∀ w,
    found config before key field other = .ok w ↔ found config after key field other = .ok w

theorem sameApart_of_value? {before after : Memory}
    (same : ∀ off, ¬ place <+: off → ¬ off <+: place →
      after.value? key field off = before.value? key field off) :
    SameApart config key field place before after := by
  intro other off along away back w
  rw [found_eq_ok_iff along, found_eq_ok_iff along, same off away back]

section Append

structure AppendLaws (config : ClientConfig) (memory : Memory) (key : Key) (field path : String)
    (steps : Location) (value : Json) (call : Except DocumentError Unit × Memory) : Prop where
  succeeds : call.1 = .ok () ↔ ∃ items, found config memory key field path = .ok (.array items)
  read : ∀ items, found config memory key field path = .ok (.array items) →
    found config call.2 key field path = .ok (.array (items ++ [value]))
  apart : SameApart config key field steps memory call.2
  beside : Memory.SameBeside key field memory call.2

theorem append_laws {shape : Shape} (native : Path.IsNative path steps) (inside : steps ≠ [])
    (present : memory.bin? key field = some root) (accepted : shape.accept = .ok value) :
    AppendLaws config memory key field path steps value
      ((append config key [field] path shape).run Memory.store memory) := by
  have changed : ChangedAt memory key field root steps (Appends value)
      ((append config key [field] path shape).run Memory.store memory) :=
    changedAt_append native inside present accepted
  have succeeds : ((append config key [field] path shape).run Memory.store memory).1 = .ok () ↔
      ∃ items, found config memory key field path = .ok (.array items) := by
    simp only [found_eq_ok_iff native, Memory.value?_of_present present, changed.ok_iff]
    constructor
    · rintro ⟨_, _, there, ⟨items⟩⟩
      exact ⟨items, there⟩
    · rintro ⟨items, there⟩
      exact ⟨_, _, there, .list items⟩
  constructor
  case succeeds => exact succeeds
  case read =>
    intro items there
    have ok := succeeds.2 ⟨items, there⟩
    rw [found_eq_ok_iff native, Memory.value?_of_present present] at there
    obtain ⟨_, _, after, was, ⟨_⟩, later, is⟩ := changed.exists_after ok
    cases there.symm.trans was
    rw [found_eq_ok_iff native, Memory.value?_of_present later, is]
  case apart => exact sameApart_of_value? fun off => changed.value?_apart present
  case beside => exact changed.sameBeside

end Append

section DeleteName

structure DeleteNameLaws (config : ClientConfig) (memory : Memory) (key : Key)
    (field path : String) (outer : Location) (name : String)
    (call : Except DocumentError Unit × Memory) : Prop where
  succeeds : call.1 = .ok () ↔ ∃ members, memory.value? key field outer = some (.object members)
  gone : call.1 = .ok () →
    ∃ message, found config call.2 key field path = .error (.objectNotFound message)
  again : call.1 = .ok () →
    let again := (delete config key [field] path).run Memory.store call.2
    again.1 = .ok () ∧ call.2.SameBins again.2
  apart : SameApart config key field (outer ++ [.key name]) memory call.2
  beside : Memory.SameBeside key field memory call.2

theorem found_missing {name : String} {members : Members Json}
    (native : Path.IsNative path (steps ++ [.key name]))
    (there : memory.value? key field steps = some (.object members))
    (gone : Members.get? name members = none) :
    found config memory key field path =
      .error (.objectNotFound (StoreError.missingName name).message) := by
  obtain ⟨record, recorded, inside⟩ := Option.bind_eq_some_iff.1 there
  rw [found_native native, recorded]
  dsimp only
  rw [read_strictFetch_missing inside gone]
  rfl

theorem delete_name_laws {outer : Location} {name : String}
    (native : Path.IsNative path (outer ++ [.key name]))
    (present : memory.bin? key field = some root) :
    DeleteNameLaws config memory key field path outer name
      ((delete config key [field] path).run Memory.store memory) := by
  have changed : ChangedAt memory key field root outer (Deletes (.key name))
      ((delete config key [field] path).run Memory.store memory) := changedAt_delete native present
  constructor
  case succeeds =>
    simp only [Memory.value?_of_present present, changed.ok_iff]
    constructor
    · rintro ⟨_, _, there, ⟨name, members⟩⟩
      exact ⟨members, there⟩
    · rintro ⟨members, there⟩
      exact ⟨_, _, there, .name name members⟩
  case gone =>
    intro ok
    obtain ⟨target, new, after, there, ⟨name, members⟩, later, is⟩ := changed.exists_after ok
    refine ⟨_, found_missing native ?_ (Members.get?_erase_self name members)⟩
    rw [Memory.value?_of_present later, is]
  case again =>
    intro ok
    obtain ⟨target, new, after, there, deletes, later, is⟩ := changed.exists_after ok
    exact (changedAt_delete native later).sameBins later is fun _ => deletes.name_again
  case apart =>
    refine sameApart_of_value? fun off => changed.value?_beside present ?_
    exact fun target new next deletes other => deletes.name_of_ne other
  case beside => exact changed.sameBeside

end DeleteName

section DeleteItem

structure DeleteItemLaws (config : ClientConfig) (memory : Memory) (key : Key) (field : String)
    (outer : Location) (i : Nat) (call : Except DocumentError Unit × Memory) : Prop where
  succeeds : call.1 = .ok () ↔
    ∃ items, memory.value? key field outer = some (.array items) ∧ i < items.length
  closed : ∀ items, memory.value? key field outer = some (.array items) → i < items.length →
    call.2.value? key field outer = some (.array (items.eraseIdx i))
  apart : SameApart config key field outer memory call.2
  beside : Memory.SameBeside key field memory call.2

theorem delete_item_laws {outer : Location} {i : Nat}
    (native : Path.IsNative path (outer ++ [.index i]))
    (present : memory.bin? key field = some root) :
    DeleteItemLaws config memory key field outer i
      ((delete config key [field] path).run Memory.store memory) := by
  have changed : ChangedAt memory key field root outer (Deletes (.index i))
      ((delete config key [field] path).run Memory.store memory) := changedAt_delete native present
  have succeeds : ((delete config key [field] path).run Memory.store memory).1 = .ok () ↔
      ∃ items, memory.value? key field outer = some (.array items) ∧ i < items.length := by
    simp only [Memory.value?_of_present present, changed.ok_iff]
    constructor
    · rintro ⟨_, _, there, deletes⟩
      cases deletes with
      | @item i items bound => exact ⟨items, there, bound⟩
    · rintro ⟨items, there, bound⟩
      exact ⟨_, _, there, .item bound⟩
  constructor
  case succeeds => exact succeeds
  case closed =>
    intro items there bound
    obtain ⟨target, new, after, was, deletes, later, is⟩ :=
      changed.exists_after (succeeds.2 ⟨items, there, bound⟩)
    rw [Memory.value?_of_present present] at there
    cases there.symm.trans was
    cases deletes with
    | item _ => rw [Memory.value?_of_present later, is]
  case apart => exact sameApart_of_value? fun off => changed.value?_apart present
  case beside => exact changed.sameBeside

end DeleteItem

theorem append_delete_in_place (config : ClientConfig) (memory : Memory) (key : Key)
    (field : String) {path : String} {steps : Location} {root : Json}
    (native : Path.IsNative path steps) (inside : steps ≠ [])
    (present : memory.bin? key field = some root) :
    (∀ shape value, Shape.accept shape = .ok value →
      AppendLaws config memory key field path steps value
        ((append config key [field] path shape).run Memory.store memory)) ∧
    (∀ outer name, steps = outer ++ [.key name] →
      DeleteNameLaws config memory key field path outer name
        ((delete config key [field] path).run Memory.store memory)) ∧
    ∀ outer i, steps = outer ++ [.index i] →
      DeleteItemLaws config memory key field outer i
        ((delete config key [field] path).run Memory.store memory) := by
  refine ⟨fun shape value => append_laws native inside present, ?_, ?_⟩
  · rintro outer name rfl
    exact delete_name_laws native present
  · rintro outer i rfl
    exact delete_item_laws native present

/-- A list inside a list is appended to and deleted, and so is the whole of the outer list. -/
theorem append_delete_in_place_nested :
    let config : ClientConfig := .standard
    let key : Key := ⟨"test", "documents", "1"⟩
    let memory := (Memory.empty 7).seed key
      [("doc", .obj [("a", .array [.array [.nat 1], .nat 2]), ("b", .nat 3)])]
    let appended := (append config key ["doc"] "$.a[0]" (.integer 9)).run Memory.store memory
    let closed := (delete config key ["doc"] "$.a[0]").run Memory.store memory
    let removed := (delete config key ["doc"] "$.a").run Memory.store memory
    (appended.1 = .ok () ∧
      found config appended.2 key "doc" "$.a[0]" = .ok (.array [.nat 1, .nat 9])) ∧
    (closed.1 = .ok () ∧ closed.2.value? key "doc" [.key "a"] = some (.array [.nat 2])) ∧
    removed.1 = .ok () ∧
      (∃ message, found config removed.2 key "doc" "$.a" = .error (.objectNotFound message)) ∧
      found config removed.2 key "doc" "$.b" = .ok (.nat 3) := by
  intro config key memory appended closed removed
  have item : Path.IsNative "$.a[0]" [.key "a", .index 0] :=
    ⟨⟨"$.a[0]", [.key "a", .index 0], none⟩, by decide +kernel, rfl, rfl⟩
  have name : Path.IsNative "$.a" [.key "a"] :=
    ⟨⟨"$.a", [.key "a"], none⟩, by decide +kernel, rfl, rfl⟩
  have other : Path.IsNative "$.b" [.key "b"] :=
    ⟨⟨"$.b", [.key "b"], none⟩, by decide +kernel, rfl, rfl⟩
  have present : memory.bin? key "doc" =
    some (.obj [("a", .array [.array [.nat 1], .nat 2]), ("b", .nat 3)]) := by decide +kernel
  obtain ⟨appends, -, items⟩ :=
    append_delete_in_place config memory key "doc" item (by decide) present
  obtain ⟨-, names, -⟩ := append_delete_in_place config memory key "doc" name (by decide) present
  have inner : found config memory key "doc" "$.a[0]" = .ok (.array [.nat 1]) := by decide +kernel
  have outer : memory.value? key "doc" [.key "a"] = some (.array [.array [.nat 1], .nat 2]) := by
    decide +kernel
  have beside : found config memory key "doc" "$.b" = .ok (.nat 3) := by decide +kernel
  have append := appends (.integer 9) (.nat 9) rfl
  have delete := items [.key "a"] 0 rfl
  have whole := names [] "a" rfl
  have ok : removed.1 = .ok () :=
    whole.succeeds.2 ⟨Members.ofList [("a", .array [.array [.nat 1], .nat 2]), ("b", .nat 3)],
      present⟩
  exact ⟨⟨append.succeeds.2 ⟨_, inner⟩, append.read _ inner⟩,
    ⟨delete.succeeds.2 ⟨_, outer, by decide⟩, delete.closed _ outer (by decide)⟩,
    ok, whole.gone ok, (whole.apart "$.b" _ other (by decide) (by decide) _).1 beside⟩

end RecordPath.Client
