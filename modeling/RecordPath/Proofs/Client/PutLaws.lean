import RecordPath.Proofs.Client.SingleField

namespace RecordPath.Client

open FieldOperation Native

variable {memory : Memory} {key : Key} {field : String} {steps off : Location} {value next : Json}
  {mode : ListPutMode} {call alone after : Except DocumentError Unit × Memory}

section Placed

theorem Changed.value?_put (h : Changed memory key (placing mode steps field value) call)
    (ok : call.1 = .ok ()) : call.2.value? key field steps = some value := by
  cases h with
  | failed _ => cases ok
  | done written => rw [Memory.value?_written, get?_of_placing written]

theorem Changed.value?_put_apart {old : Json}
    (h : Changed memory key (placing mode steps field value) call) (away : ¬ steps <+: off)
    (back : ¬ off <+: steps) (there : memory.value? key field off = some old) :
    call.2.value? key field off = some old := by
  cases h with
  | failed _ => exact there
  | done written =>
      rw [Memory.value?_written]
      exact get?_of_placing_off written away back (Memory.get?_of_value? there)

theorem Changed.value?_put_strict
    (h : Changed memory key (placing .strict steps field value) call) (away : ¬ steps <+: off)
    (back : ¬ off <+: steps) (absent : memory.value? key field off = none) :
    call.2.value? key field off = none := by
  cases h with
  | failed _ => exact absent
  | done written =>
      have inside : off ≠ [] := fun root => back (root ▸ List.nil_prefix)
      rw [Memory.value?_of_inside inside] at absent
      rw [Memory.value?_written]
      exact get?_of_placing_strict written away back absent

theorem Changed.put_back (h : Changed memory key (placing mode steps field value) call)
    (inside : steps ≠ []) (there : memory.value? key field steps = some value) :
    call.1 = .ok () ∧ memory.SameBins call.2 := by
  have same := write_placing_back mode inside (Memory.get?_of_value? there)
  obtain ⟨record, found, -⟩ := Option.bind_eq_some_iff.1 there
  rw [h.eq_of_write same]
  exact ⟨rfl, Memory.sameBins_written_fields found⟩

theorem Changed.put_again (h : Changed memory key (placing mode steps field value) call)
    (ha : Changed memory key (placing mode steps field next) alone)
    (hl : Changed call.2 key (placing mode steps field next) after) :
    after.1 = alone.1 ∧ alone.2.SameBins after.2 := by
  cases h with
  | failed _ =>
      rw [ha.unique hl]
      exact ⟨rfl, fun _ => rfl⟩
  | done written =>
      obtain ⟨final, first, second⟩ := write_placing_again written next
      have last := hl.eq_of_write (by rw [Memory.fields_written]; exact second)
      rw [ha.eq_of_write first, last]
      exact ⟨rfl, Memory.sameBins_written_written⟩

theorem Changed.put_past {items : List Json} {i : Nat}
    (h : Changed memory key (placing .autoExtend (steps ++ [.index i]) field value) call)
    (there : memory.value? key field steps = some (.array items)) (past : items.length ≤ i) :
    call.1 = .ok () ∧ call.2.value? key field steps =
      some (.array (items ++ List.replicate (i - items.length) .null ++ [value])) := by
  obtain ⟨changed, written, extended⟩ :=
    write_placing_past value (Memory.get?_of_value? there) past
  rw [h.eq_of_write written]
  exact ⟨rfl, Memory.value?_written.trans extended⟩

end Placed

structure PutLaws (config : ClientConfig) (memory : Memory) (key : Key) (field path : String)
    (steps : Location) (value : Json) (call : Except DocumentError Unit × Memory) : Prop where
  read : call.1 = .ok () → found config call.2 key field path = .ok value
  apart : ∀ other off, Path.IsNative other off → ¬ steps <+: off → ¬ off <+: steps →
    ∀ w, found config memory key field other = .ok w → found config call.2 key field other = .ok w
  strict : config.listPut = .strict →
    ∀ other off, Path.IsNative other off → ¬ steps <+: off → ¬ off <+: steps →
      (∃ e, found config memory key field other = .error e) →
        ∃ e, found config call.2 key field other = .error e
  back : steps ≠ [] → found config memory key field path = .ok value →
    call.1 = .ok () ∧ memory.SameBins call.2
  again : ∀ shape next, Shape.accept shape = .ok next →
    let alone := (put config key [field] path shape).run Memory.store memory
    let after := (put config key [field] path shape).run Memory.store call.2
    after.1 = alone.1 ∧ alone.2.SameBins after.2
  past : config.listPut = .autoExtend → ∀ outer i items, steps = outer ++ [.index i] →
    memory.value? key field outer = some (.array items) → items.length ≤ i →
      call.1 = .ok () ∧ ∃ list, call.2.value? key field outer = some (.array list) ∧
        list = items ++ List.replicate (i - items.length) .null ++ [value] ∧ list.length = i + 1
  beside : Memory.SameBeside key field memory call.2

theorem field_placing (mode : ListPutMode) (steps : Location) (field : String) (value : Json) :
    (placing mode steps field value).field = field := by
  unfold placing
  cases steps.getLast? <;> rfl

theorem put_lens (config : ClientConfig) (memory : Memory) (key : Key) (field : String)
    {path : String} {steps : Location} {shape : Shape} {value : Json}
    (native : Path.IsNative path steps) (accepted : shape.accept = .ok value) :
    PutLaws config memory key field path steps value
      ((put config key [field] path shape).run Memory.store memory) := by
  have changed : Changed memory key (placing config.listPut steps field value)
      ((put config key [field] path shape).run Memory.store memory) :=
    changed_put native accepted
  constructor
  case read => exact fun ok => (found_eq_ok_iff native).2 (changed.value?_put ok)
  case apart =>
    intro other off along away back w there
    rw [found_eq_ok_iff along] at there ⊢
    exact changed.value?_put_apart away back there
  case strict =>
    intro strict other off along away back absent
    rw [found_eq_error_iff along] at absent ⊢
    rw [strict] at changed
    exact changed.value?_put_strict away back absent
  case back =>
    intro inside there
    exact changed.put_back inside ((found_eq_ok_iff native).1 there)
  case again =>
    intro again next admitted
    exact changed.put_again (changed_put native admitted) (changed_put native admitted)
  case past =>
    rintro extending outer i items rfl there past
    rw [extending] at changed
    obtain ⟨ok, list⟩ := changed.put_past there past
    refine ⟨ok, _, list, rfl, ?_⟩
    rw [List.length_append, length_padded past, List.length_singleton]
  case beside =>
    have beside := changed.sameBeside
    rwa [field_placing] at beside

/-- A put two places behind the end of a list, seen from the list, the place and another member. -/
theorem put_lens_past_end :
    let config : ClientConfig := { ClientConfig.standard with listPut := .autoExtend }
    let key : Key := ⟨"test", "documents", "1"⟩
    let memory := (Memory.empty 7).seed key
      [("doc", .obj [("a", .array [.nat 1]), ("b", .nat 2)])]
    let call := (put config key ["doc"] "$.a[3]" (.integer 5)).run Memory.store memory
    PutLaws config memory key "doc" "$.a[3]" [.key "a", .index 3] (.nat 5) call ∧
      call.1 = .ok () ∧ found config call.2 key "doc" "$.a[3]" = .ok (.nat 5) ∧
      found config call.2 key "doc" "$.b" = .ok (.nat 2) ∧
      call.2.value? key "doc" [.key "a"] = some (.array [.nat 1, .null, .null, .nat 5]) := by
  intro config key memory call
  have native : Path.IsNative "$.a[3]" [.key "a", .index 3] :=
    ⟨⟨"$.a[3]", [.key "a", .index 3], none⟩, by decide +kernel, rfl, rfl⟩
  have other : Path.IsNative "$.b" [.key "b"] :=
    ⟨⟨"$.b", [.key "b"], none⟩, by decide +kernel, rfl, rfl⟩
  have laws := @put_lens config memory key "doc" "$.a[3]" _ (.integer 5) (.nat 5) native rfl
  obtain ⟨ok, list, there, rfl, -⟩ := laws.past rfl [.key "a"] 3 [.nat 1] rfl (by decide +kernel)
    (by decide)
  have before : found config memory key "doc" "$.b" = .ok (.nat 2) := by decide +kernel
  exact ⟨laws, ok, laws.read ok,
    laws.apart "$.b" [.key "b"] other (by decide) (by decide) (.nat 2) before, there⟩

end RecordPath.Client
