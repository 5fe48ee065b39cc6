import RecordPath.Store.Action
import RecordPath.Store.Fault

namespace RecordPath

/-- The generation counts the writes to a record, and starts again after the greatest. -/
structure Stamp where
  generation : UInt32
  lastUpdate : UInt64
  deriving DecidableEq, Repr

namespace Stamp

def zero : Stamp :=
  ⟨0, 0⟩

end Stamp

structure Record where
  bins : Members Json
  stamp : Stamp
  deriving DecidableEq, Repr

namespace Record

def absent : Record :=
  ⟨[], .zero⟩

end Record

structure View where
  values : List Json
  stamp : Stamp
  deriving DecidableEq, Repr

namespace FieldOperation

def asMap : Json → Except StoreError (Members Json)
  | .object members => .ok members
  | value => .error (.mapExpected value)

def asList : Json → Except StoreError (List Json)
  | .array items => .ok items
  | value => .error (.listExpected value)

def locate : Location → Json → Except StoreError Json
  | [], value => .ok value
  | .key name :: rest, value =>
      match asMap value with
      | .error e => .error e
      | .ok members =>
          match Members.get? name members with
          | some child => locate rest child
          | none => .error (.missingContext name)
  | .index i :: rest, value =>
      match asList value with
      | .error e => .error e
      | .ok items =>
          match items[i]? with
          | some child => locate rest child
          | none => .error (.outOfRange i items.length)

theorem get?_of_locate {context : Location} :
    ∀ {value found : Json}, locate context value = .ok found → value.get? context = some found := by
  induction context with
  | nil => intro value found h; cases h; rfl
  | cons step rest ih =>
      intro value found h
      cases step <;> cases value <;> simp only [locate, asMap, asList] at h
      case key.object name members =>
        cases hc : Members.get? name members with
        | none => simp [hc] at h
        | some child =>
            simp only [hc] at h
            simp [Json.get?, Json.child?, hc, ih h]
      case index.array i items =>
        cases hc : items[i]? with
        | none => simp [hc] at h
        | some child =>
            simp only [hc] at h
            simp [Json.get?, Json.child?, hc, ih h]
      all_goals cases h

def readValue (target : Json) : ReadAction → Except StoreError Json
  | .whole => .ok target
  | .mapGet name =>
      match asMap target with
      | .error e => .error e
      | .ok members =>
          match Members.get? name members with
          | some value => .ok value
          | none => .error (.missingName name)
  | .listGet i =>
      match asList target with
      | .error e => .error e
      | .ok items =>
          match items[i]? with
          | some value => .ok value
          | none => .error (.outOfRange i items.length)
  | .mapLookup name => (asMap target).map fun members => (Members.get? name members).getD .null
  | .listLookup i => (asList target).map fun items => items[i]?.getD .null

def writeValue (target : Json) : WriteAction → Except StoreError (Json × Json)
  | .whole value => .ok (.null, value)
  | .clear => .ok (.null, target.emptied?.getD .null)
  | .mapPut name value =>
      (asMap target).map fun members => (.null, .object (Members.insert name value members))
  | .mapRemove name =>
      (asMap target).map fun members => (.null, .object (Members.erase name members))
  | .listSet i value pad =>
      match asList target with
      | .error e => .error e
      | .ok items =>
          if i < items.length then .ok (.null, .array (items.set i value))
          else if pad then
            .ok (.null, .array (items ++ List.replicate (i - items.length) .null ++ [value]))
          else .error (.outOfRange i items.length)
  | .listAppend value =>
      (asList target).map fun items => (.nat (items.length + 1), .array (items ++ [value]))
  | .listRemove i =>
      match asList target with
      | .error e => .error e
      | .ok items =>
          match items[i]? with
          | some value => .ok (value, .array (items.eraseIdx i))
          | none => .error (.outOfRange i items.length)

def readsAbsent (context : Location) : ReadAction → Bool
  | .whole => context.isEmpty
  | .mapLookup _ => context.isEmpty
  | .listLookup _ => context.isEmpty
  | _ => false

def readField (bins : Members Json) (field : String) (context : Location) (action : ReadAction) :
    Except StoreError Json :=
  match Members.get? field bins with
  | some root =>
      match locate context root with
      | .error e => .error e
      | .ok target => readValue target action
  | none => if readsAbsent context action then .ok .null else .error (.missingField field)

def clearField (bins : Members Json) (field : String) : Members Json :=
  match Members.get? field bins with
  | none => bins
  | some value =>
      match value.emptied? with
      | some empty => Members.insert field empty bins
      | none => Members.erase field bins

def writeInside (bins : Members Json) (field : String) (root : Json) (context : Location)
    (action : WriteAction) : Except StoreError (Json × Members Json) :=
  match locate context root with
  | .error e => .error e
  | .ok target =>
      match writeValue target action with
      | .error e => .error e
      | .ok (answer, changed) =>
          .ok (answer, Members.insert field (root.update (fun _ => changed) context) bins)

def created? : WriteAction → Option Json
  | .mapPut _ _ => some (.object [])
  | .listAppend _ => some (.array [])
  | .listSet _ _ true => some (.array [])
  | _ => none

def writeAbsent (bins : Members Json) (field : String) (context : Location)
    (action : WriteAction) : Except StoreError (Json × Members Json) :=
  match context, action with
  | [], .mapRemove _ => .ok (.null, bins)
  | [], action =>
      match created? action with
      | some root => writeInside bins field root [] action
      | none => .error (.missingField field)
  | _ :: _, _ => .error (.missingField field)

def writeField (bins : Members Json) (field : String) (context : Location)
    (action : WriteAction) : Except StoreError (Json × Members Json) :=
  match context, action with
  | [], .whole value => .ok (.null, Members.insert field value bins)
  | [], .clear => .ok (.null, clearField bins field)
  | context, action =>
      match Members.get? field bins with
      | some root => writeInside bins field root context action
      | none => writeAbsent bins field context action

/-- A read inside a write: the part that may be absent has to be there. -/
def readInWrite (bins : Members Json) (field : String) (context : Location)
    (action : ReadAction) : Except StoreError Json :=
  match Members.get? field bins with
  | some root =>
      match locate context root with
      | .error e => .error e
      | .ok target => readValue target action
  | none =>
      match context, action with
      | [], .whole => .ok .null
      | _, _ => .error (.missingField field)

def write (bins : Members Json) (operation : FieldOperation) :
    Except StoreError (Json × Members Json) :=
  match operation.action with
  | .read action =>
      (readInWrite bins operation.field operation.context action).map fun value => (value, bins)
  | .write action => writeField bins operation.field operation.context action

def writeAll : Members Json → List FieldOperation → Except StoreError (List Json × Members Json)
  | bins, [] => .ok ([], bins)
  | bins, operation :: rest =>
      match write bins operation with
      | .error e => .error e
      | .ok (answer, changed) =>
          (writeAll changed rest).map fun (answers, final) => (answer :: answers, final)

def read (bins : Members Json) (operation : FieldOperation) : Except StoreError Json :=
  match operation.action with
  | .read action => readField bins operation.field operation.context action
  | .write _ => .error (.writeInRead operation.field)

def readAll (bins : Members Json) : List FieldOperation → Except StoreError (List Json)
  | [] => .ok []
  | operation :: rest =>
      match read bins operation with
      | .error e => .error e
      | .ok value => (readAll bins rest).map (value :: ·)

end FieldOperation

end RecordPath
