import RecordPath.Error
import RecordPath.Text.Position

namespace RecordPath

inductive Shape where
  | bool (b : Bool)
  | integer (n : Int)
  | wide (isSigned : Bool) (n : Int)
  | single (x : Float32)
  | double (x : Float)
  | character (c : Char)
  | string (s : String)
  | bytes (bs : List UInt8)
  | absent
  | present (inner : Shape)
  | unit
  | unitStruct
  | unitVariant (variant : String)
  | wrapper (inner : Shape)
  | wrapperVariant (variant : String) (inner : Shape)
  | sequence (items : List Shape)
  | tuple (items : List Shape)
  | tupleStruct (items : List Shape)
  | tupleVariant (variant : String) (items : List Shape)
  | map (entries : List (Shape × Shape))
  | struct (fields : List (String × Shape))
  | structVariant (variant : String) (fields : List (String × Shape))
  | json (value : Json)
  | failing (message : String)
  deriving Inhabited

inductive AdmissionFault where
  | fixedSize
  | wideInteger (isSigned : Bool)
  | outOfRange
  | keyNotText
  | keyNotFinite
  | other (message : String)
  deriving DecidableEq, Repr

namespace AdmissionFault

def message : AdmissionFault → String
  | .fixedSize => "fixed-size arrays and tuples cannot be stored; use a Vec"
  | .wideInteger true => "i128 is not supported"
  | .wideInteger false => "u128 is not supported"
  | .outOfRange => "number out of range"
  | .keyNotText => "key must be a string"
  | .keyNotFinite => "float key must be finite (got NaN or +/-inf)"
  | .other message => message

end AdmissionFault

namespace Shape

def probe : Shape → Except AdmissionFault Unit
  | .tuple _ => .error .fixedSize
  | .tupleStruct _ => .error .fixedSize
  | .wide isSigned _ => .error (.wideInteger isSigned)
  | .failing message => .error (.other message)
  | .present inner => probe inner
  | .wrapper inner => probe inner
  | _ => .ok ()

def ofFloat (x : Float) : Json :=
  if x.isFinite then .number (.float x) else .null

def finiteKey : Option (List Char) → Except AdmissionFault String
  | some text => .ok (String.ofList text)
  | none => .error .keyNotFinite

/-- Numbers of single precision are plain from 0.000001 up to, not including, 10 to the 13. -/
def singleLayout : Layout := ⟨-6, 12⟩

def singleKey (x : Float32) : Except AdmissionFault String :=
  finiteKey (singleLayout.bits? .single x.toBits.toNat)

def doubleKey (x : Float) : Except AdmissionFault String :=
  finiteKey (Number.floatText? x)

def keyOfJson : Json → Except AdmissionFault String
  | .string s => .ok s
  | .bool b => .ok (if b then "true" else "false")
  | .number (.int n) => .ok (toString n)
  | .number (.float x) => doubleKey x
  | _ => .error .keyNotText

def key : Shape → Except AdmissionFault String
  | .bool b => .ok (if b then "true" else "false")
  | .integer n => .ok (toString n)
  | .wide _ n => .ok (toString n)
  | .single x => singleKey x
  | .double x => doubleKey x
  | .character c => .ok (String.singleton c)
  | .string s => .ok s
  | .unitVariant variant => .ok variant
  | .wrapper inner => key inner
  | .json value => keyOfJson value
  | .failing message => .error (.other (Text.restated message))
  | _ => .error .keyNotText

mutual

def toJson : Shape → Except AdmissionFault Json
  | .bool b => .ok (.bool b)
  | .integer n => .ok (.number (.int n))
  | .wide _ n => if Number.inRange n then .ok (.number (.int n)) else .error .outOfRange
  | .single x => .ok (ofFloat x.toFloat)
  | .double x => .ok (ofFloat x)
  | .character c => .ok (.string (String.singleton c))
  | .string s => .ok (.string s)
  | .bytes bs => .ok (.array (bs.map fun b => .nat b.toNat))
  | .absent => .ok .null
  | .present inner => toJson inner
  | .unit => .ok .null
  | .unitStruct => .ok .null
  | .unitVariant variant => .ok (.string variant)
  | .wrapper inner => toJson inner
  | .wrapperVariant variant inner => (toJson inner).map fun value => .obj [(variant, value)]
  | .sequence items => (itemsToJson items).map .array
  | .tuple items => (itemsToJson items).map .array
  | .tupleStruct items => (itemsToJson items).map .array
  | .tupleVariant variant items =>
      (itemsToJson items).map fun values => .obj [(variant, .array values)]
  | .map entries => (entriesToJson entries).map .obj
  | .struct fields => (fieldsToJson fields).map .obj
  | .structVariant variant fields =>
      (fieldsToJson fields).map fun pairs => .obj [(variant, .obj pairs)]
  | .json value => .ok value
  | .failing message => .error (.other (Text.restated message))

def itemsToJson : List Shape → Except AdmissionFault (List Json)
  | [] => .ok []
  | item :: items =>
      match toJson item with
      | .error fault => .error fault
      | .ok value => (itemsToJson items).map (value :: ·)

def entriesToJson : List (Shape × Shape) → Except AdmissionFault (List (String × Json))
  | [] => .ok []
  | (name, item) :: entries =>
      match key name with
      | .error fault => .error fault
      | .ok name =>
          match toJson item with
          | .error fault => .error fault
          | .ok value => (entriesToJson entries).map ((name, value) :: ·)

def fieldsToJson : List (String × Shape) → Except AdmissionFault (List (String × Json))
  | [] => .ok []
  | (name, item) :: fields =>
      match toJson item with
      | .error fault => .error fault
      | .ok value => (fieldsToJson fields).map ((name, value) :: ·)

end

def unsupported (fault : AdmissionFault) : DocumentError :=
  .unsupportedValue fault.message

def accept (shape : Shape) : Except DocumentError Json :=
  match shape.probe with
  | .error fault => .error (unsupported fault)
  | .ok () => shape.toJson.mapError unsupported

end Shape

end RecordPath
