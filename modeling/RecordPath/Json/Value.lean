import RecordPath.Members

namespace RecordPath

inductive Number where
  | int (n : Int)
  | float (x : Float)
  deriving DecidableEq, Repr

namespace Number

def least : Int :=
  -9223372036854775808

def greatest : Int :=
  18446744073709551615

def inRange (n : Int) : Bool :=
  least ≤ n && n ≤ greatest

def toFloat : Number → Float
  | .int n => Float.ofInt n
  | .float x => x

end Number

inductive Json where
  | null
  | bool (b : Bool)
  | number (n : Number)
  | string (s : String)
  | array (items : List Json)
  | object (members : List (String × Json))
  deriving Repr, Inhabited

namespace Json

mutual

def decEq : (a b : Json) → Decidable (a = b)
  | .null, .null => isTrue rfl
  | .bool a, .bool b =>
      if h : a = b then isTrue (h ▸ rfl) else isFalse (fun e => h (Json.bool.inj e))
  | .number a, .number b =>
      if h : a = b then isTrue (h ▸ rfl) else isFalse (fun e => h (Json.number.inj e))
  | .string a, .string b =>
      if h : a = b then isTrue (h ▸ rfl) else isFalse (fun e => h (Json.string.inj e))
  | .array a, .array b =>
      match decEqItems a b with
      | isTrue h => isTrue (h ▸ rfl)
      | isFalse h => isFalse (fun e => h (Json.array.inj e))
  | .object a, .object b =>
      match decEqMembers a b with
      | isTrue h => isTrue (h ▸ rfl)
      | isFalse h => isFalse (fun e => h (Json.object.inj e))
  | .null, .bool _ => isFalse nofun
  | .null, .number _ => isFalse nofun
  | .null, .string _ => isFalse nofun
  | .null, .array _ => isFalse nofun
  | .null, .object _ => isFalse nofun
  | .bool _, .null => isFalse nofun
  | .bool _, .number _ => isFalse nofun
  | .bool _, .string _ => isFalse nofun
  | .bool _, .array _ => isFalse nofun
  | .bool _, .object _ => isFalse nofun
  | .number _, .null => isFalse nofun
  | .number _, .bool _ => isFalse nofun
  | .number _, .string _ => isFalse nofun
  | .number _, .array _ => isFalse nofun
  | .number _, .object _ => isFalse nofun
  | .string _, .null => isFalse nofun
  | .string _, .bool _ => isFalse nofun
  | .string _, .number _ => isFalse nofun
  | .string _, .array _ => isFalse nofun
  | .string _, .object _ => isFalse nofun
  | .array _, .null => isFalse nofun
  | .array _, .bool _ => isFalse nofun
  | .array _, .number _ => isFalse nofun
  | .array _, .string _ => isFalse nofun
  | .array _, .object _ => isFalse nofun
  | .object _, .null => isFalse nofun
  | .object _, .bool _ => isFalse nofun
  | .object _, .number _ => isFalse nofun
  | .object _, .string _ => isFalse nofun
  | .object _, .array _ => isFalse nofun

def decEqItems : (a b : List Json) → Decidable (a = b)
  | [], [] => isTrue rfl
  | [], _ :: _ => isFalse nofun
  | _ :: _, [] => isFalse nofun
  | a :: as, b :: bs =>
      match decEq a b, decEqItems as bs with
      | isTrue h, isTrue hs => isTrue (h ▸ hs ▸ rfl)
      | isFalse h, _ => isFalse (fun e => h (List.cons.inj e).1)
      | _, isFalse hs => isFalse (fun e => hs (List.cons.inj e).2)

def decEqMembers : (a b : List (String × Json)) → Decidable (a = b)
  | [], [] => isTrue rfl
  | [], _ :: _ => isFalse nofun
  | _ :: _, [] => isFalse nofun
  | (m, a) :: as, (n, b) :: bs =>
      match decEq a b, decEqMembers as bs with
      | isTrue h, isTrue hs =>
          if hn : m = n then isTrue (h ▸ hs ▸ hn ▸ rfl)
          else isFalse (fun e => hn (Prod.mk.inj (List.cons.inj e).1).1)
      | isFalse h, _ => isFalse (fun e => h (Prod.mk.inj (List.cons.inj e).1).2)
      | _, isFalse hs => isFalse (fun e => hs (List.cons.inj e).2)

end

instance : DecidableEq Json := decEq

def isNull : Json → Bool
  | .null => true
  | _ => false

def kind : Json → String
  | .null => "null"
  | .bool _ => "boolean"
  | .number _ => "number"
  | .string _ => "string"
  | .array _ => "list"
  | .object _ => "map"

def emptied? : Json → Option Json
  | .array _ => some (.array [])
  | .object _ => some (.object [])
  | _ => none

def nat (n : Nat) : Json :=
  .number (.int n)

def obj (pairs : List (String × Json)) : Json :=
  .object (Members.ofList pairs)

end Json

end RecordPath
