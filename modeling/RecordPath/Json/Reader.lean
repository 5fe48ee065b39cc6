import RecordPath.Json.Numeral
import RecordPath.Json.Written
import RecordPath.Text.Hex

namespace RecordPath

namespace Written

def isSpace (c : Char) : Bool :=
  c = ' ' || c = '\t' || c = '\n' || c = '\r'

def skipSpace (cs : List Char) : List Char :=
  cs.dropWhile isSpace

def escapedUnit? : Char → Option Nat
  | '\x22' => some 0x22
  | '\\' => some 0x5c
  | '/' => some 0x2f
  | 'b' => some 0x8
  | 'f' => some 0xc
  | 'n' => some 0xa
  | 'r' => some 0xd
  | 't' => some 0x9
  | _ => none

def readUnits? : List Char → Option (List Nat × List Char)
  | [] => none
  | '\x22' :: rest => some ([], rest)
  | '\\' :: 'u' :: a :: b :: c :: d :: rest =>
      match Text.fourHexValue? a b c d with
      | some unit => (readUnits? rest).map fun (units, after) => (unit :: units, after)
      | none => none
  | '\\' :: e :: rest =>
      match escapedUnit? e with
      | some unit => (readUnits? rest).map fun (units, after) => (unit :: units, after)
      | none => none
  | c :: rest =>
      if c.toNat < 0x20 ∨ c = '\\' then none
      else (readUnits? rest).map fun (units, after) => (c.toNat :: units, after)

def isLeading (unit : Nat) : Bool :=
  0xd800 ≤ unit && unit < 0xdc00

def isTrailing (unit : Nat) : Bool :=
  0xdc00 ≤ unit && unit < 0xe000

def joinUnits? : List Nat → Option (List Char)
  | [] => some []
  | unit :: units =>
      if isLeading unit then
        match units with
        | [] => none
        | next :: rest =>
            if isTrailing next then
              let code := 0x10000 + (unit - 0xd800) * 0x400 + (next - 0xdc00)
              (joinUnits? rest).map (Char.ofNat code :: ·)
            else none
      else
        match Text.charOf? unit with
        | some c => (joinUnits? units).map (c :: ·)
        | none => none

def readString? (cs : List Char) : Option (Option String × List Char) :=
  (readUnits? cs).map fun (units, after) => ((joinUnits? units).map String.ofList, after)

mutual

def readValue? : Nat → List Char → Option (Written Numeral × List Char)
  | 0, _ => none
  | fuel + 1, cs =>
      match skipSpace cs with
      | 'n' :: 'u' :: 'l' :: 'l' :: rest => some (.null, rest)
      | 't' :: 'r' :: 'u' :: 'e' :: rest => some (.bool true, rest)
      | 'f' :: 'a' :: 'l' :: 's' :: 'e' :: rest => some (.bool false, rest)
      | '\x22' :: rest => (readString? rest).map fun (s, after) => (.string s, after)
      | '[' :: rest =>
          match skipSpace rest with
          | ']' :: after => some (.array [], after)
          | rest => (readItems? fuel rest).map fun (items, after) => (.array items, after)
      | '\x7b' :: rest =>
          match skipSpace rest with
          | '\x7d' :: after => some (.object [], after)
          | rest => (readMembers? fuel rest).map fun (members, after) => (.object members, after)
      | cs => (Numeral.read? cs).map fun (n, after) => (.number n, after)

def readItems? : Nat → List Char → Option (List (Written Numeral) × List Char)
  | 0, _ => none
  | fuel + 1, cs =>
      match readValue? fuel cs with
      | none => none
      | some (item, rest) =>
          match skipSpace rest with
          | ']' :: after => some ([item], after)
          | ',' :: rest => (readItems? fuel rest).map fun (items, after) => (item :: items, after)
          | _ => none

def readMembers? : Nat → List Char → Option (List (Option String × Written Numeral) × List Char)
  | 0, _ => none
  | fuel + 1, cs =>
      match skipSpace cs with
      | '\x22' :: rest =>
          match readString? rest with
          | none => none
          | some (name, rest) =>
              match skipSpace rest with
              | ':' :: rest =>
                  match readValue? fuel rest with
                  | none => none
                  | some (value, rest) =>
                      match skipSpace rest with
                      | '\x7d' :: after => some ([(name, value)], after)
                      | ',' :: rest =>
                          (readMembers? fuel rest).map fun (members, after) =>
                            ((name, value) :: members, after)
                      | _ => none
              | _ => none
      | _ => none

end

/-- Every two steps of the reader take a character, so twice the length is enough. -/
def ofText? (text : String) : Option (Written Numeral) :=
  let cs := text.toList
  match readValue? (2 * cs.length + 2) cs with
  | some (value, rest) => if (skipSpace rest).isEmpty then some value else none
  | none => none

def bounded? (limit : Nat) (w : Written Numeral) : Option Json :=
  if w.depth ≤ limit then w.toJson? Numeral.number? else none

end Written

namespace Json

def depthLimit : Nat := 127

def ofText? (text : String) : Option Json :=
  (Written.ofText? text).bind (Written.bounded? depthLimit)

end Json

end RecordPath
