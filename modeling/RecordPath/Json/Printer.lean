import RecordPath.Json.Value
import RecordPath.Decimal.Layout
import RecordPath.Text.Quoted

namespace RecordPath

namespace Number

/-- Doubles are plain from 0.00001 up to, not including, 10 to the 16; a fraction is always written
there. -/
def layout : Layout := ⟨-5, 15⟩

def floatText? (x : Float) : Option (List Char) :=
  layout.bits? .double x.toBits.toNat

def floatText (x : Float) : List Char :=
  (floatText? x).getD "null".toList

def intText : Int → List Char
  | .ofNat n => Text.natural n
  | .negSucc n => '-' :: Text.natural (n + 1)

def text : Number → List Char
  | .int n => intText n
  | .float x => floatText x

end Number

namespace Json

def stringText (s : String) : List Char :=
  Text.quoted '\x22' s.toList

def boolText (b : Bool) : List Char :=
  if b then "true".toList else "false".toList

mutual

def chars : Json → List Char
  | .null => "null".toList
  | .bool b => boolText b
  | .number n => n.text
  | .string s => stringText s
  | .array [] => ['[', ']']
  | .array (item :: items) => '[' :: chars item ++ itemsChars items
  | .object [] => ['\x7b', '\x7d']
  | .object ((name, value) :: members) =>
      '\x7b' :: stringText name ++ ':' :: chars value ++ membersChars members

def itemsChars : List Json → List Char
  | [] => [']']
  | item :: items => ',' :: chars item ++ itemsChars items

def membersChars : List (String × Json) → List Char
  | [] => ['\x7d']
  | (name, value) :: members =>
      ',' :: stringText name ++ ':' :: chars value ++ membersChars members

end

def text (value : Json) : String :=
  String.ofList value.chars

end Json

end RecordPath
