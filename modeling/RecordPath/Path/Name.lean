import RecordPath.Json.Location
import RecordPath.Text.Quoted

namespace RecordPath.Path

def isBareStart (c : Char) : Bool :=
  c.isAlpha || c = '_' || 0x80 ≤ c.toNat

def isBareCharacter (c : Char) : Bool :=
  isBareStart c || c.isDigit

def isBare : List Char → Bool
  | [] => false
  | c :: rest => isBareStart c && rest.all isBareCharacter

def bracketed (name : List Char) : List Char :=
  '[' :: Text.quotedByNumber '\x27' name ++ [']']

def bracketedIndex (i : Nat) : List Char :=
  '[' :: Text.natural i ++ [']']

def step : Step → List Char
  | .key name => if isBare name.toList then '.' :: name.toList else bracketed name.toList
  | .index i => bracketedIndex i

def relative (steps : Location) : List Char :=
  '@' :: steps.flatMap step

end RecordPath.Path
