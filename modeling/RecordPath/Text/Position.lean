import RecordPath.Text.Natural

namespace RecordPath.Text

def lineMark : List Char :=
  " at line ".toList

def columnMark : List Char :=
  " column ".toList

def position? (cs : List Char) : Option (Nat × Nat) :=
  let (line, rest) := cs.span Char.isDigit
  match columnMark.isPrefixOf? rest with
  | none => none
  | some column =>
      match index? line, index? column with
      | some line, some column => some (line, column)
      | _, _ => none

def splitPosition? : List Char → Option (List Char × Nat × Nat)
  | [] => none
  | c :: cs =>
      match lineMark.isPrefixOf? (c :: cs) with
      | some rest => (position? rest).map fun place => ([], place)
      | none => (splitPosition? cs).map fun (before, place) => (c :: before, place)

/-- A position in line 0 stands for none. -/
def restated (message : String) : String :=
  match splitPosition? message.toList with
  | none => message
  | some (before, 0, _) => String.ofList before
  | some (before, line, column) =>
      String.ofList (before ++ lineMark ++ natural line ++ columnMark ++ natural column)

end RecordPath.Text
