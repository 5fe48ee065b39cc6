import RecordPath.Filter.Predicate
import RecordPath.Json.Printer
import RecordPath.Path.Name

namespace RecordPath

namespace Operand

def chars (record : RecordContext) : Operand → List Char
  | .path steps => Path.relative steps
  | .literal value => value.chars
  | .recordField field => Text.natural (record.value field)

end Operand

namespace Predicate

def chars (record : RecordContext) : Predicate → List Char
  | .compare left op right =>
      left.chars record ++ ' ' :: op.symbol.toList ++ ' ' :: right.chars record
  | .present path => Path.relative path
  | .not inner => '!' :: '(' :: chars record inner ++ [')']
  | .and left right => '(' :: chars record left ++ " && ".toList ++ chars record right ++ [')']
  | .or left right => '(' :: chars record left ++ " || ".toList ++ chars record right ++ [')']
  | .quantified .any path condition =>
      Path.relative path ++ '[' :: '?' :: chars record condition ++ [']']
  | .quantified .all path condition =>
      '!' :: Path.relative path ++ '[' :: '?' :: '!' :: '(' :: chars record condition ++ [')', ']']

def text (record : RecordContext) (p : Predicate) : String :=
  String.ofList (p.chars record)

section Append

variable (record : RecordContext) (p q : Predicate) (path : Location) (rest : List Char)

theorem chars_compare_append (left : Operand) (op : Comparison) (right : Operand) :
    chars record (.compare left op right) ++ rest =
      left.chars record ++ ' ' :: (op.symbol.toList ++ ' ' :: (right.chars record ++ rest)) := by
  change left.chars record ++ ' ' :: op.symbol.toList ++ ' ' :: right.chars record ++ rest = _
  simp

theorem chars_not_append :
    chars record (.not p) ++ rest = '!' :: '(' :: (chars record p ++ ')' :: rest) := by
  change '!' :: '(' :: chars record p ++ [')'] ++ rest = _
  simp

theorem chars_and_append : chars record (.and p q) ++ rest =
    '(' :: (chars record p ++ ' ' :: '&' :: '&' :: ' ' :: (chars record q ++ ')' :: rest)) := by
  change '(' :: chars record p ++ " && ".toList ++ chars record q ++ [')'] ++ rest = _
  simp

theorem chars_or_append : chars record (.or p q) ++ rest =
    '(' :: (chars record p ++ ' ' :: '|' :: '|' :: ' ' :: (chars record q ++ ')' :: rest)) := by
  change '(' :: chars record p ++ " || ".toList ++ chars record q ++ [')'] ++ rest = _
  simp

theorem chars_any_append : chars record (.quantified .any path p) ++ rest =
    '@' :: (path.flatMap Path.step ++ '[' :: '?' :: (chars record p ++ ']' :: rest)) := by
  change '@' :: path.flatMap Path.step ++ '[' :: '?' :: chars record p ++ [']'] ++ rest = _
  simp

theorem chars_all : chars record (.quantified .all path p) =
    '!' :: chars record (.quantified .any path (.not p)) := by
  change '!' :: Path.relative path ++ '[' :: '?' :: '!' :: '(' :: chars record p ++ [')', ']'] =
    '!' :: (Path.relative path ++ '[' :: '?' :: ('!' :: '(' :: chars record p ++ [')']) ++ [']'])
  simp

end Append

end Predicate

end RecordPath
