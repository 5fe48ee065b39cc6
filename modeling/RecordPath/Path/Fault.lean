import RecordPath.Filter.Fault

/-!
Why a text is no path. Offsets count characters from the start of the path.
-/

namespace RecordPath

inductive PathFault where
  | unexpectedCharacter (c : Char) (offset : Nat)
  | scanWithoutStep
  | functionAfterScan
  | functionNotLast
  | emptySegment (offset : Nat)
  | functionArguments (name : String)
  | unknownFunction (name : String)
  | filterOpening
  | filterClosing
  | filter (fault : FilterFault)
  | unclosedFilter
  | unclosedBracket (offset : Nat)
  | invalidIndex (content : String)
  /-- A step that needs a query, in a path without the mark of one. -/
  | unmarkedQuery
  /-- A step that needs a query, in the part before the first mark of one. -/
  | queryBeforeMark (part : String)
  | residual (expression : String) (fault : PathFault)
  deriving DecidableEq, Repr

namespace PathFault

def located (path message : String) : String :=
  s!"Path format error in '{path}': {message}"

def message : PathFault → String
  | .unexpectedCharacter c offset => s!"unexpected '{c}' at offset {offset}"
  | .scanWithoutStep => "'..' must be followed by a name, '*' or '['"
  | .functionAfterScan => "a function cannot follow '..'"
  | .functionNotLast => "a function must be the last step"
  | .emptySegment offset => s!"empty segment at offset {offset}"
  | .functionArguments name => s!"function '{name}' takes no arguments"
  | .unknownFunction name => s!"unknown function '{name}()'"
  | .filterOpening => "filter must be written as [?( ... )]"
  | .filterClosing => "filter must end with ')]'"
  | .filter fault => "bad filter: " ++ fault.message
  | .unclosedFilter => "unterminated filter"
  | .unclosedBracket offset => s!"unterminated '[' at offset {offset}"
  | .invalidIndex content => s!"invalid list index '[{content}]'"
  | .unmarkedQuery => "query step without a recognised marker"
  | .queryBeforeMark part => s!"prefix '{part}' must contain only map and list steps"
  | .residual expression fault => located expression fault.message

end PathFault

end RecordPath
