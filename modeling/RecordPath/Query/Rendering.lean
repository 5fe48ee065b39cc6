import RecordPath.Filter.Rendering
import RecordPath.Path.Token

namespace RecordPath

namespace Token

def query (record : RecordContext) (afterScan : Bool) : Token → List Char
  | .key name =>
      if Path.isBare name.toList then
        if afterScan then name.toList else '.' :: name.toList
      else Path.bracketed name.toList
  | .index i => Path.bracketedIndex i
  | .wildcard => if afterScan then ['*'] else ['.', '*']
  | .listWildcard => ['[', '*', ']']
  | .deepScan => ['.', '.']
  | .filter _ predicate => "[?(".toList ++ predicate.chars record ++ ")]".toList
  | .function _ => []

end Token

namespace Query

def renderFrom (record : RecordContext) : Bool → List Token → List Char
  | _, [] => []
  | afterScan, token :: rest =>
      token.query record afterScan ++ renderFrom record token.isDeepScan rest

def render (record : RecordContext) (tokens : List Token) : List Char :=
  '$' :: renderFrom record false tokens

def renderText (record : RecordContext) (tokens : List Token) : String :=
  String.ofList (render record tokens)

end Query

end RecordPath
