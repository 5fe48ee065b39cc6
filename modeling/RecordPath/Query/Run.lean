import RecordPath.Operation
import RecordPath.Json.Normalized
import RecordPath.Path.Compiled
import RecordPath.Query.Aggregate
import RecordPath.Query.Edit
import RecordPath.Query.Reader
import RecordPath.Query.Rendering
import RecordPath.Query.Selection

namespace RecordPath.Query

def nodes (expression : List Char) (subtree : Json) : Except DocumentError (List Node) :=
  match Expression.ofText? expression with
  | some query => .ok (query.select subtree)
  | none => .error (.queryEvaluation (String.ofList expression) .engine)

def values (expression : List Char) (subtree : Json) : Except DocumentError (List Json) :=
  if subtree.isNull then .ok []
  else (nodes expression subtree).map fun found => found.map Prod.snd

def parsedLocation (expression path : List Char) : Except DocumentError Location :=
  match Location.ofNormalized? path with
  | some place => .ok place
  | none =>
      .error (.queryEvaluation (String.ofList expression)
        (.unrecognisedLocation (String.ofList path)))

def locations (expression : List Char) (subtree : Json) : Except DocumentError (List Location) :=
  if subtree.isNull then .ok []
  else
    match nodes expression subtree with
    | .error e => .error e
    | .ok found => found.mapM fun node => parsedLocation expression (Location.normalized node.1)

def nothingMatches (expression : List Char) : DocumentError :=
  .objectNotFound ("nothing matches '" ++ String.ofList expression ++ "'")

def read (subtree : Json) (residual : Residual) (record : RecordContext) :
    Except DocumentError Json :=
  let expression := render record residual.tokens
  match values expression subtree with
  | .error e => .error e
  | .ok found =>
      match residual.function? with
      | none => .ok (.array found)
      | some f =>
          match f.apply found with
          | .ok value => .ok value
          | .error fault => .error (.queryEvaluation (String.ofList expression) fault)

def creation? (tokens : List Token) : Option (Token × List Token) :=
  match tokens.getLast? with
  | none => none
  | some last =>
      let parents := tokens.dropLast
      if parents.getLast?.any Token.isDeepScan then none else some (last, parents)

def setOrAdd (subtree : Json) (residual : Residual) (record : RecordContext) (value : Json) :
    Except DocumentError Json :=
  let expression := render record residual.tokens
  match locations expression subtree with
  | .error e => .error e
  | .ok [] =>
      match creation? residual.tokens with
      | none => .error (nothingMatches expression)
      | some (last, parents) =>
          match locations (render record parents) subtree with
          | .error e => .error e
          | .ok places =>
              match extendAll? value last places subtree with
              | some changed => .ok changed
              | none => .error (nothingMatches expression)
  | .ok places => .ok (replaceAll value places subtree)

def appendError (expression : List Char) : AppendFault → DocumentError
  | .notAList kind => .notAList ("match of '" ++ String.ofList expression ++ "' is a " ++ kind)
  | .disappeared => .objectNotFound ("match of '" ++ String.ofList expression ++ "' disappeared")

def append (subtree : Json) (residual : Residual) (record : RecordContext) (value : Json) :
    Except DocumentError Json :=
  let expression := render record residual.tokens
  match locations expression subtree with
  | .error e => .error e
  | .ok [] => .error (nothingMatches expression)
  | .ok places => (appendAll value places subtree).mapError (appendError expression)

def delete (subtree : Json) (residual : Residual) (record : RecordContext) :
    Except DocumentError Json :=
  (locations (render record residual.tokens) subtree).map fun places => removeAll places subtree

def run (subtree : Json) (residual : Residual) (record : RecordContext) :
    Operation → Except DocumentError Json
  | .get => read subtree residual record
  | .put value => setOrAdd subtree residual record value
  | .append value => append subtree residual record value
  | .delete => delete subtree residual record

/-- A function names no place, and a filter at the end no new one. -/
def checkWritable (path : CompiledPath) (operation : Operation) : Except DocumentError Unit :=
  match path.residual with
  | none => .ok ()
  | some residual =>
      match operation, residual.tokens.getLast? with
      | .get, _ => .ok ()
      | _, some (.function _) => .error (.notWritable path.source)
      | .put _, some (.filter _ _) => .error (.notWritable path.source)
      | .append _, some (.filter _ _) => .error (.notWritable path.source)
      | _, _ => .ok ()

end RecordPath.Query
