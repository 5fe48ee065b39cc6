import RecordPath.Json.Location
import RecordPath.Path.Token

namespace RecordPath

namespace Json

def removeChild (value : Json) : Step → Json
  | .key name =>
      match value with
      | .object members => .object (Members.erase name members)
      | _ => value
  | .index i =>
      match value with
      | .array items => .array (items.eraseIdx i)
      | _ => value

def remove : Location → Json → Json
  | [], value => value.emptied?.getD .null
  | [step], value => value.removeChild step
  | step :: next :: rest, value =>
      match value.child? step with
      | some child => setChild (remove (next :: rest) child) value step
      | none => value

end Json

namespace Query

def replaceAll (value : Json) (places : List Location) (document : Json) : Json :=
  places.foldl (fun document place => document.update (fun _ => value) place) document

def extended? (value : Json) : Token → Json → Option Json
  | .key name, .object members => some (.object (Members.insert name value members))
  | .index i, .array items => if items.length ≤ i then some (.array (items ++ [value])) else none
  | _, _ => none

def extendAll? (value : Json) (last : Token) : List Location → Json → Option Json
  | [], _ => none
  | place :: places, document =>
      match (document.get? place).bind (extended? value last) with
      | some container =>
          let document := document.update (fun _ => container) place
          some ((extendAll? value last places document).getD document)
      | none => extendAll? value last places document

inductive AppendFault where
  | notAList (kind : String)
  | disappeared
  deriving DecidableEq, Repr

def appendAll (value : Json) : List Location → Json → Except AppendFault Json
  | [], document => .ok document
  | place :: places, document =>
      match document.get? place with
      | some (.array items) =>
          appendAll value places (document.update (fun _ => .array (items ++ [value])) place)
      | some other => .error (.notAList other.kind)
      | none => .error .disappeared

def enter (place : Location) : List Location → List Location
  | [] => [place]
  | other :: places =>
      if place = other then other :: places
      else if other.before place then place :: other :: places
      else other :: enter place places

/-- In falling order a removal leaves the places still to come where they are. -/
def falling (places : List Location) : List Location :=
  places.foldr enter []

def removeAll (places : List Location) (document : Json) : Json :=
  (falling places).foldl (fun document place => document.remove place) document

end Query

end RecordPath
