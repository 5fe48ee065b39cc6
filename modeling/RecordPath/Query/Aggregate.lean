import RecordPath.Error

namespace RecordPath

namespace AggregateFunction

/-- Sums start from minus zero, which no number changes. -/
def sum (xs : List Float) : Float :=
  xs.foldl (· + ·) (-0.0)

def mean (xs : List Float) : Float :=
  sum xs / Float.ofNat xs.length

def variance (xs : List Float) : Float :=
  let center := mean xs
  sum (xs.map fun x => (x - center) * (x - center)) / Float.ofNat xs.length

def lengthOf : List Json → Nat
  | [.array items] => items.length
  | [.object members] => members.length
  | [.string s] => s.length
  | values => values.length

def spread : List Json → List Json
  | [.array items] => items
  | values => values

def extreme (before : Float → Float → Bool) (best : Json × Float) : List (Json × Float) → Json
  | [] => best.1
  | next :: rest => extreme before (if before next.2 best.2 then next else best) rest

def toNumber (f : AggregateFunction) (value : Json) : Except QueryFault Float :=
  match value with
  | .number n => .ok n.toFloat
  | _ => .error (.needsNumbers f value)

def toNumbers (f : AggregateFunction) : List Json → Except QueryFault (List (Json × Float))
  | [] => .ok []
  | value :: values =>
      match f.toNumber value with
      | .error fault => .error fault
      | .ok x => (f.toNumbers values).map ((value, x) :: ·)

def finite (x : Float) : Except QueryFault Json :=
  if x.isFinite then .ok (.number (.float x)) else .error .notFinite

def apply (f : AggregateFunction) (values : List Json) : Except QueryFault Json :=
  match f with
  | .length => .ok (.nat (lengthOf values))
  | _ =>
      match f.toNumbers (spread values) with
      | .error fault => .error fault
      | .ok [] => .error (.emptySelection f)
      | .ok (first :: rest) =>
          let xs := (first :: rest).map Prod.snd
          match f with
          | .min => .ok (extreme (fun a b => a < b) first rest)
          | .max => .ok (extreme (fun a b => b < a) first rest)
          | .avg => finite (mean xs)
          | _ => finite (variance xs).sqrt

end AggregateFunction

end RecordPath
