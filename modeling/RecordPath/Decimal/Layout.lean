import RecordPath.Decimal.Shortest
import RecordPath.Text.Natural

namespace RecordPath

/-- The powers of ten of the first digit for which the plain form is written. -/
structure Layout where
  plainFrom : Int
  plainTo : Int
  deriving DecidableEq, Repr

namespace Layout

def dropTrailingZeros (ds : List Char) : List Char :=
  (ds.reverse.dropWhile (· == '0')).reverse

def plain (ds : List Char) (leading : Int) : List Char :=
  match leading with
  | .ofNat e =>
      let whole := ds.take (e + 1)
      let missing := List.replicate (e + 1 - ds.length) '0'
      let rest := ds.drop (e + 1)
      whole ++ missing ++ '.' :: (if rest = [] then ['0'] else rest)
  | .negSucc e => '0' :: '.' :: List.replicate e '0' ++ ds

def scientific (ds : List Char) (leading : Int) : List Char :=
  let mark := match leading with
    | .ofNat e => 'e' :: '+' :: Text.natural e
    | .negSucc e => 'e' :: '-' :: Text.natural (e + 1)
  match ds with
  | [] => mark
  | [d] => d :: mark
  | d :: rest => d :: '.' :: rest ++ mark

def decimal (layout : Layout) (d : Decimal) : List Char :=
  if d.digits = 0 then ['0', '.', '0']
  else
    let all := Text.natural d.digits
    let leading := d.exponent + all.length - 1
    let ds := dropTrailingZeros all
    if layout.plainFrom ≤ leading ∧ leading ≤ layout.plainTo then plain ds leading
    else scientific ds leading

def bits? (layout : Layout) (format : BinaryFormat) (bits : Nat) : Option (List Char) :=
  let magnitude := bits % format.signBit
  if magnitude < format.infinite then
    let digits := layout.decimal (Decimal.shortest format magnitude)
    some (if bits < format.signBit then digits else '-' :: digits)
  else none

end Layout

end RecordPath
