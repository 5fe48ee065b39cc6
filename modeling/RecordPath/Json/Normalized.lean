import RecordPath.Json.Location
import RecordPath.Text.Quoted
import RecordPath.Text.Blank

namespace RecordPath

namespace Step

def normalized : Step → List Char
  | .key name => '[' :: Text.quoted '\x27' name.toList ++ [']']
  | .index i => '[' :: Text.natural i ++ [']']

def ofBracket? : List Char → Option (Step × List Char)
  | [] => none
  | c :: rest =>
      if c = '\x27' ∨ c = '\x22' then
        match Text.unquote? true c rest with
        | some (name, ']' :: after) => some (.key (String.ofList name), after)
        | _ => none
      else
        match Text.index? ((c :: rest).takeWhile Char.isDigit),
          (c :: rest).dropWhile Char.isDigit with
        | some i, ']' :: after => some (.index i, after)
        | _, _ => none

def isBareEnd (c : Char) : Bool :=
  c = '.' || c = '['

def ofDot? (cs : List Char) : Option (Step × List Char) :=
  match cs.takeWhile fun c => !isBareEnd c with
  | [] => none
  | name => some (.key (String.ofList name), cs.dropWhile fun c => !isBareEnd c)

theorem length_ofBracket?_lt {cs after : List Char} {step : Step}
    (h : ofBracket? cs = some (step, after)) : after.length < cs.length := by
  cases cs with
  | nil => cases h
  | cons c rest =>
      simp only [ofBracket?] at h
      split at h
      · split at h
        · rename_i hq
          cases h
          have := Text.length_unquote?_lt hq
          simp only [List.length_cons] at *
          omega
        · cases h
      · split at h
        · rename_i hd
          cases h
          have := Text.length_dropWhile_le Char.isDigit (c :: rest)
          rw [hd] at this
          simp only [List.length_cons] at *
          omega
        · cases h

theorem length_ofDot?_le {cs after : List Char} {step : Step}
    (h : ofDot? cs = some (step, after)) : after.length ≤ cs.length := by
  unfold ofDot? at h
  split at h
  · cases h
  · cases h
    exact Text.length_dropWhile_le _ cs

end Step

namespace Location

def normalized (location : Location) : List Char :=
  '$' :: location.flatMap Step.normalized

def ofSteps? : List Char → Option Location
  | [] => some []
  | '.' :: '[' :: rest => ofSteps? ('[' :: rest)
  | '.' :: rest =>
      match _ : Step.ofDot? rest with
      | some (step, after) => (ofSteps? after).map (step :: ·)
      | none => none
  | '[' :: rest =>
      match _ : Step.ofBracket? rest with
      | some (step, after) => (ofSteps? after).map (step :: ·)
      | none => none
  | _ => none
termination_by cs => cs.length
decreasing_by
  · simp only [List.length_cons]
    omega
  · rename_i h
    have := Step.length_ofDot?_le h
    simp only [List.length_cons]
    omega
  · rename_i h
    have := Step.length_ofBracket?_lt h
    simp only [List.length_cons]
    omega

def ofNormalized? : List Char → Option Location
  | '$' :: rest => ofSteps? rest
  | _ => none

end Location

end RecordPath
