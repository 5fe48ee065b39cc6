import RecordPath.Path.Tokenizer

namespace RecordPath

structure Residual where
  expression : String
  tokens : List Token
  deriving DecidableEq, Repr

namespace Residual

def function? (residual : Residual) : Option AggregateFunction :=
  match residual.tokens.getLast? with
  | some (.function f) => some f
  | _ => none

end Residual

structure CompiledPath where
  source : String
  native : Location
  residual : Option Residual
  deriving DecidableEq, Repr

namespace CompiledPath

def needsQuery (path : CompiledPath) : Bool :=
  path.residual.isSome

def isRoot (path : CompiledPath) : Bool :=
  path.native.isEmpty && path.residual.isNone

end CompiledPath

namespace Path

def marks : List (List Char) :=
  ["[*]", "..", "[?", ".*"].map String.toList
    ++ AggregateFunction.all.map fun f => (Token.function f).chars

def startsMark (cs : List Char) : Bool :=
  marks.any fun mark => mark.isPrefixOf cs

def splitAtMark : List Char → Option (List Char × List Char)
  | [] => none
  | c :: rest =>
      if startsMark (c :: rest) then some ([], c :: rest)
      else (splitAtMark rest).map (keep c)

theorem splitAtMark_append {cs before after : List Char}
    (h : splitAtMark cs = some (before, after)) : before ++ after = cs := by
  induction cs generalizing before with
  | nil => cases h
  | cons c rest ih =>
      simp only [splitAtMark] at h
      split at h
      · cases h; rfl
      · obtain ⟨⟨b, a⟩, hs, he⟩ := Option.map_eq_some_iff.1 h
        cases he
        simp [ih hs]

def rooted (cs : List Char) : String :=
  String.ofList ('$' :: cs)

/-- The whole path is read first, so that a fault is reported where it was written. -/
def compile (path : String) : Except DocumentError CompiledPath :=
  match path.toList with
  | '$' :: rest =>
      match readSteps rest with
      | .error fault => .error (.pathFormat path fault)
      | .ok tokens =>
          match splitAtMark rest with
          | none =>
              match tokens.mapM Token.step? with
              | some native => .ok ⟨path, native, none⟩
              | none => .error (.pathFormat path .unmarkedQuery)
          | some (before, after) =>
              match readSteps before with
              | .error fault => .error (.pathFormat (rooted before) fault)
              | .ok start =>
                  match start.mapM Token.step? with
                  | none => .error (.pathFormat path (.queryBeforeMark (rooted before)))
                  | some native =>
                      match readSteps after with
                      | .error fault =>
                          .error (.pathFormat path (.residual (rooted after) fault))
                      | .ok residual => .ok ⟨path, native, some ⟨rooted after, residual⟩⟩
  | _ => .error (.rootMissing path)

end Path

end RecordPath
