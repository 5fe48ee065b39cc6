namespace RecordPath

structure Key where
  space : String
  set : String
  user : String
  deriving DecidableEq, Repr

namespace Key

def text (key : Key) : String :=
  key.space ++ "/" ++ key.set ++ "/" ++ key.user

end Key

end RecordPath
