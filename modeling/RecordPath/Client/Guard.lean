import RecordPath.Store.Exchange

namespace RecordPath

structure Guard where
  key : Key
  expected : UInt32
  deriving DecidableEq, Repr

namespace Guard

def capture (key : Key) (stamp : Stamp) : Guard :=
  ⟨key, stamp.generation⟩

def request (guard : Guard) (operations : List FieldOperation) : WriteRequest :=
  .operate guard.key operations (some guard.expected)

def apply (guard : Guard) (operations : List FieldOperation) :
    Exchange (Except DocumentError View) :=
  .write guard.key operations (some guard.expected) fun reply =>
    .done (reply.mapError StoreError.classify)

end Guard

end RecordPath
