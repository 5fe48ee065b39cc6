import RecordPath.Admission
import RecordPath.Client.Guard
import RecordPath.Client.Native
import RecordPath.Query.Run

namespace RecordPath

abbrev Fields := Members Json

abbrev Answer := Except DocumentError Fields

namespace Client

def context (stamp : Stamp) (now : UInt64) : RecordContext :=
  ⟨stamp.generation, stamp.lastUpdate, now⟩

def nulls (fields : List String) : Fields :=
  Members.ofList (fields.map fun field => (field, .null))

def singlePhase (config : ClientConfig) (key : Key) (fields : List String) (steps : Location)
    (operation : Operation) : Exchange Answer :=
  match fields.mapM fun field => Native.build field steps operation config.listPut with
  | .error e => .done (.error e)
  | .ok operations =>
      if operation.isWrite then
        .write key operations none fun
          | .error e => .done (.error e.classify)
          | .ok _ => .done (.ok (nulls fields))
      else
        .read key operations fun
          | .error e => .done (.error e.classify)
          | .ok view => .done (.ok (Members.ofList (fields.zip view.values)))

def evaluate (residual : Residual) (record : RecordContext) (operation : Operation) :
    List (String × Json) → Except DocumentError (List (String × Json))
  | [] => .ok []
  | (field, subtree) :: rest =>
      match Query.run subtree residual record operation with
      | .error e => .error e
      | .ok output => (evaluate residual record operation rest).map ((field, output) :: ·)

def writeBack (guard : Guard) (steps : Location) (outputs : List (String × Json)) :
    Exchange Answer :=
  match outputs.mapM fun (field, output) => Native.storeSubtree field steps output with
  | .error e => .done (.error e)
  | .ok [] => .done (.ok [])
  | .ok operations =>
      (guard.apply operations).map fun reply => reply.map fun _ => nulls (outputs.map Prod.fst)

def secondPhase (key : Key) (fields : List String) (steps : Location) (residual : Residual)
    (operation : Operation) (view : View) (now : UInt64) : Exchange Answer :=
  let record := context view.stamp now
  match evaluate residual record operation (fields.zip view.values) with
  | .error e => .done (.error e)
  | .ok outputs =>
      if operation.isWrite then writeBack (Guard.capture key view.stamp) steps outputs
      else .done (.ok (Members.ofList outputs))

def twoPhase (key : Key) (fields : List String) (steps : Location) (residual : Residual)
    (operation : Operation) : Exchange Answer :=
  match fields.mapM fun field => Native.fetch field steps operation with
  | .error e => .done (.error e)
  | .ok fetches =>
      .read key fetches fun
        | .error e => .done (.error e.classify)
        | .ok view => .now fun now => secondPhase key fields steps residual operation view now

/-- Nothing is sent for a path that does not hold up, nor for no fields. -/
def execute (config : ClientConfig) (key : Key) (fields : List String) (path : String)
    (operation : Operation) : Exchange Answer :=
  match Path.compile path with
  | .error e => .done (.error e)
  | .ok compiled =>
      match Query.checkWritable compiled operation with
      | .error e => .done (.error e)
      | .ok () =>
          if fields = [] then .done (.ok [])
          else
            match compiled.residual with
            | none => singlePhase config key fields compiled.native operation
            | some residual => twoPhase key fields compiled.native residual operation

def get (config : ClientConfig) (key : Key) (fields : List String) (path : String) :
    Exchange Answer :=
  execute config key fields path .get

def getOne (config : ClientConfig) (key : Key) (field path : String) :
    Exchange (Except DocumentError Json) :=
  (get config key [field] path).map fun answer =>
    answer.map fun values => (Members.get? field values).getD .null

def done (answer : Answer) : Except DocumentError Unit :=
  answer.map fun _ => ()

/-- The value is admitted before the path is looked at. -/
def change (config : ClientConfig) (key : Key) (fields : List String) (path : String)
    (shape : Shape) (operation : Json → Operation) : Exchange (Except DocumentError Unit) :=
  match shape.accept with
  | .error e => .done (.error e)
  | .ok value => (execute config key fields path (operation value)).map done

def put (config : ClientConfig) (key : Key) (fields : List String) (path : String)
    (shape : Shape) : Exchange (Except DocumentError Unit) :=
  change config key fields path shape .put

def append (config : ClientConfig) (key : Key) (fields : List String) (path : String)
    (shape : Shape) : Exchange (Except DocumentError Unit) :=
  change config key fields path shape .append

def delete (config : ClientConfig) (key : Key) (fields : List String) (path : String) :
    Exchange (Except DocumentError Unit) :=
  (execute config key fields path .delete).map done

end Client

end RecordPath
