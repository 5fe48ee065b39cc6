/-!
Reading a command line: a command with its operands, and settings that stand before or after the
command, each at most once on either side. A setting after the command wins over the same one
before it. What stands after `--` is an operand whatever it looks like, and until then a dash in
front makes a setting of everything but the lone dash.
-/

namespace RecordPath.CommandLine

inductive Setting where
  | document
  | field
  | key
  | config
  deriving DecidableEq, Repr

namespace Setting

def letter : Setting → Char
  | .document => 'd'
  | .field => 'f'
  | .key => 'k'
  | .config => 'c'

def word : Setting → String
  | .document => "document"
  | .field => "field"
  | .key => "key"
  | .config => "config"

def all : List Setting :=
  [.document, .field, .key, .config]

def ofLetter? (c : Char) : Option Setting :=
  all.find? fun setting => setting.letter = c

def ofWord? (word : String) : Option Setting :=
  all.find? fun setting => setting.word = word

def accepts : Setting → String → Bool
  | .document, value => !value.isEmpty
  | .config, value => !value.isEmpty
  | _, _ => true

end Setting

abbrev Given := List (Setting × String)

def Given.add? (given : Given) (setting : Setting) (value : String) : Option Given :=
  if (given.lookup setting).isSome || !setting.accepts value then none
  else some ((setting, value) :: given)

inductive Command where
  | get (path : String)
  | put (path value : String)
  | append (path value : String)
  | delete (path : String)
  | batch (file : String)
  deriving DecidableEq, Repr

inductive Verb where
  | get
  | put
  | append
  | delete
  | batch
  deriving DecidableEq, Repr

namespace Verb

def ofName? : String → Option Verb
  | "get" => some .get
  | "put" => some .put
  | "append" => some .append
  | "delete" => some .delete
  | "batch" => some .batch
  | _ => none

def arity : Verb → Nat
  | .put => 2
  | .append => 2
  | _ => 1

def accepts : Verb → String → Bool
  | .batch, file => !file.isEmpty
  | _, _ => true

def command? : Verb → List String → Option Command
  | .get, [path] => some (.get path)
  | .put, [path, value] => some (.put path value)
  | .append, [path, value] => some (.append path value)
  | .delete, [path] => some (.delete path)
  | .batch, [file] => some (.batch file)
  | _, _ => none

theorem length_of_command? {verb : Verb} {operands : List String} {command : Command}
    (h : verb.command? operands = some command) : operands.length = verb.arity := by
  unfold command? at h
  split at h <;> cases h <;> rfl

end Verb

structure Invocation where
  command : Command
  document : Option String
  field : String
  key : String
  config : Option String
  deriving DecidableEq, Repr

inductive Reading where
  | run (invocation : Invocation)
  | help
  | version
  | refused
  deriving DecidableEq, Repr

inductive Argument where
  | operand
  | endOfSettings
  | help
  | version
  | setting (setting : Setting) (value : Option String)
  | unknown
  deriving DecidableEq, Repr

namespace Argument

def long (cs : List Char) : Argument :=
  let name := String.ofList (cs.takeWhile (· != '='))
  let value := match cs.dropWhile (· != '=') with
    | [] => none
    | _ :: value => some (String.ofList value)
  match Setting.ofWord? name, name, value with
  | some s, _, value => .setting s value
  | none, "help", none => .help
  | none, "version", none => .version
  | none, _, _ => .unknown

def attached : List Char → Option String
  | [] => none
  | '=' :: value => some (String.ofList value)
  | value => some (String.ofList value)

def short (c : Char) (rest : List Char) : Argument :=
  match Setting.ofLetter? c with
  | some s => .setting s (attached rest)
  | none => if c = 'h' then .help else if c = 'V' then .version else .unknown

def ofText (argument : String) : Argument :=
  match argument.toList with
  | ['-', '-'] => .endOfSettings
  | '-' :: '-' :: name => long name
  | '-' :: c :: rest => short c rest
  | _ => .operand

end Argument

def invocation (outer inner : Given) (command : Command) : Invocation :=
  let value := fun setting => (inner.lookup setting).or (outer.lookup setting)
  ⟨command, value .document, (value .field).getD "doc", (value .key).getD "1", value .config⟩

def operandsOnly (outer inner : Given) (verb : Verb) (operands : List String) : Reading :=
  match verb.command? operands with
  | some command =>
      if operands.all verb.accepts then .run (invocation outer inner command) else .refused
  | none => .refused

def readInner (outer : Given) (verb : Verb) : Given → List String → List String → Reading
  | inner, operands, [] => operandsOnly outer inner verb operands
  | inner, operands, argument :: rest =>
      match Argument.ofText argument with
      | .operand =>
          if operands.length < verb.arity && verb.accepts argument then
            readInner outer verb inner (operands ++ [argument]) rest
          else .refused
      | .endOfSettings => operandsOnly outer inner verb (operands ++ rest)
      | .help => .help
      | .setting setting (some value) =>
          match inner.add? setting value with
          | some inner => readInner outer verb inner operands rest
          | none => .refused
      | .setting setting none =>
          match rest with
          | value :: rest =>
              if Argument.ofText value = .operand then
                match inner.add? setting value with
                | some inner => readInner outer verb inner operands rest
                | none => .refused
              else .refused
          | [] => .refused
      | .version => .refused
      | .unknown => .refused

def readHelp : List String → Reading
  | [] => .help
  | [name] => if name = "help" || (Verb.ofName? name).isSome then .help else .refused
  | _ => .refused

def readCommand (outer : Given) (name : String) (rest : List String) : Reading :=
  match Verb.ofName? name with
  | some verb => readInner outer verb [] [] rest
  | none => if name = "help" then readHelp rest else .refused

def readOuter : Given → List String → Reading
  | _, [] => .refused
  | outer, argument :: rest =>
      match Argument.ofText argument with
      | .operand => readCommand outer argument rest
      | .help => .help
      | .version => .version
      | .setting setting (some value) =>
          match outer.add? setting value with
          | some outer => readOuter outer rest
          | none => .refused
      | .setting setting none =>
          match rest with
          | value :: rest =>
              if Argument.ofText value = .operand then
                match outer.add? setting value with
                | some outer => readOuter outer rest
                | none => .refused
              else .refused
          | [] => .refused
      | .endOfSettings => .refused
      | .unknown => .refused

def read (arguments : List String) : Reading :=
  readOuter [] arguments

end RecordPath.CommandLine
