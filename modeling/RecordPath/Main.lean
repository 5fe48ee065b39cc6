import RecordPath.CommandLine.Run
import Std.Time.DateTime.Timestamp

namespace RecordPath.CommandLine

def usage : String :=
  "Usage: recordpath [SETTINGS] <get PATH | put PATH VALUE | append PATH VALUE | delete PATH | "
    ++ "batch FILE>\n\n"
    ++ "  -d, --document FILE  document to load into the record\n"
    ++ "  -f, --field NAME     field of the record for the document, doc if not set\n"
    ++ "  -k, --key KEY        user key of the record, 1 if not set\n"
    ++ "  -c, --config FILE    settings of the client\n"
    ++ "  -h, --help           this text\n"
    ++ "  -V, --version        the version"

def Command.files : Command → List String
  | .batch file => [file]
  | _ => []

def Invocation.fileNames (invocation : Invocation) : List String :=
  invocation.config.toList ++ invocation.document.toList ++ invocation.command.files

def readFiles : List String → IO (List (String × String))
  | [] => return []
  | file :: rest => do
      let texts ← readFiles rest
      try
        let text ← IO.FS.readFile file
        return (file, text) :: texts
      catch _ => return texts

def clock : IO UInt64 := do
  let now ← Std.Time.Timestamp.now
  return UInt64.ofNat now.toMillisecondsSinceUnixEpoch.val.toNat

def execute (invocation : Invocation) : IO UInt32 := do
  let texts ← readFiles invocation.fileNames
  match invocation.run (fun file => texts.lookup file) (← clock) with
  | .ok output =>
      IO.println output.text
      return 0
  | .error fault =>
      IO.eprintln ("error: " ++ fault.message)
      return 1

end RecordPath.CommandLine

open RecordPath.CommandLine in
def main (arguments : List String) : IO UInt32 := do
  match read arguments with
  | .run invocation => execute invocation
  | .help =>
      IO.println usage
      return 0
  | .version =>
      IO.println "recordpath 0.1.0"
      return 0
  | .refused =>
      IO.eprintln usage
      return 2
