import Imperative.CommandLine

/-! The program itself: reads the file or directory named on the command line and runs it. -/

namespace Imperative

/-- Reads a file. -/
def readContent (path : String) : IO Content := do
  try
    return .ofBytes (← IO.FS.readBinFile path)
  catch
    | .noFileOrDirectory .. => return .error .missing
    | .inappropriateType .. => return .error .notADirectory
    | e => return .error (.other (toString e))

/-- Reads what stands at a path; of a directory, the files whose names are wanted. -/
def readTarget (wanted : String → Bool) (path : String) : IO Target := do
  let place := (← IO.currentDir) / path
  if path.isEmpty || !(← place.isDir) then return .file (← readContent path)
  let mut entries : List (String × Entry) := []
  for item in ← place.readDir do
    if wanted item.fileName && (← item.path.symlinkMetadata).type == .file then
      entries := (item.fileName, .file (← readContent item.path.toString)) :: entries
  return .directory entries

/-- How the program is called. -/
def usage : String := "usage: [-a | --ast] [-e EXTENSION | --extension=EXTENSION] [--] PATH"

end Imperative

/-- Does what the arguments ask for. -/
def main (arguments : List String) : IO UInt32 := do
  match Imperative.CommandLine.parseArguments arguments with
  | .refused =>
    IO.eprintln Imperative.usage
    return 2
  | .help =>
    IO.println Imperative.usage
    return 0
  | .version =>
    IO.println "while-lang 0.1.0"
    return 0
  | .run options path =>
    let wanted := fun name => Imperative.CommandLine.extension? name == some options.extension
    let target ← Imperative.readTarget wanted path
    let report := Imperative.CommandLine.runTarget Imperative.ample options path target
    IO.print report.stdout
    IO.eprint report.stderr
    return report.exit.code.toUInt32
