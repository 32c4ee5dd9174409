import Imperative.FileTree
import Imperative.Program

/-! The command line: runs the program in a file, or every program directly inside a directory in
the order of the file names.  A source that is no program is reported and passed over; an error of a
program, or a file that cannot be read, ends the run. -/

namespace Imperative.CommandLine

/-- The choices of the user. -/
structure Options where
  /-- Whether the canonical text of each program is shown before its output. -/
  showTree : Bool
  /-- The extension of the files that are run in a directory. -/
  extension : String
deriving DecidableEq, Repr

/-- The extension of files with programs. -/
def usualExtension : String := "while"

/-- How the process ends. -/
inductive Exit where
  | success
  | failure
  /-- The bound of a program was too small. -/
  | unfinished
deriving DecidableEq, Repr

/-- The exit code of the process. -/
def Exit.code : Exit → Nat
  | success => 0
  | failure | unfinished => 1

/-- What was written and how it ended. -/
structure Report where
  exit : Exit
  stdout : String
  stderr : String
deriving DecidableEq, Repr

/-- The report of doing nothing. -/
def Report.empty : Report := ⟨.success, "", ""⟩

/-- One report after another. -/
def Report.andThen (first second : Report) : Report :=
  ⟨second.exit, first.stdout ++ second.stdout, first.stderr ++ second.stderr⟩

/-- The line before a program. -/
def banner (path : String) : String := "*** Running " ++ path ++ " ***\n"

/-- The line after a program. -/
def trailer : String := "---------------\n"

/-- The report of a file that cannot be read. -/
def unreadable (path : String) (e : ReadFailure) : Report :=
  ⟨.failure, "", "failed to read " ++ path ++ ": " ++ e.reason ++ "\n"⟩

/-- The report of a run of the program at a path. -/
def report (options : Options) (path : String) : Ending → Report
  | .completed rendering output =>
    let shown := if options.showTree then rendering ++ "\n" else ""
    ⟨.success, banner path ++ shown ++ output ++ trailer, ""⟩
  | .rejected e => ⟨.success, banner path ++ trailer, path ++ ": " ++ e.message ++ "\n"⟩
  | .aborted e output => ⟨.failure, banner path ++ output, path ++ ": " ++ e.message ++ "\n"⟩
  | .unfinished => ⟨.unfinished, banner path, ""⟩

/-- Runs one file. -/
def runFile (bound : Nat) (options : Options) (path : String) : Content → Report
  | .ok source => report options path (run bound source)
  | .error e => unreadable path e

/-- Runs files in order, up to the first that does not succeed. -/
def runFiles (bound : Nat) (options : Options) : List (String × Content) → Report
  | [] => .empty
  | (path, content) :: files =>
    let first := runFile bound options path content
    if first.exit = .success then first.andThen (runFiles bound options files) else first

/-- The extension of a file name: what follows its last dot, if that is not its first character. -/
def extension? (name : String) : Option String :=
  let backwards := name.toList.reverse
  match backwards.dropWhile (· != '.') with
  | _ :: _ :: _ => some (String.ofList (backwards.takeWhile (· != '.')).reverse)
  | _ => none

/-- The files among the entries of a directory that have the extension, in the order of their names.
-/
def sources (extension : String) (entries : List (String × Entry)) : List (String × Content) :=
  let files := entries.filterMap fun (name, entry) =>
    match entry with
    | .file content => if extension? name = some extension then some (name, content) else none
    | .directory => none
  files.mergeSort fun a b => decide (a.1 ≤ b.1)

/-- The path of a name inside a directory. -/
def join (directory name : String) : String :=
  if directory.toList.getLast? = some '/' then directory ++ name else directory ++ "/" ++ name

/-- Runs what a path leads to. -/
def runTarget (bound : Nat) (options : Options) (path : String) : Target → Report
  | .directory entries =>
    runFiles bound options <|
      (sources options.extension entries).map fun (name, content) => (join path name, content)
  | .file content => runFile bound options path content

/-- Runs the program or programs at a path of a file tree. -/
def runPath (bound : Nat) (tree : FileTree) (options : Options) (path : String) : Report :=
  runTarget bound options path (tree.target path)

/-! ### Arguments of the process -/

/-- What the arguments of the process ask for. -/
inductive Request where
  /-- To run what a path leads to. -/
  | run (options : Options) (path : String)
  /-- To explain the options. -/
  | help
  /-- To tell the version. -/
  | version
  /-- Nothing that can be done. -/
  | refused
deriving DecidableEq, Repr

/-- What the arguments have said so far. -/
structure Given where
  showTree : Bool
  extension : Option String
  path : Option String
  /-- Whether the extension is the next argument. -/
  isWaiting : Bool
  /-- Whether a double dash has ended the options. -/
  isEnded : Bool
deriving DecidableEq, Repr

namespace Given

/-- Nothing was said. -/
def nothing : Given := ⟨false, none, none, false, false⟩

/-- Asks for canonical text, which may be done once. -/
def withTree (g : Given) : Except Request Given :=
  if g.showTree then .error .refused else .ok { g with showTree := true }

/-- Names the extension, which may be done once. -/
def withExtension (extension : List Char) (g : Given) : Except Request Given :=
  if g.extension.isSome then .error .refused
  else .ok { g with extension := some (String.ofList extension), isWaiting := false }

/-- Names the path, which may be done once and not by an empty text. -/
def withPath (path : String) (g : Given) : Except Request Given :=
  if path.isEmpty || g.path.isSome then .error .refused else .ok { g with path := some path }

/-- Reads an option that is spelled out, with the value behind an equals sign if there is one. -/
def withLong (name : String) (value : Option (List Char)) (g : Given) : Except Request Given :=
  match name, value with
  | "ast", none => g.withTree
  | "extension", some extension => g.withExtension extension
  | "extension", none => .ok { g with isWaiting := true }
  | "help", none => .error .help
  | "version", none => .error .version
  | _, _ => .error .refused

/-- Reads the letters behind a single dash.  What follows an `e` is the extension. -/
def withLetters : List Char → Given → Except Request Given
  | [], g => .ok g
  | 'a' :: letters, g => g.withTree.bind (withLetters letters)
  | ['e'], g => .ok { g with isWaiting := true }
  | 'e' :: '=' :: extension, g => g.withExtension extension
  | 'e' :: extension, g => g.withExtension extension
  | 'h' :: _, _ => .error .help
  | 'V' :: _, _ => .error .version
  | _ :: _, _ => .error .refused

/-- Reads one argument.  No option can be the value of another one, and a lone dash is no option. -/
def read (g : Given) (argument : String) : Except Request Given :=
  if g.isEnded then g.withPath argument
  else match argument.toList with
    | ['-', '-'] => .ok { g with isEnded := true }
    | '-' :: '-' :: cs =>
      if g.isWaiting then .error .refused
      else g.withLong (String.ofList (cs.takeWhile (· != '='))) (cs.dropWhile (· != '=')).tail?
    | '-' :: c :: cs => if g.isWaiting then .error .refused else g.withLetters (c :: cs)
    | cs => if g.isWaiting then g.withExtension cs else g.withPath argument

end Given

/-- What the arguments of the process ask for: a path, with options before or behind it.  A double
dash ends the options. -/
def parseArguments (arguments : List String) : Request :=
  match arguments.foldlM Given.read .nothing with
  | .error request => request
  | .ok g =>
    match g.isWaiting, g.path with
    | false, some path => .run ⟨g.showTree, g.extension.getD usualExtension⟩ path
    | _, _ => .refused

/-- The arguments that ask for a run, all options spelled out. -/
def Options.arguments (options : Options) (path : String) : List String :=
  (if options.showTree then ["--ast"] else []) ++ ["--extension=" ++ options.extension, "--", path]

theorem Given.read_extension {g : Given} (hended : g.isEnded = false)
    (hwaiting : g.isWaiting = false) (extension : String) :
    g.read ("--extension=" ++ extension) = g.withExtension extension.toList := by
  have htext : ("--extension=" ++ extension).toList =
      '-' :: '-' :: ("extension".toList ++ '=' :: extension.toList) := by
    simp
  simp [read, hended, hwaiting, htext, withLong]

/-- Every run can be asked for. -/
theorem parseArguments_arguments (options : Options) {path : String} (hpath : path ≠ "") :
    parseArguments (options.arguments path) = .run options path := by
  obtain ⟨showTree, extension⟩ := options
  have hrest : ["--extension=" ++ extension, "--", path].foldlM Given.read
      { Given.nothing with showTree } = .ok ⟨showTree, some extension, some path, false, true⟩ := by
    rw [List.foldlM_cons, Given.read_extension rfl rfl]
    simp [Given.withExtension, Given.nothing, Given.read, Given.withPath, hpath, bind, Except.bind,
      pure, Except.pure]
  have hread : (Options.arguments ⟨showTree, extension⟩ path).foldlM Given.read .nothing =
      .ok ⟨showTree, some extension, some path, false, true⟩ := by
    cases showTree with
    | false => exact hrest
    | true => exact hrest
  rw [parseArguments, hread]
  rfl

example : parseArguments ["d", "-ae", "txt"] = .run ⟨true, "txt"⟩ "d" := by decide +kernel

example : parseArguments ["-e", "-a", "d"] = .refused := by decide +kernel

end Imperative.CommandLine
