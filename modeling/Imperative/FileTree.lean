/-! Files and directories by their paths, and how a path leads through them. -/

namespace Imperative

/-- Why nothing can be read at a path. -/
inductive ReadFailure where
  /-- Nothing stands there. -/
  | missing
  /-- The path goes through a file. -/
  | notADirectory
  /-- The bytes are no text. -/
  | notText
  /-- Another reason, in words. -/
  | other (reason : String)
deriving DecidableEq, Repr

/-- The reason of a failure, in words. -/
def ReadFailure.reason : ReadFailure → String
  | missing => "No such file or directory (os error 2)"
  | notADirectory => "Not a directory (os error 20)"
  | notText => "stream did not contain valid UTF-8"
  | other s => s

/-- What reading a file gives: its text, or the reason why there is none. -/
abbrev Content : Type := Except ReadFailure String

/-- The content of a file of these bytes. -/
def Content.ofBytes (bytes : ByteArray) : Content :=
  match String.fromUTF8? bytes with
  | some text => .ok text
  | none => .error .notText

/-- What stands at a place in a file tree. -/
inductive Entry where
  | directory
  | file (content : Content)

/-- What a path leads to.  Whatever is no directory is read as a file. -/
inductive Target where
  /-- A directory with these names directly inside, in no particular order. -/
  | directory (entries : List (String × Entry))
  | file (content : Content)

/-- Files and directories: places, as names from the top down, and what stands there.  The first of
several entries for one place counts. -/
structure FileTree where
  entries : List (List String × Entry)

namespace FileTree

/-- The tree whose working directory is empty. -/
def empty : FileTree := ⟨[]⟩

/-- The working directory, where paths begin.  It stands below the top of the tree under the empty
name, which no path can spell, so that a path that leaves it does not come back. -/
def home : List String := [""]

/-- What stands at a place.  The top and the working directory are always there. -/
def get? (tree : FileTree) (place : List String) : Option Entry :=
  if place = [] ∨ place = home then some .directory else tree.entries.lookup place

/-- Puts an entry at a place. -/
def put (tree : FileTree) (place : List String) (entry : Entry) : FileTree :=
  ⟨(place, entry) :: tree.entries⟩

/-- The names directly inside a place, with what stands there. -/
def children (tree : FileTree) (place : List String) : List (String × Entry) :=
  let names := (tree.entries.filterMap fun (inner, _) =>
    if inner.dropLast = place then inner.getLast? else none).eraseDups
  names.filterMap fun name => (tree.get? (place ++ [name])).map fun entry => (name, entry)

/-- The stretches of characters between slashes. -/
def stretches : List Char → List (List Char)
  | [] => [[]]
  | c :: cs =>
    if c = '/' then [] :: stretches cs
    else match stretches cs with
      | [] => [[c]]
      | first :: others => (c :: first) :: others

/-- The names along a path. -/
def names (path : String) : List String := (stretches path.toList).map String.ofList

/-- Where a path begins: at the top if it begins with a slash. -/
def origin (path : String) : List String := if path.toList.head? = some '/' then [] else home

/-- Where a name leads from a place: an empty name and a single dot stay, and two dots go up. -/
def follow (place : List String) (name : String) : List String :=
  if name = "" ∨ name = "." then place
  else if name = ".." then place.dropLast
  else place ++ [name]

/-- One step along a path.  Only a directory can be left. -/
def step (tree : FileTree) (place : List String) (name : String) :
    Except ReadFailure (List String) :=
  match tree.get? place with
  | none => .error .missing
  | some (.file _) => .error .notADirectory
  | some .directory => .ok (follow place name)

/-- What a path leads to. -/
def target (tree : FileTree) (path : String) : Target :=
  if path = "" then .file (.error .missing)
  else match (names path).foldlM tree.step (origin path) with
    | .error e => .file (.error e)
    | .ok place =>
      match tree.get? place with
      | none => .file (.error .missing)
      | some .directory => .directory (tree.children place)
      | some (.file content) => .file content

/-- Follows names from a place and makes a directory wherever nothing stands. -/
def makePlaces (tree : FileTree) (place : List String) : List String → FileTree × List String
  | [] => (tree, place)
  | name :: names =>
    let next := follow place name
    if (tree.get? next).isNone then (tree.put next .directory).makePlaces next names
    else tree.makePlaces next names

/-- Makes the directories along a path. -/
def makeDirectory (tree : FileTree) (path : String) : FileTree :=
  (tree.makePlaces (origin path) (names path)).1

/-- Writes a file, and makes the directories on the way to it. -/
def writeFile (tree : FileTree) (path : String) (content : Content) : FileTree :=
  let (tree, place) := tree.makePlaces (origin path) (names path).dropLast
  tree.put (follow place ((names path).getLastD "")) (.file content)

end FileTree
end Imperative
