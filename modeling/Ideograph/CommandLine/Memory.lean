import Ideograph.CommandLine.Host

/-! # A machine in memory

A tree of folders and files, a folder in it to work in, and the lines written so far. A path that
begins with a slash leads from the root, any other one from the working folder.
-/

namespace Ideograph.CommandLine

/-- The names on the way from the root of the tree. -/
abbrev Location := List String

structure Memory where
  workingFolder : Location
  folders : List Location
  files : List (Location × ByteArray)
  output : String
  reports : String

namespace Memory

/-- The folders are the working folder, the named ones, and all that something lies in. -/
def isFolder (m : Memory) (l : Location) : Bool :=
  (m.workingFolder :: m.folders ++ m.files.map (·.1.dropLast)).any l.isPrefixOf

def file? (m : Memory) (l : Location) : Option ByteArray :=
  m.files.lookup l

/-- The most bytes in a name. -/
def maxNameSize : Nat := 255

/-- The most bytes in a path. -/
def maxPathSize : Nat := 4095

/-- Go on from a folder by one name. The empty name and a dot stay, two dots go back, though not
behind the root. -/
def enter (m : Memory) (here : Location) (name : String) : Except FileFault Location :=
  if m.isFolder here then
    if name = "" ∨ name = "." then .ok here
    else if name = ".." then .ok here.dropLast
    else if maxNameSize < name.utf8ByteSize then .error .nameTooLong
    else .ok (here ++ [name])
  else if (m.file? here).isSome then .error .notFolder
  else .error .missing

/-- Where a path leads. Every name but the last must be that of a folder. -/
def locate (m : Memory) (path : String) : Except FileFault Location :=
  let start := if path.toList.head? = some '/' then [] else m.workingFolder
  let names := (path.toList.splitOn '/').map String.ofList
  if maxPathSize < path.utf8ByteSize then .error .nameTooLong
  else names.foldlM m.enter start

def readFile (m : Memory) (path : String) : Except FileFault ByteArray := do
  let l ← m.locate path
  if m.isFolder l then throw .folder
  else (m.file? l).elim (.error .missing) .ok

/-- Write a file, in the place of one with the same name. -/
def writeFile (m : Memory) (path text : String) : Except FileFault Memory := do
  let l ← m.locate path
  if m.isFolder l then throw .folder
  else return { m with files := (l, text.toUTF8) :: m.files.filter (·.1 != l) }

/-- The machine whose state is the memory. -/
def host : Host (StateM Memory) where
  readFile path := return (← get).readFile path
  writeFile path text := do
    match (← get).writeFile path text with
    | .ok m =>
      set m
      return .ok ()
    | .error e => return .error e
  print line := modify fun m => { m with output := m.output ++ line ++ "\n" }
  report line := modify fun m => { m with reports := m.reports ++ line ++ "\n" }

end Memory

end Ideograph.CommandLine
