import Ideograph.CommandLine.Arguments
import Ideograph.CommandLine.Host
import Ideograph.Document.Svg
import Ideograph.Font.Face

/-! # Batches

The sequences of a command line are drawn one by one, each whatever becomes of the others. What is
to be done about a sequence depends on that sequence and its place among all of them; doing it may
fail. The status tells whether anything failed.
-/

namespace Ideograph.CommandLine

open Number

/-- The name of the document with number `i` among `count`. -/
def documentName (count i : Nat) : String :=
  if count = 1 then "output.svg" else "output." ++ toString i ++ ".svg"

/-- The path of a file in a folder. -/
def filePath (folder name : String) : String :=
  if folder.toList.getLast? = some '/' then folder ++ name else folder ++ "/" ++ name

/-- What is to be done about one sequence. -/
inductive Task where
  | print (svg : String)
  | save (path svg : String)
  | complain (message : String)
  deriving DecidableEq, Repr

variable {parse : Font.Parser}

namespace Options

def renderer (o : Options) (face : Font.Face parse) : Renderer Double :=
  { source := face.source, maxDepth := o.maxDepth }

/-- The task for the sequence with number `i` among `count`. -/
def task (o : Options) (r : Renderer Double) (count i : Nat) (ids : String) : Task :=
  match (r.document o.fontSize ids).outcome, o.output with
  | .error e, _ => .complain ("Error: " ++ ids ++ ": " ++ e.message)
  | .ok svg, none => .print svg
  | .ok svg, some folder => .save (filePath folder (documentName count i)) svg

/-- A task for each sequence, numbered from one. -/
def tasks (o : Options) (r : Renderer Double) : List Task :=
  o.sequences.mapIdx fun i ids => o.task r o.sequences.length (i + 1) ids

end Options

variable {m : Type → Type} [Monad m]

/-- Do a task, and tell whether all went well. -/
def Task.perform (host : Host m) : Task → m Bool
  | print svg => do
    host.print svg
    return true
  | save path svg => do
    match ← host.writeFile path svg with
    | .ok _ =>
      host.report ("Wrote " ++ path)
      return true
    | .error e =>
      host.report ("Error writing " ++ path ++ ": " ++ e.message)
      return false
  | complain message => do
    host.report message
    return false

/-- Do every task in order, and tell whether all went well. -/
def performAll (host : Host m) : List Task → m Bool
  | [] => return true
  | task :: tasks => do
    let done ← task.perform host
    let rest ← performAll host tasks
    return done && rest

/-- Draw a batch with its font, and give the status. -/
def Options.run (parse : Font.Parser) (host : Host m) (o : Options) : m Nat := do
  match ← host.readFile o.font with
  | .error e =>
    host.report ("Error: cannot read font " ++ o.font ++ ": " ++ e.message)
    return 1
  | .ok bytes =>
    match Font.Face.read parse bytes with
    | .error e =>
      host.report ("Error: " ++ e.message)
      return 1
    | .ok face =>
      return if ← performAll host (o.tasks (o.renderer face)) then 0 else 1

def versionText : String := "idsvg-cli 0.1.0"

def helpText : String :=
  "\n".intercalate
    ["Render Ideographic Description Sequences to SVG", "",
      "Usage: idsvg [OPTIONS] --font <FILE> <IDS>...", "",
      "Options:",
      "  -f, --font <FILE>            font file for the leaf glyphs",
      "  -s, --font-size <FONT_SIZE>  side of the square output box [default: 72]",
      "  -c, --color <COLOR>          fill colour, not applied [default: black]",
      "  -o, --output <DIR>           folder for SVG files instead of standard output",
      "      --max-depth <MAX_DEPTH>  deepest nesting of operators [default: 32]",
      "  -h, --help                   print help",
      "  -V, --version                print version"]

/-- Do what the arguments ask for, and give the status: two if they cannot be understood. -/
def run (parse : Font.Parser) (host : Host m) (arguments : List String) : m Nat := do
  match Request.read arguments with
  | .error e =>
    host.report ("error: " ++ e.message)
    return 2
  | .ok (.inquiry .help) =>
    host.print helpText
    return 0
  | .ok (.inquiry .version) =>
    host.print versionText
    return 0
  | .ok (.draw o) => o.run parse host

end Ideograph.CommandLine
