import Ideograph.CommandLine.Batch
import Ideograph.Font.Plain

/-! # The command line -/

namespace Ideograph.CommandLine

/-- The fault behind an error of the system. -/
def FileFault.ofError : IO.Error → FileFault
  | .noFileOrDirectory .. => .missing
  | .inappropriateType _ code _ =>
    if code = 20 then .notFolder else .folder
  | e@(.invalidArgument _ code _) => if code = 36 then .nameTooLong else .other (toString e)
  | e => .other (toString e)

/-- The machine that the program runs on. -/
def systemHost : Host IO where
  readFile path := do
    match ← (IO.FS.readBinFile path).toBaseIO with
    | .ok bytes => return .ok bytes
    | .error e => return .error (FileFault.ofError e)
  writeFile path text := do
    match ← (IO.FS.writeFile path text).toBaseIO with
    | .ok _ => return .ok ()
    | .error e => return .error (FileFault.ofError e)
  print line := IO.println line
  report line := IO.eprintln line

end Ideograph.CommandLine

/-- Draws the sequences given as arguments. -/
def main (args : List String) : IO UInt32 := do
  let status ← Ideograph.CommandLine.run Ideograph.Font.Plain.parse
    Ideograph.CommandLine.systemHost args
  return status.toUInt32
