/-! # The machine

What the command line needs of the machine that it runs on: files to read and write, and two
streams of text.
-/

namespace Ideograph.CommandLine

/-- Why a file cannot be read or written. -/
inductive FileFault where
  | missing
  | notFolder
  | folder
  | nameTooLong
  | other (message : String)
  deriving DecidableEq, Repr

def FileFault.message : FileFault → String
  | missing => "No such file or directory (os error 2)"
  | notFolder => "Not a directory (os error 20)"
  | folder => "Is a directory (os error 21)"
  | nameTooLong => "File name too long (os error 36)"
  | other message => message

structure Host (m : Type → Type) where
  readFile : String → m (Except FileFault ByteArray)
  writeFile : String → String → m (Except FileFault Unit)
  /-- Write a line of output. -/
  print : String → m Unit
  /-- Write a line about what happens. -/
  report : String → m Unit

end Ideograph.CommandLine
