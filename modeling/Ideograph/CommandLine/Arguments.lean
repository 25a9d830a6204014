import Ideograph.Render.Engine

/-! # Arguments

Options stand before, between or after the sequences to draw. An option has a short or a long
name, and a value that is attached to it or is the next argument. After two hyphens every argument
is a sequence.
-/

namespace Ideograph.CommandLine

open Number

/-- An option that has a value. -/
inductive Setting where
  | font
  | fontSize
  | color
  | output
  | maxDepth
  deriving DecidableEq, Repr

/-- An option that asks for a text and nothing else. -/
inductive Inquiry where
  | help
  | version
  deriving DecidableEq, Repr

/-- What an option stands for. -/
inductive Meaning where
  | setting (s : Setting)
  | inquiry (i : Inquiry)
  deriving DecidableEq, Repr

def Meaning.ofLong? : String → Option Meaning
  | "font" => some (.setting .font)
  | "font-size" => some (.setting .fontSize)
  | "color" => some (.setting .color)
  | "output" => some (.setting .output)
  | "max-depth" => some (.setting .maxDepth)
  | "help" => some (.inquiry .help)
  | "version" => some (.inquiry .version)
  | _ => none

def Meaning.ofShort? : Char → Option Meaning
  | 'f' => some (.setting .font)
  | 's' => some (.setting .fontSize)
  | 'c' => some (.setting .color)
  | 'o' => some (.setting .output)
  | 'h' => some (.inquiry .help)
  | 'V' => some (.inquiry .version)
  | _ => none

/-- Why arguments cannot be understood. -/
inductive UsageFault where
  | unknown (argument : String)
  | noValue (argument : String)
  | needlessValue (argument : String)
  | repeated (argument : String)
  | invalid (value : String)
  | noFont
  | noSequence
  deriving DecidableEq, Repr

def UsageFault.message : UsageFault → String
  | unknown argument => "unknown option " ++ argument
  | noValue argument => "no value for option " ++ argument
  | needlessValue argument => "option without a value: " ++ argument
  | repeated argument => "option given twice: " ++ argument
  | invalid value => "invalid value: " ++ value
  | noFont => "no font given"
  | noSequence => "no sequence given"

/-- What to draw, with what, and where to. The colour is accepted and not used. -/
structure Options where
  font : String
  fontSize : Double
  color : String
  output : Option String
  maxDepth : Nat
  sequences : List String

inductive Request where
  | inquiry (i : Inquiry)
  | draw (options : Options)

/-- The options and sequences read so far. -/
structure Given where
  font : Option String := none
  fontSize : Option Double := none
  color : Option String := none
  output : Option String := none
  maxDepth : Option Nat := none
  sequences : List String := []

/-- A number of digits, with an optional plus sign, that fits eight bytes. -/
def count? (text : String) : Option Nat := do
  let digits := match text.toList with
    | '+' :: rest => rest
    | cs => cs
  guard (!digits.isEmpty && digits.all Char.isDigit)
  let n : Nat := digits.foldl (fun n c => 10 * n + (c.toNat - 48)) 0
  guard (n < 18446744073709551616)
  return n

namespace Given

/-- Whether a setting has a value. -/
def has (g : Given) : Setting → Bool
  | .font => g.font.isSome
  | .fontSize => g.fontSize.isSome
  | .color => g.color.isSome
  | .output => g.output.isSome
  | .maxDepth => g.maxDepth.isSome

/-- Read the value of a setting. Files and folders have a name. -/
def set? (g : Given) (value : String) : Setting → Option Given
  | .font => if value.isEmpty then none else some { g with font := some value }
  | .fontSize => (Binary.ofText? value).map fun x => { g with fontSize := some x }
  | .color => some { g with color := some value }
  | .output => if value.isEmpty then none else some { g with output := some value }
  | .maxDepth => (count? value).map fun n => { g with maxDepth := some n }

/-- Give a value to a setting that has none. -/
def set (g : Given) (argument value : String) (s : Setting) : Except UsageFault Given :=
  if g.has s then .error (.repeated argument)
  else (g.set? value s).elim (.error (.invalid value)) .ok

/-- Complete what was given. A font and a sequence are needed. -/
def complete (g : Given) : Except UsageFault Request :=
  match g.font, g.sequences with
  | none, _ => .error .noFont
  | some _, [] => .error .noSequence
  | some font, sequences =>
    .ok <| .draw {
      font
      fontSize := g.fontSize.getD defaultFontSize
      color := g.color.getD "black"
      output := g.output
      maxDepth := g.maxDepth.getD defaultMaxDepth
      sequences }

end Given

/-- What one argument asks for. -/
inductive Item where
  | sequence
  | separator
  | inquiry (i : Inquiry)
  | setting (s : Setting) (value : Option String)

/-- A hyphen and more. -/
def isOption (argument : String) : Bool :=
  match argument.toList with
  | '-' :: _ :: _ => true
  | _ => false

/-- The value behind the letter of an option. An equals sign may stand between them. -/
def attached : List Char → Option String
  | [] => none
  | '=' :: value | value => some (String.ofList value)

def Item.read (argument : String) : Except UsageFault Item :=
  match argument.toList with
  | ['-', '-'] => .ok .separator
  | '-' :: '-' :: option =>
    let name := String.ofList (option.takeWhile (· != '='))
    let value := attached (option.dropWhile (· != '='))
    match Meaning.ofLong? name, value with
    | none, _ => .error (.unknown argument)
    | some (.setting s), value => .ok (.setting s value)
    | some (.inquiry i), none => .ok (.inquiry i)
    | some (.inquiry _), some _ => .error (.needlessValue argument)
  | '-' :: name :: value =>
    match Meaning.ofShort? name with
    | none => .error (.unknown argument)
    | some (.setting s) => .ok (.setting s (attached value))
    | some (.inquiry i) => .ok (.inquiry i)
  | _ => .ok .sequence

/-- Read arguments in order. One that asks for a text ends the reading. -/
def Given.read (g : Given) : List String → Except UsageFault Request
  | [] => g.complete
  | argument :: rest => do
    match ← Item.read argument with
    | .sequence => Given.read { g with sequences := g.sequences ++ [argument] } rest
    | .separator => Given.complete { g with sequences := g.sequences ++ rest }
    | .inquiry i => return .inquiry i
    | .setting s (some value) => (← g.set argument value s).read rest
    | .setting s none =>
      match rest with
      | [] => throw (.noValue argument)
      | value :: rest =>
        if isOption value then throw (.noValue argument)
        else (← g.set argument value s).read rest

/-- Read the arguments of the command line. -/
def Request.read (arguments : List String) : Except UsageFault Request :=
  Given.read {} arguments

end Ideograph.CommandLine
