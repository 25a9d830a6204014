/-! # Parts that are drawn in another way

Some parts take a narrow slot beside a wider one; a few of these keep a slot of two thirds. In
some positions a part has an outline of its own.
-/

namespace Ideograph

/-- The slot of an operand of a two-way split. -/
inductive Position where
  | left
  | right
  | up
  | down
  deriving DecidableEq, Repr

/-- What is known of single parts. -/
structure Parts where
  small : List Char
  unshrink : List Char
  /-- Path data by position and part, the latest entry first. -/
  variants : List ((Position × Char) × String)
  deriving Repr

namespace Parts

def empty : Parts :=
  ⟨[], [], []⟩

/-- Whether a part takes a narrow slot beside a wider one. -/
def isSmall (parts : Parts) (c : Char) : Bool :=
  parts.small.contains c

/-- Whether a small part keeps a slot of two thirds. -/
def isUnshrink (parts : Parts) (c : Char) : Bool :=
  parts.unshrink.contains c

/-- The path data drawn for a part in a position. -/
def variant? (parts : Parts) (position : Position) (c : Char) : Option String :=
  parts.variants.lookup (position, c)

def withSmall (parts : Parts) (c : Char) : Parts :=
  { parts with small := c :: parts.small }

/-- Mark a part as one that keeps its slot, which is a kind of small part. -/
def withUnshrink (parts : Parts) (c : Char) : Parts :=
  { parts with small := c :: parts.small, unshrink := c :: parts.unshrink }

/-- Set the path data for a part in a position. -/
def withVariant (parts : Parts) (position : Position) (c : Char) (data : String) : Parts :=
  { parts with variants := ((position, c), data) :: parts.variants }

theorem isSmall_withSmall {parts : Parts} {c d : Char} :
    (parts.withSmall c).isSmall d ↔ d = c ∨ parts.isSmall d := by
  simp [isSmall, withSmall]

theorem isSmall_withUnshrink {parts : Parts} {c d : Char} :
    (parts.withUnshrink c).isSmall d ↔ d = c ∨ parts.isSmall d := by
  simp [isSmall, withUnshrink]

theorem isUnshrink_withUnshrink {parts : Parts} {c d : Char} :
    (parts.withUnshrink c).isUnshrink d ↔ d = c ∨ parts.isUnshrink d := by
  simp [isUnshrink, withUnshrink]

theorem variant?_withVariant (parts : Parts) (p q : Position) (c d : Char) (data : String) :
    (parts.withVariant p c data).variant? q d =
      if (q, d) = (p, c) then some data else parts.variant? q d := by
  simp only [variant?, withVariant, List.lookup_cons]
  split <;> simp_all

end Parts

end Ideograph
