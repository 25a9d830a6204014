/-! # Markup text

Attribute values are written between double quotes, with entities for the five characters that
markup uses itself. Reading the entities gives the value back, and no quote is left in it.
-/

namespace Ideograph.Markup

def escapeChar : Char → List Char
  | '&' => "&amp;".toList
  | '<' => "&lt;".toList
  | '>' => "&gt;".toList
  | '"' => "&quot;".toList
  | '\'' => "&apos;".toList
  | c => [c]

def escape (s : String) : List Char :=
  s.toList.flatMap escapeChar

/-- Read text with entities. -/
def unescape : List Char → List Char
  | '&' :: 'a' :: 'm' :: 'p' :: ';' :: rest => '&' :: unescape rest
  | '&' :: 'l' :: 't' :: ';' :: rest => '<' :: unescape rest
  | '&' :: 'g' :: 't' :: ';' :: rest => '>' :: unescape rest
  | '&' :: 'q' :: 'u' :: 'o' :: 't' :: ';' :: rest => '"' :: unescape rest
  | '&' :: 'a' :: 'p' :: 'o' :: 's' :: ';' :: rest => '\'' :: unescape rest
  | c :: rest => c :: unescape rest
  | [] => []

theorem unescape_escapeChar_append (c : Char) (rest : List Char) :
    unescape (escapeChar c ++ rest) = c :: unescape rest := by
  unfold escapeChar
  split
  · simp [unescape]
  · simp [unescape]
  · simp [unescape]
  · simp [unescape]
  · simp [unescape]
  · next h _ _ _ _ =>
    rw [List.singleton_append, unescape] <;> intro _ hc <;> exact absurd hc h

theorem unescape_escape (s : String) : unescape (escape s) = s.toList := by
  unfold escape
  induction s.toList with
  | nil => rfl
  | cons c cs ih => rw [List.flatMap_cons, unescape_escapeChar_append, ih]

/-- Escaped text does not end the value that it stands in. -/
theorem quote_not_mem_escape (s : String) : '"' ∉ escape s := by
  simp only [escape, List.mem_flatMap, not_exists, not_and]
  intro c _ h
  unfold escapeChar at h
  split at h
  · simp at h
  · simp at h
  · simp at h
  · simp at h
  · simp at h
  · next hc _ => exact hc (List.mem_singleton.1 h).symm

/-- A name and a value, after a blank. -/
def attr (name value : String) : List Char :=
  ' ' :: (name.toList ++ '=' :: '"' :: (escape value ++ ['"']))

/-- The beginning of a tag, with its attributes in the given order. -/
def openTag (name : String) (attributes : List (String × String)) : List Char :=
  '<' :: (name.toList ++ attributes.flatMap fun (name, value) => attr name value)

/-- An element without content. -/
def emptyElement (name : String) (attributes : List (String × String)) : List Char :=
  openTag name attributes ++ "/>".toList

/-- An element whose children stand on lines of their own. -/
def element (name : String) (attributes : List (String × String))
    (children : List (List Char)) : List Char :=
  if children.isEmpty then emptyElement name attributes
  else
    openTag name attributes ++ '>' :: (children.flatMap ('\n' :: ·)) ++
      "\n</".toList ++ name.toList ++ ['>']

end Ideograph.Markup
