import Mathlib.Data.List.Forall2
import Ideograph.Document.Markup

/-! # Reading markup

Markup is scanned character by character. A value goes on to the next quote, whatever stands in
between, and its entities are read afterwards. The elements that are open are kept with the children
read so far, so that the scan of a text is that of its parts one after another. Scanning what was
written for an element gives the element back.
-/

namespace Ideograph.Markup

/-- An element with its attributes and children in their order. -/
inductive Node where
  | element (name : String) (attributes : List (String × String)) (children : List Node)

/-- The beginning of an element. -/
structure Tag where
  name : String
  attributes : List (String × String)

/-- What is being read, with what has been read of it. -/
inductive Place where
  | content
  | name (read : List Char)
  | closing (read : List Char)
  | tag (t : Tag)
  | slash (t : Tag)
  | key (t : Tag) (read : List Char)
  | equals (t : Tag) (key : List Char)
  | value (t : Tag) (key read : List Char)

structure Scanner where
  place : Place
  /-- The elements that are open, the innermost first, with the children read so far. -/
  opened : List (Tag × List Node)
  /-- The elements that stand in no other one. -/
  roots : List Node

/-- What ends the name of a tag or stands behind a value. -/
def IsBreak (c : Char) : Prop :=
  c = ' ' ∨ c = '/' ∨ c = '>'

instance instDecidableIsBreak (c : Char) : Decidable (IsBreak c) :=
  inferInstanceAs (Decidable (_ ∨ _))

namespace Scanner

/-- Add an element to the innermost one that is open. -/
def add (s : Scanner) (node : Node) : Scanner :=
  match s.opened with
  | [] => { s with place := .content, roots := s.roots ++ [node] }
  | (t, children) :: outer =>
    { s with place := .content, opened := (t, children ++ [node]) :: outer }

/-- Go on behind the name of a tag or behind a value. -/
def goOn (s : Scanner) (t : Tag) (c : Char) : Option Scanner :=
  if c = ' ' then some { s with place := .key t [] }
  else if c = '/' then some { s with place := .slash t }
  else if c = '>' then some { s with place := .content, opened := (t, []) :: s.opened }
  else none

/-- Close the innermost element, which must have the name. -/
def close (s : Scanner) (name : String) : Option Scanner :=
  match s.opened with
  | [] => none
  | (t, children) :: outer =>
    if t.name = name then
      some ({ s with opened := outer }.add (.element t.name t.attributes children))
    else none

/-- Read one character. -/
def step (s : Scanner) (c : Char) : Option Scanner :=
  match s.place with
  | .content =>
    if c = '<' then some { s with place := .name [] }
    else if c = '\n' then some s
    else none
  | .name read =>
    if c = '/' ∧ read = [] then some { s with place := .closing [] }
    else if IsBreak c then s.goOn ⟨String.ofList read, []⟩ c
    else some { s with place := .name (read ++ [c]) }
  | .closing read =>
    if c = '>' then s.close (String.ofList read)
    else some { s with place := .closing (read ++ [c]) }
  | .tag t => s.goOn t c
  | .slash t =>
    if c = '>' then some (s.add (.element t.name t.attributes [])) else none
  | .key t read =>
    if c = '=' then some { s with place := .equals t read }
    else some { s with place := .key t (read ++ [c]) }
  | .equals t key => if c = '"' then some { s with place := .value t key [] } else none
  | .value t key read =>
    if c = '"' then
      let value := String.ofList (unescape read)
      let attributes := t.attributes ++ [(String.ofList key, value)]
      some { s with place := .tag { t with attributes } }
    else some { s with place := .value t key (read ++ [c]) }

/-- Read a text. -/
def scan (s : Scanner) (cs : List Char) : Option Scanner :=
  cs.foldlM step s

end Scanner

/-- Read a text that is one element. -/
def read (text : String) : Option Node := do
  match ← Scanner.scan ⟨.content, [], []⟩ text.toList with
  | ⟨.content, [], [root]⟩ => some root
  | _ => none

/-- What can stand for the name of a tag or of an attribute. -/
def IsName (name : String) : Prop :=
  name ≠ "" ∧ ∀ c ∈ name.toList, c ≠ ' ' ∧ c ≠ '/' ∧ c ≠ '>' ∧ c ≠ '='

instance instDecidableIsName (name : String) : Decidable (IsName name) :=
  -- looking at the characters of the name, not at all there are
  let _ : Decidable (∀ c ∈ name.toList, c ≠ ' ' ∧ c ≠ '/' ∧ c ≠ '>' ∧ c ≠ '=') :=
    List.decidableBAll _ _
  inferInstanceAs (Decidable (_ ∧ _))

namespace Scanner

variable {opened : List (Tag × List Node)} {roots : List Node}

theorem scan_append (s : Scanner) (cs ds : List Char) :
    s.scan (cs ++ ds) = (s.scan cs).bind (scan · ds) :=
  List.foldlM_append

theorem scan_cons {s s' : Scanner} {c : Char} (h : s.step c = some s') (cs : List Char) :
    s.scan (c :: cs) = s'.scan cs := by
  rw [scan, List.foldlM_cons, h]
  rfl

/-- Characters that a place takes in are taken in one after another. -/
theorem scan_taken {place : List Char → Place} {cs : List Char}
    (h : ∀ c ∈ cs, ∀ taken,
      step ⟨place taken, opened, roots⟩ c = some ⟨place (taken ++ [c]), opened, roots⟩)
    (taken rest : List Char) :
    scan ⟨place taken, opened, roots⟩ (cs ++ rest) =
      scan ⟨place (taken ++ cs), opened, roots⟩ rest := by
  induction cs generalizing taken with
  | nil => rw [List.nil_append, List.append_nil]
  | cons c cs ih =>
    simp only [List.mem_cons, forall_eq_or_imp] at h
    rw [List.cons_append, scan_cons (h.1 taken), ih h.2, List.append_assoc, List.singleton_append]

theorem scan_key {key : String} (h : IsName key) (t : Tag) (rest : List Char) :
    scan ⟨.key t [], opened, roots⟩ (key.toList ++ '=' :: rest) =
      scan ⟨.equals t key.toList, opened, roots⟩ rest := by
  rw [scan_taken fun c hc taken => by simp only [step, if_neg (h.2 c hc).2.2.2], List.nil_append]
  exact scan_cons (by simp only [step, if_true]) rest

/-- No quote stands in an escaped value, so that the next one ends it. -/
theorem scan_value (value : String) (t : Tag) (key rest : List Char) :
    scan ⟨.value t key [], opened, roots⟩ (escape value ++ '"' :: rest) =
      scan ⟨.tag { t with attributes := t.attributes ++ [(String.ofList key, value)] }, opened,
        roots⟩ rest := by
  rw [scan_taken fun c hc taken => ?taken, List.nil_append]
  case taken =>
    have hquote : c ≠ '"' := fun heq => quote_not_mem_escape value (heq ▸ hc)
    simp only [step, if_neg hquote]
  refine scan_cons ?_ rest
  simp only [step, if_true, unescape_escape, String.ofList_toList]

theorem scan_attr {key : String} (h : IsName key) (value : String) (t : Tag) (rest : List Char) :
    scan ⟨.tag t, opened, roots⟩ (attr key value ++ rest) =
      scan ⟨.tag { t with attributes := t.attributes ++ [(key, value)] }, opened, roots⟩ rest := by
  have hblank : step ⟨.tag t, opened, roots⟩ ' ' = some ⟨.key t [], opened, roots⟩ := rfl
  have hquote : step ⟨.equals t key.toList, opened, roots⟩ '"' =
      some ⟨.value t key.toList [], opened, roots⟩ := rfl
  simp only [attr, List.cons_append, List.append_assoc, List.nil_append]
  rw [scan_cons hblank, scan_key h, scan_cons hquote, scan_value, String.ofList_toList]

theorem scan_attrs {attributes : List (String × String)} (h : ∀ a ∈ attributes, IsName a.1)
    (t : Tag) (rest : List Char) :
    scan ⟨.tag t, opened, roots⟩ (attributes.flatMap (fun a => attr a.1 a.2) ++ rest) =
      scan ⟨.tag { t with attributes := t.attributes ++ attributes }, opened, roots⟩ rest := by
  induction attributes generalizing t with
  | nil => rw [List.flatMap_nil, List.nil_append, List.append_nil]
  | cons a attributes ih =>
    simp only [List.mem_cons, forall_eq_or_imp] at h
    rw [List.flatMap_cons, List.append_assoc, scan_attr h.1, ih h.2, List.append_assoc,
      List.singleton_append]

theorem scan_name {name : String} (h : IsName name) {c : Char} (hc : IsBreak c)
    (rest : List Char) :
    scan ⟨.name [], opened, roots⟩ (name.toList ++ c :: rest) =
      scan ⟨.tag ⟨name, []⟩, opened, roots⟩ (c :: rest) := by
  rw [scan_taken fun c hc taken => ?taken, List.nil_append]
  case taken =>
    obtain ⟨hblank, hslash, hangle, -⟩ := h.2 c hc
    simp [step, IsBreak, hblank, hslash, hangle]
  have hne : name.toList ≠ [] := fun hnil => h.1 (String.toList_eq_nil_iff.mp hnil)
  have hstep : step ⟨.name name.toList, opened, roots⟩ c =
      step ⟨.tag ⟨name, []⟩, opened, roots⟩ c := by
    simp only [step, hne, and_false, if_false, if_pos hc, String.ofList_toList]
    rfl
  rw [scan, scan, List.foldlM_cons, List.foldlM_cons, hstep]

/-- The beginning of a tag is read up to what ends it. -/
theorem scan_openTag {name : String} {attributes : List (String × String)} (hname : IsName name)
    (h : ∀ a ∈ attributes, IsName a.1) {c : Char} (hc : IsBreak c) (rest : List Char) :
    scan ⟨.content, opened, roots⟩ (openTag name attributes ++ c :: rest) =
      scan ⟨.tag ⟨name, attributes⟩, opened, roots⟩ (c :: rest) := by
  have hopen : step ⟨.content, opened, roots⟩ '<' = some ⟨.name [], opened, roots⟩ := rfl
  obtain ⟨d, ds, hd, hds⟩ : ∃ d ds, IsBreak d ∧
      attributes.flatMap (fun a => attr a.1 a.2) ++ c :: rest = d :: ds := by
    cases attributes with
    | nil => exact ⟨c, rest, hc, rfl⟩
    | cons a attributes => exact ⟨' ', _, .inl rfl, rfl⟩
  rw [openTag, List.cons_append, List.append_assoc, scan_cons hopen]
  rw [hds, scan_name hname hd, ← hds, scan_attrs h, List.nil_append]

end Scanner

open Scanner

/-- Wherever an element can stand, the text is read as the element. -/
def Reads (text : List Char) (node : Node) : Prop :=
  ∀ opened roots, scan ⟨.content, opened, roots⟩ text = some (add ⟨.content, opened, roots⟩ node)

section Elements

variable {name : String} {attributes : List (String × String)}

theorem reads_emptyElement (hname : IsName name) (h : ∀ a ∈ attributes, IsName a.1) :
    Reads (emptyElement name attributes) (.element name attributes []) := by
  intro opened roots
  have hslash : step ⟨.tag ⟨name, attributes⟩, opened, roots⟩ '/' =
      some ⟨.slash ⟨name, attributes⟩, opened, roots⟩ := rfl
  have hclose : step ⟨.slash ⟨name, attributes⟩, opened, roots⟩ '>' =
      some (add ⟨.slash ⟨name, attributes⟩, opened, roots⟩ (.element name attributes [])) := rfl
  have hadd : add ⟨.slash ⟨name, attributes⟩, opened, roots⟩ (.element name attributes []) =
      add ⟨.content, opened, roots⟩ (.element name attributes []) := by
    cases opened <;> rfl
  have hend : "/>".toList = ['/', '>'] := rfl
  rw [emptyElement, hend, scan_openTag hname h (.inr (.inl rfl)), scan_cons hslash,
    scan_cons hclose, hadd]
  rfl

/-- Children on lines of their own are added one after another. -/
theorem scan_children {texts : List (List Char)} {nodes : List Node}
    (h : List.Forall₂ Reads texts nodes) (t : Tag) (children : List Node)
    (outer : List (Tag × List Node)) (roots : List Node) (rest : List Char) :
    scan ⟨.content, (t, children) :: outer, roots⟩ (texts.flatMap ('\n' :: ·) ++ rest) =
      scan ⟨.content, (t, children ++ nodes) :: outer, roots⟩ rest := by
  induction h generalizing children with
  | nil => rw [List.flatMap_nil, List.nil_append, List.append_nil]
  | @cons text node texts nodes hread _ ih =>
    have hline : step ⟨.content, (t, children) :: outer, roots⟩ '\n' =
        some ⟨.content, (t, children) :: outer, roots⟩ := rfl
    rw [List.flatMap_cons, List.append_assoc, List.cons_append, scan_cons hline, scan_append,
      hread, Option.bind_some]
    exact (ih (children ++ [node])).trans (by rw [List.append_assoc, List.singleton_append])

theorem scan_closing (hname : IsName name) (children : List Node)
    (outer : List (Tag × List Node)) (roots : List Node) :
    scan ⟨.closing [], (⟨name, attributes⟩, children) :: outer, roots⟩ (name.toList ++ ['>']) =
      some (add ⟨.content, outer, roots⟩ (.element name attributes children)) := by
  rw [scan_taken fun c hc taken => by simp only [step, if_neg (hname.2 c hc).2.2.1],
    List.nil_append]
  have hclose : step ⟨.closing name.toList, (⟨name, attributes⟩, children) :: outer, roots⟩ '>' =
      some (add ⟨.content, outer, roots⟩ (.element name attributes children)) := by
    simp only [step, if_true, String.ofList_toList, close]
    cases outer <;> rfl
  rw [scan_cons hclose]
  rfl

theorem reads_element (hname : IsName name) (h : ∀ a ∈ attributes, IsName a.1)
    {texts : List (List Char)} {nodes : List Node} (hread : List.Forall₂ Reads texts nodes) :
    Reads (element name attributes texts) (.element name attributes nodes) := by
  rcases htexts : texts with _ | ⟨text, more⟩
  · subst htexts
    rw [List.forall₂_nil_left_iff.mp hread]
    exact reads_emptyElement hname h
  · intro opened roots
    have hopen : step ⟨.tag ⟨name, attributes⟩, opened, roots⟩ '>' =
        some ⟨.content, (⟨name, attributes⟩, []) :: opened, roots⟩ := rfl
    have hend : "\n</".toList = ['\n', '<', '/'] := rfl
    rw [element, List.isEmpty_cons, if_neg Bool.false_ne_true, ← htexts, hend]
    simp only [List.append_assoc, List.cons_append, List.nil_append]
    rw [scan_openTag hname h (.inr (.inr rfl)), scan_cons hopen, scan_children hread,
      List.nil_append]
    exact scan_closing hname nodes opened roots

end Elements

theorem read_of_reads {text : List Char} {node : Node} (h : Reads text node) :
    read (String.ofList text) = some node := by
  rw [read, String.toList_ofList, h]
  rfl

end Ideograph.Markup
