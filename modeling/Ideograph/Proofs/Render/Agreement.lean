import Ideograph.Proofs.Render.Requests

/-! # What a drawing depends on

An operator that parts its box in two looks up with what its operands begin, a leaf looks up its
variant in its own position, and only a leaf without a variant asks for a glyph. Nothing else is
looked up, so two renderers that agree there draw alike.
-/

namespace Ideograph

open Number

/-- Whether an operator parts its box in two, by what its operands begin with. -/
def Operator.splits : Operator → Bool
  | leftToRight | aboveToBelow => true
  | _ => false

/-- The tokens with which the operands of two-way splits begin. -/
def Expr.splitRoots : Expr → List Char
  | .leaf _ _ => []
  | .node op operands =>
    (if op.splits then List.ofFn fun i => (operands i).root else []) ++
      (List.ofFn fun i => (operands i).splitRoots).flatten

section Slots

variable {α : Type} [Scalar α]

/-- The slots of a two-way split depend on what is known of the tokens with which its operands
begin, and those of every other operator on nothing that is known of parts. -/
theorem Operator.slots_congr (op : Operator) {first second : Option Char} (side : α)
    {parts parts' : Parts}
    (h : op.splits → ∀ c, first = some c ∨ second = some c →
      parts.isSmall c = parts'.isSmall c ∧ parts.isUnshrink c = parts'.isUnshrink c) :
    op.slots first second side parts = op.slots first second side parts' := by
  by_cases hsplits : op.splits
  · have hany : ∀ token, token = first ∨ token = second →
        token.any parts.isSmall = token.any parts'.isSmall ∧
          token.any parts.isUnshrink = token.any parts'.isUnshrink := by
      rintro (_ | c) htoken
      · exact ⟨rfl, rfl⟩
      · exact h hsplits c (htoken.imp Eq.symm Eq.symm)
    have hfirst := hany first (.inl rfl)
    have hsecond := hany second (.inr rfl)
    cases op with
    | leftToRight | aboveToBelow =>
      simp only [slots, Layout.slots, rule, Layout.stretches, hfirst, hsecond]
    | _ => cases hsplits
  · cases op with
    | leftToRight | aboveToBelow => exact absurd rfl hsplits
    | _ => rfl

end Slots

namespace Renderer

variable {α : Type}

/-- Two renderers agree on all that is looked up for an expression in a position. -/
structure Agrees (r r' : Renderer α) (fontSize : α) (e : Expr) (position : Option Position) :
    Prop where
  isSmall : ∀ c ∈ e.splitRoots, r.parts.isSmall c = r'.parts.isSmall c
  isUnshrink : ∀ c ∈ e.splitRoots, r.parts.isUnshrink c = r'.parts.isUnshrink c
  variant? : ∀ p c, (some p, c) ∈ e.positioned position →
    r.parts.variant? p c = r'.parts.variant? p c
  source : ∀ c ∈ r.unvaried (e.positioned position), r.source c fontSize = r'.source c fontSize

variable {r r' : Renderer α} {fontSize : α}

theorem mem_unvaried {leaves : List (Option Position × Char)} {c : Char} :
    c ∈ r.unvaried leaves ↔
      ∃ position, (position, c) ∈ leaves ∧ r.variant? (position, c) = none := by
  simp [unvaried]

/-- What is looked up for an operand is looked up for the whole expression. -/
theorem Agrees.operand {op : Operator} {operands : Fin op.arity → Expr}
    {position : Option Position} (h : r.Agrees r' fontSize (.node op operands) position)
    (i : Fin op.arity) :
    r.Agrees r' fontSize (operands i) (op.operandPosition i) := by
  have hroots : (operands i).splitRoots ⊆ (Expr.node op operands).splitRoots := by
    intro c hc
    rw [Expr.splitRoots, List.mem_append, List.mem_flatten]
    exact .inr ⟨_, List.mem_ofFn.mpr ⟨i, rfl⟩, hc⟩
  have hleaves : (operands i).positioned (op.operandPosition i) ⊆
      (Expr.node op operands).positioned position := by
    intro leaf hleaf
    rw [Expr.positioned, List.mem_flatten]
    exact ⟨_, List.mem_ofFn.mpr ⟨i, rfl⟩, hleaf⟩
  constructor
  · exact fun c hc => h.isSmall c (hroots hc)
  · exact fun c hc => h.isUnshrink c (hroots hc)
  · exact fun p c hleaf => h.variant? p c (hleaves hleaf)
  · intro c hc
    obtain ⟨position', hleaf, hvariant⟩ := mem_unvaried.mp hc
    exact h.source c (mem_unvaried.mpr ⟨position', hleaves hleaf, hvariant⟩)

/-- Marking a part that begins no operand of a two-way split changes nothing that is looked up. -/
theorem agrees_withSmall {e : Expr} {c : Char} (h : c ∉ e.splitRoots)
    (position : Option Position) :
    { r with parts := r.parts.withSmall c }.Agrees r fontSize e position where
  isSmall d hd := by
    have hne : d ≠ c := fun hdc => h (hdc ▸ hd)
    rw [Bool.eq_iff_iff, Parts.isSmall_withSmall, or_iff_right hne]
  isUnshrink _ _ := rfl
  variant? _ _ _ := rfl
  source _ _ := rfl

theorem agrees_withUnshrink {e : Expr} {c : Char} (h : c ∉ e.splitRoots)
    (position : Option Position) :
    { r with parts := r.parts.withUnshrink c }.Agrees r fontSize e position where
  isSmall d hd := by
    have hne : d ≠ c := fun hdc => h (hdc ▸ hd)
    rw [Bool.eq_iff_iff, Parts.isSmall_withUnshrink, or_iff_right hne]
  isUnshrink d hd := by
    have hne : d ≠ c := fun hdc => h (hdc ▸ hd)
    rw [Bool.eq_iff_iff, Parts.isUnshrink_withUnshrink, or_iff_right hne]
  variant? _ _ _ := rfl
  source _ _ := rfl

theorem agrees_withVariant {e : Expr} {position : Option Position} {p : Position} {c : Char}
    (h : (some p, c) ∉ e.positioned position) (data : String) :
    { r with parts := r.parts.withVariant p c data }.Agrees r fontSize e position where
  isSmall _ _ := rfl
  isUnshrink _ _ := rfl
  variant? q d hd := by
    have hne : (q, d) ≠ (p, c) := by
      rintro ⟨⟩
      exact h hd
    rw [Parts.variant?_withVariant, if_neg hne]
  source _ _ := rfl

theorem layers_congr {drawing drawing' : Expr → Option Position → Traced (List String)}
    {es : List Expr} {slots : List (Slot α)}
    (h : ∀ operand ∈ es.zip (slots.map Slot.position),
      drawing operand.1 operand.2 = drawing' operand.1 operand.2) :
    layers (es.map drawing) slots = layers (es.map drawing') slots := by
  induction es generalizing slots with
  | nil => rfl
  | cons e es ih =>
    cases slots with
    | nil => rfl
    | cons slot slots =>
      simp only [List.map_cons, List.zip_cons_cons, List.mem_cons, forall_eq_or_imp] at h
      rw [List.map_cons, List.map_cons, layers_cons, layers_cons, h.1, ih h.2]

variable [Scalar α]

theorem leaf_eq_of_agrees {c : Char} {hc : Operator.ofChar? c = none}
    {position : Option Position} (h : r.Agrees r' fontSize (.leaf c hc) position) :
    r.leaf fontSize position c = r'.leaf fontSize position c := by
  have hvariant : position.bind (r.parts.variant? · c) = position.bind (r'.parts.variant? · c) := by
    cases position with
    | none => rfl
    | some p => exact h.variant? p c (List.mem_singleton.mpr rfl)
  rw [leaf, leaf, ← hvariant]
  cases hdata : position.bind (r.parts.variant? · c) with
  | some data => rfl
  | none =>
    have hc' : c ∈ r.unvaried [(position, c)] :=
      mem_unvaried.mpr ⟨position, List.mem_singleton.mpr rfl, hdata⟩
    simp only [h.source c hc']

theorem roots_mem {op : Operator} {operands : Fin op.arity → Expr} {c : Char}
    (h : (roots op operands).1 = some c ∨ (roots op operands).2 = some c) :
    c ∈ List.ofFn fun i => (operands i).root :=
  h.elim List.mem_of_getElem? List.mem_of_getElem?

theorem slots_eq_of_agrees {op : Operator} {operands : Fin op.arity → Expr}
    {position : Option Position} (h : r.Agrees r' fontSize (.node op operands) position) :
    op.slots (roots op operands).1 (roots op operands).2 fontSize r.parts =
      op.slots (roots op operands).1 (roots op operands).2 fontSize r'.parts := by
  refine op.slots_congr fontSize fun hsplits c hc => ?_
  have hroot : c ∈ (Expr.node op operands).splitRoots := by
    rw [Expr.splitRoots, if_pos hsplits]
    exact List.mem_append_left _ (roots_mem hc)
  exact ⟨h.isSmall c hroot, h.isUnshrink c hroot⟩

theorem tree_eq_of_agrees (hdepth : r.maxDepth = r'.maxDepth) {e : Expr}
    {position : Option Position} (h : r.Agrees r' fontSize e position) (levels : Nat) :
    r.tree fontSize e levels position = r'.tree fontSize e levels position := by
  induction e generalizing levels position with
  | leaf c hc =>
    cases levels with
    | zero => rw [tree, tree, hdepth]
    | succ levels => exact leaf_eq_of_agrees h
  | node op operands ih =>
    cases levels with
    | zero => rw [tree, tree, hdepth]
    | succ levels =>
      rw [tree_node, tree_node, ← slots_eq_of_agrees h]
      refine congrArg (· >>= _) (layers_congr fun operand hoperand => ?_)
      rw [op.map_position_slots, Expr.zip_operandPositions] at hoperand
      obtain ⟨i, rfl⟩ := List.mem_ofFn.mp hoperand
      exact ih i (h.operand i) levels

/-- Two renderers with one limit that agree on what is looked up for an expression, the parts with
which operands of two-way splits begin, the variants of their leaves on those sides and the glyphs
of leaves without a variant, draw it alike and ask for the same. So an entry for a part that begins
no such operand, or for a leaf in a position in which it does not stand, has no effect. -/
theorem render_eq_of_agrees (r : Renderer α) (fontSize : α) (e : Expr) :
    (∀ r' : Renderer α, r'.maxDepth = r.maxDepth → r'.Agrees r fontSize e none →
      r'.render fontSize e.tokens = r.render fontSize e.tokens) ∧
    (∀ c ∉ e.splitRoots,
      { r with parts := r.parts.withSmall c }.render fontSize e.tokens =
        r.render fontSize e.tokens ∧
      { r with parts := r.parts.withUnshrink c }.render fontSize e.tokens =
        r.render fontSize e.tokens) ∧
    ∀ p c data, (some p, c) ∉ e.positioned none →
      { r with parts := r.parts.withVariant p c data }.render fontSize e.tokens =
        r.render fontSize e.tokens := by
  have hrender : ∀ r' : Renderer α, r'.maxDepth = r.maxDepth → r'.Agrees r fontSize e none →
      r'.render fontSize e.tokens = r.render fontSize e.tokens := by
    intro r' hdepth hagrees
    rw [render_tokens, render_tokens, hdepth]
    exact tree_eq_of_agrees hdepth hagrees (r.maxDepth + 1)
  refine ⟨hrender, fun c hc => ⟨?_, ?_⟩, fun p c data hleaf => ?_⟩
  · exact hrender _ rfl (agrees_withSmall hc none)
  · exact hrender _ rfl (agrees_withUnshrink hc none)
  · exact hrender _ rfl (agrees_withVariant hleaf data)

/-- The first part is small for one of two renderers, which has variants for it and for the second
part on other sides, and lacks a character that does not occur. -/
theorem render_eq_of_agrees_elsewhere :
    let r : Renderer Double := ⟨.squares [] 1000.0 1000.0, Parts.empty.withSmall '木', 2⟩
    let parts := ((Parts.empty.withUnshrink '光').withSmall '木').withVariant .left '光' "M0 0"
    let r' : Renderer Double :=
      ⟨.squares ['龷'] 1000.0 1000.0, parts.withVariant .right '口' "M0 0", 2⟩
    let tokens := ['⿲', '光', '⿰', '口', '木', '军']
    r.source '龷' 72.0 ≠ r'.source '龷' 72.0 ∧ r.parts.isSmall '光' ≠ r'.parts.isSmall '光' ∧
      ∃ e, Expr.tokens e = tokens ∧ e.splitRoots = ['口', '木'] ∧ r'.Agrees r 72.0 e none ∧
        r'.render 72.0 tokens = r.render 72.0 tokens := by
  intro r parts r' tokens
  let part (c : Char) (hc : Operator.ofChar? c = none) : Expr := .leaf c hc
  let e : Expr := .ofOperands .leftToMiddleToRight
    [part '光' rfl, .ofOperands .leftToRight [part '口' rfl, part '木' rfl] rfl, part '军' rfl] rfl
  have htokens : e.tokens = tokens := rfl
  have hroots : e.splitRoots = ['口', '木'] := rfl
  have hleaves : e.positioned none =
      [(none, '光'), (some .left, '口'), (some .right, '木'), (none, '军')] := rfl
  have hagrees : r'.Agrees r 72.0 e none := by
    constructor
    · rw [hroots]
      exact List.forall_mem_cons.mpr ⟨rfl, List.forall_mem_singleton.mpr rfl⟩
    · rw [hroots]
      exact List.forall_mem_cons.mpr ⟨rfl, List.forall_mem_singleton.mpr rfl⟩
    · intro p c hleaf
      simp only [hleaves, List.mem_cons, Prod.mk.injEq, reduceCtorEq, false_and, Option.some.injEq,
        false_or, List.not_mem_nil, or_false] at hleaf
      obtain ⟨rfl, rfl⟩ | ⟨rfl, rfl⟩ := hleaf
      · rfl
      · rfl
    · intro c hc
      have hne : c ≠ '龷' := by
        rintro rfl
        exact absurd hc (by decide)
      simp [r, r', GlyphSource.squares, hne]
  refine ⟨by decide, by decide, e, htokens, hroots, hagrees, ?_⟩
  exact (render_eq_of_agrees r 72.0 e).1 r' rfl hagrees

end Renderer

end Ideograph
