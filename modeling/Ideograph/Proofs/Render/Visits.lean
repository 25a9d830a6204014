import Ideograph.Proofs.Render.Run

/-! # What a drawing visits

A drawing visits every token at which it begins an expression, an operator before its operands.
Looking ahead from an operator finds the token at which the second operand is begun later. Where
it finds none, no second operand is begun and the operator is not drawn.
-/

namespace Ideograph

open Number

/-- A place that a drawing visits. -/
inductive Visit (α : Type) where
  | leaf (position : Option Position) (c : Char)
  /-- An operator with the tokens behind it, and the slot and the tokens of each operand begun. -/
  | operator (levels : Nat) (op : Operator) (rest : List Char)
      (begun : List (Slot α × List Char))

namespace Renderer

variable {α : Type}

section Operands

variable (draw : Option Position → List Char → Traced (List String × List Char))

/-- The operands that are begun when they are drawn into slots one after another. -/
def begun : List (Slot α) → List Char → List (Slot α × List Char)
  | [], _ => []
  | _ :: _, [] => []
  | slot :: slots, token :: rest =>
    (slot, token :: rest) ::
      match (draw slot.position (token :: rest)).outcome with
      | .ok (_, rest) => begun slots rest
      | .error _ => []

variable {draw} {draw' : Option Position → List Char → Traced (List String × List Char)}
  {missing : Nat → RenderError}

theorem requests_operands (found : Nat) (slots : List (Slot α)) (tokens : List Char) :
    (operands draw missing found slots tokens).requests =
      (begun draw slots tokens).flatMap fun (slot, start) =>
        (draw slot.position start).requests := by
  induction slots generalizing found tokens with
  | nil => rfl
  | cons slot slots ih =>
    cases tokens with
    | nil => rfl
    | cons token rest =>
      rw [operands, begun]
      rcases hdraw : (draw slot.position (token :: rest)).outcome with e | ⟨fragments, rest'⟩
      · simp [Traced.bind_of_error hdraw]
      · rw [Traced.bind_of_ok hdraw, List.flatMap_cons, ← ih (found + 1) rest',
          Traced.requests_bind fun _ => Traced.requests_pure _]

/-- Operands are drawn alike by drawings that agree on those that are begun. -/
theorem operands_congr_begun {found : Nat} {slots : List (Slot α)} {tokens : List Char}
    (h : ∀ operand ∈ begun draw slots tokens,
      draw' operand.1.position operand.2 = draw operand.1.position operand.2) :
    operands draw' missing found slots tokens = operands draw missing found slots tokens := by
  induction slots generalizing found tokens with
  | nil => rfl
  | cons slot slots ih =>
    cases tokens with
    | nil => rfl
    | cons token rest =>
      rw [begun, List.forall_mem_cons] at h
      rw [operands, operands, h.1]
      rcases hdraw : (draw slot.position (token :: rest)).outcome with e | ⟨fragments, rest'⟩
      · rw [Traced.bind_of_error hdraw, Traced.bind_of_error hdraw]
      · rw [Traced.bind_of_ok hdraw, Traced.bind_of_ok hdraw]
        have hrest : ∀ operand ∈ begun draw slots rest',
            draw' operand.1.position operand.2 = draw operand.1.position operand.2 := by
          simpa [hdraw] using h.2
        simp only [ih hrest]

/-- The second operand is begun where the first one ends. -/
theorem exists_of_begun_second {slots : List (Slot α)} {tokens start : List Char} {slot : Slot α}
    (h : (begun draw slots tokens)[1]? = some (slot, start)) :
    ∃ first fragments, tokens ≠ [] ∧ start ≠ [] ∧
      (draw first tokens).outcome = .ok (fragments, start) := by
  obtain _ | ⟨first, slots⟩ := slots
  · simp [begun] at h
  obtain _ | ⟨token, rest⟩ := tokens
  · simp [begun] at h
  rcases hdraw : (draw first.position (token :: rest)).outcome with e | ⟨fragments, rest'⟩
  · simp [begun, hdraw] at h
  obtain _ | ⟨second, slots⟩ := slots
  · simp [begun, hdraw] at h
  obtain _ | ⟨token', rest'⟩ := rest'
  · simp [begun, hdraw] at h
  · simp only [begun, hdraw, List.getElem?_cons_succ, List.getElem?_cons_zero,
      Option.some.injEq, Prod.mk.injEq] at h
    obtain ⟨-, rfl⟩ := h
    exact ⟨first.position, fragments, by simp, by simp, hdraw⟩

variable (missing) in
/-- Where the first of several operands leaves nothing, no second one is begun. -/
theorem begun_le_one {slots : List (Slot α)} {tokens : List Char} (hlen : 2 ≤ slots.length)
    (h : ∀ position fragments rest, tokens ≠ [] →
      (draw position tokens).outcome = .ok (fragments, rest) → rest = []) :
    (begun draw slots tokens).length ≤ 1 ∧
      ∃ e, (operands draw missing 0 slots tokens).outcome = .error e ∧
        (e = missing (begun draw slots tokens).length ∨
          ∃ slot start, (begun draw slots tokens).head? = some (slot, start) ∧
            (draw slot.position start).outcome = .error e) := by
  obtain _ | ⟨first, _ | ⟨second, slots⟩⟩ := slots
  · simp at hlen
  · simp at hlen
  obtain _ | ⟨token, rest⟩ := tokens
  · exact ⟨by simp [begun], missing 0, rfl, .inl rfl⟩
  rcases hdraw : (draw first.position (token :: rest)).outcome with e | ⟨fragments, rest'⟩
  · refine ⟨by simp [begun, hdraw], e, ?_, .inr ⟨first, token :: rest, by simp [begun], hdraw⟩⟩
    rw [operands, Traced.bind_of_error hdraw]
  · obtain rfl := h _ _ _ (by simp) hdraw
    refine ⟨by simp [begun, hdraw], missing 1, ?_, .inl (by simp [begun, hdraw])⟩
    rw [operands]
    exact Traced.outcome_bind_eq_error.mpr (.inr ⟨_, hdraw, rfl⟩)

end Operands

variable [Scalar α] (r : Renderer α) (total : Nat) (fontSize : α)

/-- Composing operands asks for nothing more than they do. -/
theorem requests_expression_operator (levels : Nat) (position : Option Position) (op : Operator)
    (rest : List Char) :
    (r.expression total fontSize (levels + 1) position (op.toChar :: rest)).requests =
      (begun (r.expression total fontSize levels) (op.layout rest fontSize r.parts) rest).flatMap
        fun (slot, start) => (r.expression total fontSize levels slot.position start).requests := by
  have hcompose : ∀ drawn : List (Layer α) × List Char,
      (do return (← Traced.lift (compose drawn.1), drawn.2) :
        Traced (List String × List Char)).requests = [] :=
    fun _ => Traced.requests_bind fun _ => Traced.requests_pure _
  rw [expression_operator, Traced.requests_bind hcompose, requests_operands]

/-- What drawing the first expression inside at most `levels - 1` operators visits, in order. -/
def visits : Nat → Option Position → List Char → List (Visit α)
  | 0, _, _ => []
  | _ + 1, _, [] => []
  | levels + 1, position, token :: rest =>
    match Operator.ofChar? token with
    | none => [.leaf position token]
    | some op =>
      let begun := begun (r.expression total fontSize levels) (op.layout rest fontSize r.parts) rest
      .operator levels op rest begun ::
        begun.flatMap fun (slot, start) => visits levels slot.position start

/-- What is asked for at a place. -/
def requestsAt : Visit α → List Char
  | .leaf position c => (r.leaf fontSize position c).requests
  | .operator .. => []

/-- Every request of a drawing is one of a leaf that it visits. -/
theorem requests_expression (levels : Nat) (position : Option Position) (tokens : List Char) :
    (r.expression total fontSize levels position tokens).requests =
      (r.visits total fontSize levels position tokens).flatMap (r.requestsAt fontSize) := by
  induction levels generalizing position tokens with
  | zero => rfl
  | succ levels ih =>
    cases tokens with
    | nil => rfl
    | cons token rest =>
      cases hop : Operator.ofChar? token with
      | none =>
        rw [expression_leaf r total fontSize levels position hop,
          Traced.requests_bind fun _ => Traced.requests_pure _]
        simp [visits, hop, requestsAt]
      | some op =>
        obtain rfl := Operator.toChar_of_ofChar? hop
        rw [requests_expression_operator]
        simp only [visits, hop, List.flatMap_cons, requestsAt, List.nil_append, List.flatMap_assoc,
          ih]

/-- The operands that are begun at an operator are those that its drawing draws. It asks for what
they ask for, in their order, and depends on how these are drawn and on no others. -/
structure Begins (levels : Nat) (op : Operator) (rest : List Char)
    (begun : List (Slot α × List Char)) : Prop where
  eq_begun : begun =
    Renderer.begun (r.expression total fontSize levels) (op.layout rest fontSize r.parts) rest
  requests : ∀ position,
    (r.expression total fontSize (levels + 1) position (op.toChar :: rest)).requests =
      begun.flatMap fun (slot, start) =>
        (r.expression total fontSize levels slot.position start).requests
  congr : ∀ draw, (∀ operand ∈ begun, draw operand.1.position operand.2 =
      r.expression total fontSize levels operand.1.position operand.2) → ∀ position,
    r.expression total fontSize (levels + 1) position (op.toChar :: rest) = do
      let (layers, rest) ← operands draw
        (fun found => .malformed total (.missingOperand op.toChar op.arity found)) 0
        (op.layout rest fontSize r.parts) rest
      return (← Traced.lift (compose layers), rest)

/-- An operator is laid out with the token at which its second operand is begun, and no second
operand is begun where looking ahead finds none. -/
structure Foreseen (levels : Nat) (op : Operator) (rest : List Char)
    (begun : List (Slot α × List Char)) : Prop where
  second : ∀ slot start, begun[1]? = some (slot, start) → start = skip rest ∧
    ∃ token, start.head? = some token ∧ secondRoot? rest = some token ∧
      op.layout rest fontSize r.parts = op.slots rest.head? (some token) fontSize r.parts
  absent : secondRoot? rest = none → begun.length ≤ 1 ∧ ∀ position, ∃ e,
    (r.expression total fontSize (levels + 1) position (op.toChar :: rest)).outcome = .error e ∧
      (e = .malformed total (.missingOperand op.toChar op.arity begun.length) ∨
        ∃ slot start, begun.head? = some (slot, start) ∧
          (r.expression total fontSize levels slot.position start).outcome = .error e)

variable {r total fontSize}

theorem rest_eq_skip {levels : Nat} {position : Option Position} {tokens rest : List Char}
    {fragments : List String} (hne : tokens ≠ [])
    (h : (r.expression total fontSize levels position tokens).outcome = .ok (fragments, rest)) :
    rest = skip tokens := by
  obtain ⟨e, rfl, -⟩ := Ends.exists_expr (h ▸ expression_ends r total fontSize levels position hne)
  rw [skip_tokens_append]

theorem operator_foreseen (levels : Nat) (op : Operator) (rest : List Char) :
    r.Foreseen total fontSize levels op rest
      (begun (r.expression total fontSize levels) (op.layout rest fontSize r.parts) rest) where
  second := by
    intro slot start h
    obtain ⟨first, fragments, hne, hstart, hdraw⟩ := exists_of_begun_second h
    obtain rfl := rest_eq_skip hne hdraw
    obtain ⟨token, more, hskip⟩ := List.exists_cons_of_ne_nil hstart
    have hsecond : secondRoot? rest = some token := by rw [secondRoot?, hskip, List.head?_cons]
    exact ⟨rfl, token, hsecond, hsecond, by rw [Operator.layout, hsecond]⟩
  absent := by
    intro hnone
    have hskip : skip rest = [] := List.head?_eq_none_iff.mp hnone
    have hlen : 2 ≤ (op.layout rest fontSize r.parts).length :=
      (op.length_layout rest fontSize r.parts).symm ▸ op.two_le_arity
    obtain ⟨hle, e, herr, hcause⟩ := begun_le_one
      (fun found => .malformed total (.missingOperand op.toChar op.arity found))
      hlen fun position fragments more hne hdraw =>
        (rest_eq_skip (r := r) hne hdraw).trans hskip
    refine ⟨hle, fun position => ⟨e, ?_, hcause⟩⟩
    rw [expression_operator, Traced.bind_of_error herr]

theorem operator_begins (levels : Nat) (op : Operator) (rest : List Char) :
    r.Begins total fontSize levels op rest
      (begun (r.expression total fontSize levels) (op.layout rest fontSize r.parts) rest) where
  eq_begun := rfl
  requests position := requests_expression_operator r total fontSize levels position op rest
  congr draw hdraw position := by
    rw [expression_operator, operands_congr_begun hdraw]

theorem eq_begun_of_mem_visits {levels levels' : Nat} {position : Option Position}
    {tokens rest : List Char} {op : Operator} {begun : List (Slot α × List Char)}
    (h : .operator levels' op rest begun ∈ r.visits total fontSize levels position tokens) :
    begun = Renderer.begun (r.expression total fontSize levels')
      (op.layout rest fontSize r.parts) rest := by
  induction levels generalizing position tokens with
  | zero => cases h
  | succ levels ih =>
    cases tokens with
    | nil => cases h
    | cons token tokens =>
      rw [visits] at h
      split at h
      · simp at h
      · rcases List.mem_cons.mp h with heq | hmem
        · cases heq
          rfl
        · obtain ⟨⟨slot, start⟩, -, hmem⟩ := List.mem_flatMap.mp hmem
          exact ih hmem

variable (r total fontSize) in
theorem exists_mem_visits_operator (levels : Nat) (position : Option Position) (op : Operator)
    (rest : List Char) :
    ∃ begun, .operator levels op rest begun ∈
      r.visits total fontSize (levels + 1) position (op.toChar :: rest) :=
  ⟨_, by rw [visits, op.ofChar?_toChar]; exact List.mem_cons_self⟩

/-- The operators with which begun operands begin are visited in turn. -/
theorem exists_mem_visits_operand {levels levels' : Nat} {position : Option Position}
    {tokens rest rest' : List Char} {op op' : Operator} {slot : Slot α}
    {begun : List (Slot α × List Char)}
    (h : .operator (levels' + 1) op rest begun ∈ r.visits total fontSize levels position tokens)
    (hbegun : (slot, op'.toChar :: rest') ∈ begun) :
    ∃ begun', .operator levels' op' rest' begun' ∈
      r.visits total fontSize levels position tokens := by
  induction levels generalizing position tokens with
  | zero => cases h
  | succ levels ih =>
    cases tokens with
    | nil => cases h
    | cons token tokens =>
      rw [visits] at h ⊢
      split at h
      · simp at h
      · rcases List.mem_cons.mp h with heq | hmem
        · cases heq
          obtain ⟨begun', hvisit⟩ :=
            exists_mem_visits_operator r total fontSize levels' slot.position op' rest'
          exact ⟨begun', List.mem_cons_of_mem _ (List.mem_flatMap.mpr ⟨_, hbegun, hvisit⟩)⟩
        · obtain ⟨operand, hoperand, hmem⟩ := List.mem_flatMap.mp hmem
          obtain ⟨begun', hvisit⟩ := ih hmem
          exact ⟨begun', List.mem_cons_of_mem _ (List.mem_flatMap.mpr ⟨operand, hoperand, hvisit⟩)⟩

/-- A drawing leaves what looking ahead leaves, and is laid out with the tokens that it then
draws, at every operator that it visits. These are the operator in front, and those with which the
operands begin that are begun at one of them. What is visited is what is drawn: a drawing asks for
what the leaves that it visits ask for, and operands, whichever way they are drawn, ask for what
those that are begun ask for. -/
theorem decompose_foreseen (r : Renderer α) (fontSize : α) (position : Option Position)
    (tokens : List Char) :
    let visits := r.visits tokens.length fontSize (r.maxDepth + 1) position tokens
    (∀ fragments rest, (r.decompose fontSize position tokens).outcome = .ok (fragments, rest) →
      rest = skip tokens) ∧
    (∀ levels op rest begun, .operator levels op rest begun ∈ visits →
      r.Foreseen tokens.length fontSize levels op rest begun ∧
      r.Begins tokens.length fontSize levels op rest begun) ∧
    (∀ op rest, tokens = op.toChar :: rest → ∃ begun, .operator r.maxDepth op rest begun ∈ visits) ∧
    (∀ levels op rest begun slot op' rest', .operator (levels + 1) op rest begun ∈ visits →
      (slot, op'.toChar :: rest') ∈ begun →
      ∃ begun', .operator levels op' rest' begun' ∈ visits) ∧
    (r.decompose fontSize position tokens).requests = visits.flatMap (r.requestsAt fontSize) ∧
    ∀ draw missing found (slots : List (Slot α)) tokens,
      (operands draw missing found slots tokens).requests =
        (begun draw slots tokens).flatMap fun (slot, start) =>
          (draw slot.position start).requests := by
  refine ⟨?_, ?_, ?_, fun _ _ _ _ _ _ _ => exists_mem_visits_operand,
    requests_expression r tokens.length fontSize _ position tokens,
    fun draw missing => requests_operands⟩
  · intro fragments rest h
    cases tokens with
    | nil => cases h
    | cons token tokens => exact rest_eq_skip (by simp) h
  · intro levels op rest begun hvisit
    obtain rfl := eq_begun_of_mem_visits hvisit
    exact ⟨operator_foreseen levels op rest, operator_begins levels op rest⟩
  · rintro op rest rfl
    exact exists_mem_visits_operator r _ fontSize r.maxDepth position op rest

end Renderer

end Ideograph
