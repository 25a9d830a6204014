import Ideograph.Proofs.Render.Extension

/-! # Raising the limit of the nesting

Every drawing counts the operators around a token down from its own limit. So one with a higher
limit goes the same way as long as the lower limit lasts, and they part only where the lower one
is exceeded, before the token that lies too deep is looked at.
-/

namespace Ideograph.Renderer

open Number Traced

variable {α : Type}

/-- The limit is only exceeded by the operators around a token. -/
theorem nestsTo_of_tooDeep {r : Renderer α} {fontSize : α} {total levels reported : Nat}
    {tokens : List Char} (h : r.Ends total fontSize levels tokens (.error (.tooDeep reported)))
    (hown : ¬ r.Reported fontSize tokens (.tooDeep reported)) :
    reported = r.maxDepth ∧ NestsTo levels 1 tokens := by
  cases h with
  | deep hdeep => exact ⟨rfl, hdeep⟩
  | reported h => exact absurd h hown

section Operands

variable {draw draw' : Option Position → List Char → Traced (List String × List Char)}
  {missing : Nat → RenderError} {stop : RenderError → Prop}

/-- Operands that each go on from a shorter drawing do so in a row. -/
theorem operands_continues_of_draw
    (hdraw : ∀ position tokens, Continues stop Eq (draw position tokens) (draw' position tokens))
    (found : Nat) (slots : List (Slot α)) (tokens : List Char) :
    Continues stop Eq (operands draw missing found slots tokens)
      (operands draw' missing found slots tokens) := by
  induction slots generalizing found tokens with
  | nil => exact .ok [] rfl
  | cons slot slots ih =>
    cases tokens with
    | nil => exact .error [] (missing found)
    | cons token rest =>
      rw [operands_cons found slot slots (by simp), operands_cons found slot slots (by simp)]
      refine (hdraw slot.position (token :: rest)).bind ?_
      rintro ⟨fragments, rest⟩ _ - rfl
      refine (ih (found + 1) rest).bind ?_
      rintro ⟨layers, after⟩ _ - rfl
      exact .ok [] rfl

end Operands

variable [Scalar α] (r : Renderer α) (fontSize : α)

/-- The levels of the lower limit are left first, since both count down one by one. -/
theorem expression_continues_limit (limit total : Nat) {levels levels' : Nat}
    (hlevels : levels ≤ levels') (position : Option Position) (tokens : List Char) :
    Continues (· = .tooDeep r.maxDepth) Eq (r.expression total fontSize levels position tokens)
      ({ r with maxDepth := limit }.expression total fontSize levels' position tokens) := by
  induction levels generalizing levels' position tokens with
  | zero => exact .stopped rfl List.nil_prefix
  | succ levels ih =>
    obtain ⟨levels', rfl⟩ := Nat.exists_eq_add_of_le' hlevels
    rw [← Nat.add_assoc] at hlevels ⊢
    cases tokens with
    | nil => exact .error [] (.malformed total .empty)
    | cons token rest =>
      cases hop : Operator.ofChar? token with
      | none =>
        rw [expression_leaf _ total fontSize _ position hop,
          expression_leaf _ total fontSize _ position hop]
        exact Continues.refl _
      | some op =>
        obtain rfl := Operator.toChar_of_ofChar? hop
        rw [expression_operator, expression_operator]
        refine (operands_continues_of_draw (fun position tokens =>
          ih (Nat.le_of_succ_le_succ hlevels) position tokens) 0 _ rest).bind ?_
        rintro drawn _ - rfl
        exact Continues.refl _

variable {r fontSize} in
/-- A drawing that succeeds within fewer levels is the same within more. -/
theorem tree_of_le {e : Expr} {levels levels' : Nat} (hlevels : levels ≤ levels')
    {position : Option Position} {fragments : List String}
    (h : (r.tree fontSize e levels position).outcome = .ok fragments) :
    (r.tree fontSize e levels' position).outcome = .ok fragments := by
  have hcontinues := expression_continues_limit r fontSize r.maxDepth 0 hlevels position
    (e.tokens ++ [])
  rw [expression_tokens_append, expression_tokens_append] at hcontinues
  have hshort : (do return (← r.tree fontSize e levels position, []) :
      Traced (List String × List Char)).outcome = .ok (fragments, []) :=
    Traced.outcome_bind_eq_ok.mpr ⟨fragments, h, rfl⟩
  obtain ⟨reason, -, hstopped⟩ | hsame := hcontinues.stopped_or_eq
  · rw [hshort] at hstopped
    cases hstopped
  · rw [← hsame] at hshort
    obtain ⟨fragments', hout, hpure⟩ := Traced.outcome_bind_eq_ok.mp hshort
    obtain ⟨rfl, -⟩ := Prod.mk.inj (pure_eq_ok_iff.mp hpure)
    exact hout

/-- Under a higher limit a drawing ends as it does under the lower one, unless that is exceeded,
and asks first for the same. Where a limit is reported to be exceeded, and not by a glyph, it is the
lower one, and a token of the first expression stands inside more operators than it allows. -/
theorem decompose_limit_le (r : Renderer α) (fontSize : α) (position : Option Position)
    (tokens : List Char) {limit : Nat} (hlimit : r.maxDepth ≤ limit) :
    let low := r.decompose fontSize position tokens
    let high := { r with maxDepth := limit }.decompose fontSize position tokens
    (low.outcome = .error (.tooDeep r.maxDepth) ∨ high = low) ∧
    low.requests <+: high.requests ∧
    ∀ reported, low.outcome = .error (.tooDeep reported) →
      ¬ r.Reported fontSize tokens (.tooDeep reported) →
      reported = r.maxDepth ∧ NestsTo (r.maxDepth + 1) 1 tokens := by
  intro low high
  have h : Continues (· = .tooDeep r.maxDepth) Eq low high :=
    expression_continues_limit r fontSize limit tokens.length (Nat.succ_le_succ hlimit) position
      tokens
  refine ⟨?_, h.requests_prefix, ?_⟩
  · obtain ⟨e, rfl, hout⟩ | hsame := h.stopped_or_eq
    · exact .inl hout
    · exact .inr hsame
  · intro reported hout
    have hne : tokens ≠ [] := by
      rintro rfl
      cases hout
    exact nestsTo_of_tooDeep (hout ▸ decompose_ends r fontSize position hne)

/-- The last two parts lie inside two operators, which is one too many for the lower limit. -/
theorem decompose_limit_le_exceeded :
    let r : Renderer Double := ⟨.squares [] 1000.0 1000.0, .builtin, 1⟩
    let tokens := ['⿰', '口', '⿱', '光', '口']
    let low := r.decompose 72.0 none tokens
    let high := { r with maxDepth := 2 }.decompose 72.0 none tokens
    r.maxDepth ≤ 2 ∧ low.outcome = .error (.tooDeep 1) ∧ low.requests = ['口'] ∧
      high.requests = ['口', '光', '口'] ∧ low.requests <+: high.requests ∧
      ¬ r.Reported 72.0 tokens (.tooDeep 1) ∧ NestsTo 2 1 tokens := by
  intro r tokens low high
  have hlimit : r.maxDepth ≤ 2 := by decide
  have hout : low.outcome = .error (.tooDeep 1) := by decide +kernel
  have hown : ¬ r.Reported 72.0 tokens (.tooDeep 1) :=
    not_reported (GlyphSource.keepsContract_squares [] 1000.0 1000.0) nofun nofun
  obtain ⟨-, hlog, hdeep⟩ := decompose_limit_le r 72.0 none tokens hlimit
  obtain ⟨-, hnests⟩ := hdeep 1 hout hown
  exact ⟨hlimit, hout, by decide +kernel, by decide +kernel, hlog, hown, hnests⟩

end Ideograph.Renderer
