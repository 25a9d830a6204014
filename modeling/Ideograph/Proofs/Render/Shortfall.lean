import Ideograph.Proofs.Render.Run

/-! # The operator that lacks operands

Where a sequence ends too early, several operators are open. The one that a drawing reports is the
last of them: behind it the sequence holds complete expressions only, and fewer than it takes.
There is one such operator at most.
-/

namespace Ideograph.Renderer

open Number

variable {α : Type} {r : Renderer α} {fontSize : α} {tokens : List Char} {place : Nat}
  {operator : Char} {expected found : Nat}

theorem lacksOperands_of_ends {total levels : Nat}
    (h : r.Ends total fontSize levels tokens
      (.error (.malformed place (.missingOperand operator expected found))))
    (hown : ¬ r.Reported fontSize tokens
      (.malformed place (.missingOperand operator expected found))) :
    place = total ∧ owedAfter 1 tokens ≠ 0 ∧ ∃ op : Operator,
      operator = op.toChar ∧ expected = op.arity ∧ LacksOperands tokens op found := by
  cases h with
  | short before htokens hlen hopen _ =>
    exact ⟨rfl, hopen, _, rfl, rfl, before, _, htokens, rfl, hlen⟩
  | reported h => exact absurd h hown

variable [Scalar α]

/-- A missing operand is reported at the end of the sequence, for the one operator behind which the
sequence holds complete expressions only, but fewer than it takes; unless the glyph source itself
reports the same. -/
theorem missingOperand_unfinished (r : Renderer α) (fontSize : α)
    (hown : ¬ r.Reported fontSize tokens
      (.malformed place (.missingOperand operator expected found)))
    (h : (r.render fontSize tokens).outcome =
        .error (.malformed place (.missingOperand operator expected found)) ∨
      ∃ position, (r.decompose fontSize position tokens).outcome =
        .error (.malformed place (.missingOperand operator expected found))) :
    place = tokens.length ∧ skip tokens = [] ∧
      ∃ (op : Operator) (before : List Char) (es : List Expr),
        Operator.ofChar? operator = some op ∧ expected = op.arity ∧ found < expected ∧
        es.length = found ∧ tokens = before ++ operator :: es.flatMap Expr.tokens ∧
        ∀ (op' : Operator) (before' : List Char) (es' : List Expr), es'.length < op'.arity →
          tokens = before' ++ op'.toChar :: es'.flatMap Expr.tokens →
          before' = before ∧ op' = op ∧ es' = es := by
  obtain ⟨position, h⟩ : ∃ position, (r.decompose fontSize position tokens).outcome =
      .error (.malformed place (.missingOperand operator expected found)) := by
    rcases h with h | h
    · exact ⟨none, decompose_of_render_error h nofun⟩
    · exact h
  have hne : tokens ≠ [] := by
    rintro rfl
    cases h
  obtain ⟨rfl, hopen, op, rfl, rfl, before, es, htokens, rfl, hlen⟩ :=
    lacksOperands_of_ends (h ▸ decompose_ends r fontSize position hne) hown
  refine ⟨rfl, skipOwed_of_owedAfter_ne_zero hopen, op, before, es, op.ofChar?_toChar, rfl, hlen,
    rfl, htokens, ?_⟩
  intro op' before' es' hlen' htokens'
  exact shortfall_unique (htokens'.symm.trans htokens) hlen' hlen

/-- Of two open operators the inner one is reported, with the two operands that it has. -/
theorem missingOperand_unfinished_inner :
    let r : Renderer Double := { source := .squares [] 1000.0 1000.0 }
    let tokens := ['⿰', '口', '⿲', '口', '⿱', '口', '口']
    ¬ r.Reported 72.0 tokens (.malformed 7 (.missingOperand '⿲' 3 2)) ∧
      (r.render 72.0 tokens).outcome = .error (.malformed 7 (.missingOperand '⿲' 3 2)) ∧
      7 = tokens.length ∧ skip tokens = [] ∧
      ∃ (op : Operator) (before : List Char) (es : List Expr),
        Operator.ofChar? '⿲' = some op ∧ 3 = op.arity ∧ 2 < 3 ∧ es.length = 2 ∧
        tokens = before ++ '⿲' :: es.flatMap Expr.tokens ∧
        ∀ (op' : Operator) (before' : List Char) (es' : List Expr), es'.length < op'.arity →
          tokens = before' ++ op'.toChar :: es'.flatMap Expr.tokens →
          before' = before ∧ op' = op ∧ es' = es := by
  intro r tokens
  have hown : ¬ r.Reported 72.0 tokens (.malformed 7 (.missingOperand '⿲' 3 2)) :=
    not_reported (GlyphSource.keepsContract_squares [] 1000.0 1000.0) nofun nofun
  have hout : (r.render 72.0 tokens).outcome =
      .error (.malformed 7 (.missingOperand '⿲' 3 2)) := by decide +kernel
  exact ⟨hown, hout, missingOperand_unfinished r 72.0 hown (.inl hout)⟩

end Ideograph.Renderer
