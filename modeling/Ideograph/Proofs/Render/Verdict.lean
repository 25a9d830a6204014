import Ideograph.Proofs.Render.Run

/-! # What the tokens decide

Apart from faults of glyphs and of path data, how a drawing ends is decided by the tokens and by
the limit of the nesting. A sequence that nests too deep fails for that. Of the others those are
drawn that are one expression, and the rest either go on after an expression or lack operands.
-/

namespace Ideograph

/-- The outcome of drawing a sequence that its tokens and the limit of the nesting decide. -/
structure Verdict (limit : Nat) (tokens : List Char)
    (outcome : Except RenderError (List String)) : Prop where
  empty : tokens = [] → outcome = .error (.malformed 0 .empty)
  eq_nil_of_empty : ∀ position, outcome = .error (.malformed position .empty) → tokens = []
  deep : NestsTo (limit + 1) 1 tokens → outcome = .error (.tooDeep limit)
  whole : ¬ NestsTo (limit + 1) 1 tokens → ∀ e : Expr, tokens = e.tokens →
    ∃ fragments, outcome = .ok fragments
  trailing : ¬ NestsTo (limit + 1) 1 tokens → ∀ (e : Expr) (rest : List Char),
    tokens = e.tokens ++ rest → rest ≠ [] →
    outcome = .error (.malformed e.tokens.length (.trailing rest.length))
  short : ¬ NestsTo (limit + 1) 1 tokens → tokens ≠ [] → (∀ e : Expr, ¬ e.tokens <+: tokens) →
    ∃ op found, LacksOperands tokens op found ∧
      outcome = .error (.malformed tokens.length (.missingOperand op.toChar op.arity found))

namespace Renderer

open Number

variable {α : Type} {r : Renderer α} {total : Nat} {fontSize : α}

section Ends

variable {levels : Nat} {tokens : List Char}
  {outcome : Except RenderError (List String × List Char)}

theorem Ends.eq_tooDeep (h : r.Ends total fontSize levels tokens outcome)
    (hown : ∀ e, outcome = .error e → ¬ r.Reported fontSize tokens e)
    (hdeep : NestsTo levels 1 tokens) : outcome = .error (.tooDeep r.maxDepth) := by
  cases h with
  | whole fragments htokens hheight =>
    subst htokens
    exact absurd hdeep (not_nestsTo_tokens_append hheight _)
  | deep => rfl
  | short _ _ _ _ hshallow => exact absurd hdeep hshallow
  | reported h => exact absurd h (hown _ rfl)

theorem Ends.exists_ok (h : r.Ends total fontSize levels tokens outcome)
    (hown : ∀ e, outcome = .error e → ¬ r.Reported fontSize tokens e)
    (hshallow : ¬ NestsTo levels 1 tokens) {e : Expr} {rest : List Char}
    (htokens : tokens = e.tokens ++ rest) : ∃ fragments, outcome = .ok (fragments, rest) := by
  cases h with
  | @whole e' rest' fragments htokens' hheight =>
    have hrest : rest' = rest := by
      rw [← skip_tokens_append e' rest', ← htokens', htokens, skip_tokens_append]
    exact ⟨fragments, by rw [hrest]⟩
  | deep hdeep => exact absurd hdeep hshallow
  | short _ _ _ hopen _ =>
    subst htokens
    simp at hopen
  | reported h => exact absurd h (hown _ rfl)

theorem Ends.exists_missing (h : r.Ends total fontSize levels tokens outcome)
    (hown : ∀ e, outcome = .error e → ¬ r.Reported fontSize tokens e)
    (hshallow : ¬ NestsTo levels 1 tokens) (hopen : ∀ e : Expr, ¬ e.tokens <+: tokens) :
    ∃ op found, LacksOperands tokens op found ∧
      outcome = .error (.malformed total (.missingOperand op.toChar op.arity found)) := by
  cases h with
  | whole _ htokens _ => exact absurd ⟨_, htokens.symm⟩ (hopen _)
  | deep hdeep => exact absurd hdeep hshallow
  | short _ htokens hlen _ _ => exact ⟨_, _, ⟨_, _, htokens, rfl, hlen⟩, rfl⟩
  | reported h => exact absurd h (hown _ rfl)

end Ends

variable [Scalar α]

section Outcome

variable {tokens : List Char}

theorem render_error (hne : tokens ≠ []) {e : RenderError}
    (h : (r.decompose fontSize none tokens).outcome = .error e) :
    (r.render fontSize tokens).outcome = .error e := by
  rw [render_of_ne_nil hne, Traced.bind_of_error h]

theorem render_whole (hne : tokens ≠ []) {fragments : List String}
    (h : (r.decompose fontSize none tokens).outcome = .ok (fragments, [])) :
    (r.render fontSize tokens).outcome = .ok fragments := by
  rw [render_of_ne_nil hne]
  exact Traced.outcome_bind_eq_ok.mpr ⟨_, h, rfl⟩

theorem render_trailing {e : Expr} {rest : List Char} (hrest : rest ≠ []) {fragments : List String}
    (h : (r.decompose fontSize none (e.tokens ++ rest)).outcome = .ok (fragments, rest)) :
    (r.render fontSize (e.tokens ++ rest)).outcome =
      .error (.malformed e.tokens.length (.trailing rest.length)) := by
  rw [render_of_ne_nil (by simp [hrest])]
  refine Traced.outcome_bind_eq_error.mpr (.inr ⟨_, h, ?_⟩)
  simp [hrest]

end Outcome

variable {tokens : List Char} in
theorem render_ne_empty (hne : tokens ≠ [])
    (hown : ∀ e, (r.render fontSize tokens).outcome = .error e →
      ¬ r.Reported fontSize tokens e) (position : Nat) :
    (r.render fontSize tokens).outcome ≠ .error (.malformed position .empty) := by
  intro h
  have hends := decompose_ends r fontSize none hne
  rcases hout : (r.decompose fontSize none tokens).outcome with e | ⟨fragments, rest⟩
  · have herr := render_error hne hout
    obtain rfl : e = .malformed position .empty := by
      rw [herr] at h
      exact Except.error.inj h
    rw [hout] at hends
    cases hends with
    | reported hrep => exact hown _ herr hrep
  · rw [hout] at hends
    cases hends with
    | whole _ htokens _ =>
      subst htokens
      by_cases hrest : rest = []
      · subst hrest
        rw [render_whole hne hout] at h
        cases h
      · rw [render_trailing hrest hout] at h
        cases h

/-- Unless the source or path data reports an error, a sequence is drawn exactly if it is one
expression that does not nest too deep, and every other one fails as its tokens decide. It begins
with one expression at most, and lacks operands at one operator at most. -/
theorem render_verdict (r : Renderer α) (fontSize : α) (tokens : List Char)
    (hown : ∀ e, (r.render fontSize tokens).outcome = .error e →
      ¬ r.Reported fontSize tokens e) :
    Verdict r.maxDepth tokens (r.render fontSize tokens).outcome ∧
      (∀ e e' : Expr, e.tokens <+: tokens → e'.tokens <+: tokens → e.tokens = e'.tokens) ∧
      ∀ op op' found found', LacksOperands tokens op found → LacksOperands tokens op' found' →
        op = op' ∧ found = found' := by
  refine ⟨?_, fun e e' => Expr.tokens_eq_of_prefix, fun op op' found found' => LacksOperands.unique⟩
  by_cases hne : tokens = []
  · subst hne
    exact
      { empty := fun _ => rfl
        eq_nil_of_empty := fun _ _ => rfl
        deep := by simp [NestsTo]
        whole := fun _ e he => absurd he.symm e.tokens_ne_nil
        trailing := by simp +contextual
        short := fun _ hne => absurd rfl hne }
  have hends := decompose_ends r fontSize none hne
  have hown' : ∀ e, (r.decompose fontSize none tokens).outcome = .error e →
      ¬ r.Reported fontSize tokens e := fun e he => hown e (render_error hne he)
  exact
    { empty := fun h => absurd h hne
      eq_nil_of_empty := fun position h => absurd h (render_ne_empty hne hown position)
      deep := fun h => render_error hne (hends.eq_tooDeep hown' h)
      whole := by
        rintro hshallow e rfl
        obtain ⟨fragments, h⟩ := hends.exists_ok hown' hshallow (List.append_nil _).symm
        exact ⟨fragments, render_whole hne h⟩
      trailing := by
        rintro hshallow e rest rfl hrest
        obtain ⟨fragments, h⟩ := hends.exists_ok hown' hshallow rfl
        exact render_trailing hrest h
      short := by
        intro hshallow _ hopen
        obtain ⟨op, found, hlacks, h⟩ := hends.exists_missing hown' hshallow hopen
        exact ⟨op, found, hlacks, render_error hne h⟩ }

/-- With at most two operators around a token, the last operator lacks its third operand. -/
theorem render_verdict_truncated :
    let r : Renderer Double := ⟨.squares [] 1000.0 1000.0, .builtin, 2⟩
    let tokens := ['⿰', '口', '⿲', '口', '口']
    (∀ e, (r.render 72.0 tokens).outcome = .error e → ¬ r.Reported 72.0 tokens e) ∧
      Verdict 2 tokens (.error (.malformed 5 (.missingOperand '⿲' 3 2))) := by
  intro r tokens
  have hout : (r.render 72.0 tokens).outcome =
      .error (.malformed 5 (.missingOperand '⿲' 3 2)) := rfl
  have hown : ∀ e, (r.render 72.0 tokens).outcome = .error e →
      ¬ r.Reported 72.0 tokens e := by
    intro e he
    rw [hout] at he
    cases he
    exact not_reported (GlyphSource.keepsContract_squares [] 1000.0 1000.0) nofun nofun
  exact ⟨hown, hout ▸ (render_verdict r 72.0 tokens hown).1⟩

end Renderer

end Ideograph
