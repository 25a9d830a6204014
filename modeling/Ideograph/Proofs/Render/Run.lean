import Ideograph.Proofs.Expr.Nesting
import Ideograph.Proofs.Glyph.Contract
import Ideograph.Render.Engine

/-! # How a drawing ends

The operands of an operator are drawn one after another, and the loop over them ends with all of
them, with one that finds no tokens, or with the error of one. From this every end of a drawing
follows: it has read one expression, or a token was nested too deep, or the sequence was too short,
or a glyph or path data was at fault.
-/

namespace Ideograph.Renderer

open Number

variable {α : Type}

section Operands

variable {draw : Option Position → List Char → Traced (List String × List Char)}
  {missing : Nat → RenderError}

/-- Operands drawn into slots one after another: the slots, the tokens, what is drawn, and the
tokens that are left. -/
inductive Drawn (draw : Option Position → List Char → Traced (List String × List Char)) :
    List (Slot α) → List Char → List (Layer α) → List Char → Prop where
  | nil (tokens : List Char) : Drawn draw [] tokens [] tokens
  | cons {slot : Slot α} {slots : List (Slot α)} {tokens rest after : List Char}
      {fragments : List String} {layers : List (Layer α)} : tokens ≠ [] →
      (draw slot.position tokens).outcome = .ok (fragments, rest) →
      Drawn draw slots rest layers after →
      Drawn draw (slot :: slots) tokens (⟨fragments, slot⟩ :: layers) after

theorem operands_cons (found : Nat) (slot : Slot α) (slots : List (Slot α)) {tokens : List Char}
    (h : tokens ≠ []) :
    operands draw missing found (slot :: slots) tokens = do
      let (fragments, rest) ← draw slot.position tokens
      let (layers, rest) ← operands draw missing (found + 1) slots rest
      return (⟨fragments, slot⟩ :: layers, rest) := by
  cases tokens with
  | nil => exact absurd rfl h
  | cons token rest => rfl

variable (draw missing) in
theorem operands_cases (found : Nat) (slots : List (Slot α)) (tokens : List Char) :
    (∃ layers after, Drawn draw slots tokens layers after ∧
      (operands draw missing found slots tokens).outcome = .ok (layers, after)) ∨
    (∃ done slot later layers, slots = done ++ slot :: later ∧
      Drawn draw done tokens layers [] ∧
      (operands draw missing found slots tokens).outcome =
        .error (missing (found + done.length))) ∨
    (∃ done slot later layers after e, slots = done ++ slot :: later ∧
      Drawn draw done tokens layers after ∧ after ≠ [] ∧
      (draw slot.position after).outcome = .error e ∧
      (operands draw missing found slots tokens).outcome = .error e) := by
  induction slots generalizing found tokens with
  | nil => exact .inl ⟨[], tokens, .nil tokens, rfl⟩
  | cons slot slots ih =>
    by_cases hne : tokens = []
    · subst hne
      exact .inr (.inl ⟨[], slot, slots, [], rfl, .nil [], rfl⟩)
    rw [operands_cons found slot slots hne]
    rcases hdraw : (draw slot.position tokens).outcome with e | ⟨fragments, rest⟩
    · exact .inr (.inr ⟨[], slot, slots, [], tokens, e, rfl, .nil tokens, hne, hdraw,
        Traced.outcome_bind_eq_error.mpr (.inl hdraw)⟩)
    obtain ⟨layers, after, hdrawn, hout⟩ |
      ⟨done, slot', later, layers, rfl, hdrawn, hout⟩ |
      ⟨done, slot', later, layers, after, e, rfl, hdrawn, hafter, herr, hout⟩ :=
      ih (found + 1) rest
    · exact .inl ⟨_, after, .cons hne hdraw hdrawn, Traced.outcome_bind_eq_ok.mpr
        ⟨_, hdraw, Traced.outcome_bind_eq_ok.mpr ⟨_, hout, rfl⟩⟩⟩
    · rw [Nat.add_assoc, Nat.add_comm 1] at hout
      exact .inr (.inl ⟨slot :: done, slot', later, _, rfl, .cons hne hdraw hdrawn,
        Traced.outcome_bind_eq_error.mpr
          (.inr ⟨_, hdraw, Traced.outcome_bind_eq_error.mpr (.inl hout)⟩)⟩)
    · exact .inr (.inr ⟨slot :: done, slot', later, _, after, e, rfl,
        .cons hne hdraw hdrawn, hafter, herr, Traced.outcome_bind_eq_error.mpr
          (.inr ⟨_, hdraw, Traced.outcome_bind_eq_error.mpr (.inl hout)⟩)⟩)

theorem drawn_of_operands {found : Nat} {slots : List (Slot α)} {tokens after : List Char}
    {layers : List (Layer α)}
    (h : (operands draw missing found slots tokens).outcome = .ok (layers, after)) :
    Drawn draw slots tokens layers after := by
  obtain ⟨layers', after', hdrawn, hout⟩ | ⟨_, _, _, _, _, _, hout⟩ |
    ⟨_, _, _, _, _, _, _, _, _, _, hout⟩ := operands_cases draw missing found slots tokens
  · rw [h] at hout
    cases hout
    exact hdrawn
  · rw [h] at hout
    cases hout
  · rw [h] at hout
    cases hout

theorem Drawn.row {slots : List (Slot α)} {tokens after : List Char} {layers : List (Layer α)}
    (h : Drawn draw slots tokens layers after) {P : Expr → Prop}
    (hdraw : ∀ position tokens fragments rest, tokens ≠ [] →
      (draw position tokens).outcome = .ok (fragments, rest) →
      ∃ e : Expr, tokens = e.tokens ++ rest ∧ P e) :
    ∃ es : List Expr, es.length = slots.length ∧ tokens = es.flatMap Expr.tokens ++ after ∧
      ∀ e ∈ es, P e := by
  induction h with
  | nil tokens => exact ⟨[], rfl, rfl, by simp⟩
  | cons hne hout _ ih =>
    obtain ⟨e, rfl, he⟩ := hdraw _ _ _ _ hne hout
    obtain ⟨es, hlen, rfl, hes⟩ := ih
    exact ⟨e :: es, by simp [hlen], by simp, by simpa using ⟨he, hes⟩⟩

end Operands

variable (r : Renderer α) (total : Nat) (fontSize : α)

/-- The errors of drawing tokens that their order does not decide: those that the glyph source gives
for one of them, such as a character that it lacks, and those of path data. -/
def Reported (tokens : List Char) (e : RenderError) : Prop :=
  (∃ c ∈ tokens, r.source c fontSize = .error e) ∨ ∃ fault, e = .path fault

variable {r fontSize} in
theorem Reported.mono {tokens tokens' : List Char} {e : RenderError}
    (h : r.Reported fontSize tokens e) (hsub : tokens ⊆ tokens') :
    r.Reported fontSize tokens' e := by
  rcases h with ⟨c, hc, he⟩ | hfault
  · exact .inl ⟨c, hsub hc, he⟩
  · exact .inr hfault

variable {r fontSize} in
/-- A source that keeps its contract reports no error that only a drawing makes. -/
theorem not_reported (h : r.source.KeepsContract) {tokens : List Char} {e : RenderError}
    (hunsupported : ∀ c, e ≠ .unsupported c) (hpath : ∀ fault, e ≠ .path fault) :
    ¬ r.Reported fontSize tokens e := by
  rintro (⟨c, -, hsource⟩ | ⟨fault, hfault⟩)
  · exact h.ne_error hunsupported hpath hsource
  · exact hpath fault hfault

/-- The ends that a drawing of tokens inside at most `levels - 1` operators can have. -/
inductive Ends (levels : Nat) (tokens : List Char) :
    Except RenderError (List String × List Char) → Prop where
  | whole {e : Expr} {rest : List Char} (fragments : List String) :
      tokens = e.tokens ++ rest → e.height < levels → Ends levels tokens (.ok (fragments, rest))
  | deep : NestsTo levels 1 tokens → Ends levels tokens (.error (.tooDeep r.maxDepth))
  | short (before : List Char) {op : Operator} {es : List Expr} :
      tokens = before ++ op.toChar :: es.flatMap Expr.tokens → es.length < op.arity →
      owedAfter 1 tokens ≠ 0 → ¬ NestsTo levels 1 tokens →
      Ends levels tokens
        (.error (.malformed total (.missingOperand op.toChar op.arity es.length)))
  | reported {e : RenderError} : r.Reported fontSize tokens e → Ends levels tokens (.error e)

variable {r total fontSize} in
theorem Ends.exists_expr {levels : Nat} {tokens rest : List Char} {fragments : List String}
    (h : r.Ends total fontSize levels tokens (.ok (fragments, rest))) :
    ∃ e : Expr, tokens = e.tokens ++ rest ∧ e.height < levels := by
  cases h with
  | whole _ htokens hheight => exact ⟨_, htokens, hheight⟩

variable [Scalar α]

theorem placeAll_error {p : Placement α} {fragments : List String} {e : RenderError}
    (h : p.placeAll fragments = .error e) : ∃ fault, e = .path fault := by
  obtain ⟨data, -, hdata⟩ := exists_of_mapM_eq_error h
  obtain ⟨fault, -, hfault⟩ := mapError_eq_error_iff.mp hdata
  exact ⟨fault, hfault.symm⟩

theorem compose_error {layers : List (Layer α)} {e : RenderError}
    (h : compose layers = .error e) : ∃ fault, e = .path fault := by
  rcases bind_eq_error_iff.mp h with hplaced | ⟨placed, -, hpure⟩
  · obtain ⟨layer, -, hlayer⟩ := exists_of_mapM_eq_error hplaced
    exact placeAll_error hlayer
  · cases hpure

variable {r fontSize} in
theorem reported_of_leaf {position : Option Position} {c : Char} {e : RenderError}
    (h : (r.leaf fontSize position c).outcome = .error e) (rest : List Char) :
    r.Reported fontSize (c :: rest) e := by
  rw [leaf] at h
  split at h
  · exact .inr (placeAll_error h)
  · obtain hsource | ⟨glyph, -, hpure⟩ := Traced.outcome_bind_eq_error.mp h
    · exact .inl ⟨c, List.mem_cons_self, hsource⟩
    · cases hpure

theorem expression_leaf (levels : Nat) (position : Option Position) {c : Char}
    (hc : Operator.ofChar? c = none) (rest : List Char) :
    r.expression total fontSize (levels + 1) position (c :: rest) = do
      return (← r.leaf fontSize position c, rest) := by
  simp only [expression, hc]

theorem expression_operator (levels : Nat) (position : Option Position) (op : Operator)
    (rest : List Char) :
    r.expression total fontSize (levels + 1) position (op.toChar :: rest) = do
      let (layers, rest) ← operands (r.expression total fontSize levels)
        (fun found => .malformed total (.missingOperand op.toChar op.arity found)) 0
        (op.layout rest fontSize r.parts) rest
      return (← Traced.lift (compose layers), rest) := by
  simp only [expression, Operator.ofChar?_toChar]

variable {r total fontSize} {levels : Nat} in
/-- An operator ends as its operands do, when these end as they may one operator deeper. -/
theorem operator_ends (op : Operator) {position : Option Position} {rest : List Char}
    (h : ∀ position tokens, tokens ≠ [] → r.Ends total fontSize levels tokens
      (r.expression total fontSize levels position tokens).outcome) :
    r.Ends total fontSize (levels + 1) (op.toChar :: rest)
      (r.expression total fontSize (levels + 1) position (op.toChar :: rest)).outcome := by
  have hread : ∀ position tokens fragments rest, tokens ≠ [] →
      (r.expression total fontSize levels position tokens).outcome = .ok (fragments, rest) →
      ∃ e : Expr, tokens = e.tokens ++ rest ∧ e.height < levels := by
    intro position tokens fragments rest hne hout
    exact Ends.exists_expr (hout ▸ h position tokens hne)
  have hslots := op.length_layout rest fontSize r.parts
  have hlt : ∀ {done later : List (Slot α)} {slot : Slot α},
      op.layout rest fontSize r.parts = done ++ slot :: later → done.length < op.arity := by
    intro done later slot hsplit
    rw [← hslots, hsplit]
    simp
  rw [expression_operator]
  obtain ⟨layers, after, hdrawn, hout⟩ | ⟨done, slot, later, layers, hsplit, hdrawn, hout⟩ |
    ⟨done, slot, later, layers, after, e, hsplit, hdrawn, hafter, herr, hout⟩ :=
    operands_cases (r.expression total fontSize levels)
      (fun found => .malformed total (.missingOperand op.toChar op.arity found))
      0 (op.layout rest fontSize r.parts) rest
  · -- Every operand is drawn.
    obtain ⟨es, hlen, rfl, hheight⟩ := hdrawn.row hread
    rw [hslots] at hlen
    rcases hcompose : compose layers with e | fragments
    · rw [Traced.outcome_bind_eq_error.mpr (.inr ⟨_, hout,
        Traced.outcome_bind_eq_error.mpr (.inl hcompose)⟩)]
      exact .reported (.inr (compose_error hcompose))
    · rw [Traced.outcome_bind_eq_ok.mpr ⟨_, hout,
        Traced.outcome_bind_eq_ok.mpr ⟨_, hcompose, rfl⟩⟩]
      refine .whole (e := .ofOperands op es hlen) fragments ?_
        (Nat.lt_succ_of_le (Expr.height_ofOperands_le hlen hheight))
      rw [Expr.tokens_ofOperands, List.cons_append]
  · -- The tokens run out in front of an operand.
    obtain ⟨es, hlen, rfl, hheight⟩ := hdrawn.row hread
    have hlt : es.length < op.arity := hlen ▸ hlt hsplit
    rw [Traced.bind_of_error hout, Nat.zero_add, ← hlen]
    refine .short [] (by simp) hlt ?_
      (not_nestsTo_operator hheight (by simp) (by simp [NestsTo]))
    rw [owedAfter, Nat.zero_add, arityOf_toChar]
    exact owedAfter_operands hlt (by simp)
  · -- An operand fails.
    obtain ⟨es, hlen, rfl, hheight⟩ := hdrawn.row hread
    have hlt : es.length < op.arity := hlen ▸ hlt hsplit
    rw [Traced.bind_of_error hout]
    have hends := h slot.position after hafter
    rw [herr] at hends
    cases hends with
    | deep hdeep => exact .deep (hdeep.operand hlt)
    | @short before op' es' htokens hlt' hopen hshallow =>
      refine .short (op.toChar :: (es.flatMap Expr.tokens ++ before)) ?_ hlt' ?_
        (not_nestsTo_operator hheight hopen hshallow)
      · rw [htokens, List.cons_append, List.append_assoc]
      · rw [owedAfter, Nat.zero_add, arityOf_toChar]
        exact owedAfter_operands hlt hopen
    | reported hreported => exact .reported (hreported.mono (by simp))

theorem expression_ends (levels : Nat) (position : Option Position) {tokens : List Char}
    (hne : tokens ≠ []) :
    r.Ends total fontSize levels tokens
      (r.expression total fontSize levels position tokens).outcome := by
  induction levels generalizing position tokens with
  | zero =>
    cases tokens with
    | nil => exact absurd rfl hne
    | cons token rest => exact .deep ⟨[], token, rest, rfl, by simp, Nat.zero_le _⟩
  | succ levels ih =>
    cases tokens with
    | nil => exact absurd rfl hne
    | cons token rest =>
      cases hop : Operator.ofChar? token with
      | none =>
        rw [expression_leaf r total fontSize levels position hop]
        rcases hleaf : (r.leaf fontSize position token).outcome with e | fragments
        · rw [Traced.bind_of_error hleaf]
          exact .reported (reported_of_leaf hleaf rest)
        · rw [Traced.bind_of_ok hleaf]
          exact .whole (e := .leaf token hop) fragments rfl (Nat.succ_pos levels)
      | some op =>
        obtain rfl := Operator.toChar_of_ofChar? hop
        exact operator_ends op fun position tokens hne => ih position hne

variable {r total fontSize} in
/-- Operands that are all drawn are expressions in a row. -/
theorem exists_row_of_operands {levels found : Nat} {missing : Nat → RenderError}
    {slots : List (Slot α)} {tokens after : List Char} {layers : List (Layer α)}
    (h : (operands (r.expression total fontSize levels) missing found slots tokens).outcome =
      .ok (layers, after)) :
    ∃ es : List Expr, es.length = slots.length ∧ tokens = es.flatMap Expr.tokens ++ after ∧
      ∀ e ∈ es, e.height < levels := by
  refine (drawn_of_operands h).row fun position tokens fragments rest hne hdraw => ?_
  exact Ends.exists_expr (hdraw ▸ expression_ends r total fontSize levels position hne)

theorem decompose_ends (position : Option Position) {tokens : List Char} (hne : tokens ≠ []) :
    r.Ends tokens.length fontSize (r.maxDepth + 1) tokens
      (r.decompose fontSize position tokens).outcome :=
  expression_ends r tokens.length fontSize (r.maxDepth + 1) position hne

variable {r fontSize} in
theorem render_of_ne_nil {tokens : List Char} (hne : tokens ≠ []) :
    r.render fontSize tokens = (do
      let (fragments, rest) ← r.decompose fontSize none tokens
      if rest.isEmpty then return fragments
      else .fail (.malformed (tokens.length - rest.length) (.trailing rest.length))) := by
  cases tokens with
  | nil => exact absurd rfl hne
  | cons token rest => rfl

variable {r fontSize} in
/-- Apart from tokens behind it, a drawing of a whole sequence fails as that of its first expression
does. -/
theorem decompose_of_render_error {tokens : List Char} {e : RenderError}
    (h : (r.render fontSize tokens).outcome = .error e)
    (htrailing : ∀ place count, e ≠ .malformed place (.trailing count)) :
    (r.decompose fontSize none tokens).outcome = .error e := by
  by_cases hne : tokens = []
  · subst hne
    cases h
    rfl
  rw [render_of_ne_nil hne] at h
  obtain hdecompose | ⟨⟨fragments, rest⟩, -, h⟩ := Traced.outcome_bind_eq_error.mp h
  · exact hdecompose
  · dsimp only at h
    split at h
    · cases h
    · cases h
      exact absurd rfl (htrailing _ _)

end Ideograph.Renderer
