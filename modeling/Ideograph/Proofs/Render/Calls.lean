import Mathlib.Algebra.Group.Nat.Defs
import Mathlib.Logic.Relation
import Ideograph.Glyph.Sources
import Ideograph.Proofs.Render.Visits

/-! # The calls of a drawing

The drawing of an expression calls itself for each operand that it begins, with the tokens that the
operands before it left and one operator more around them. Every call has fewer tokens than the one
that makes it, so the recursion ends whatever the limit of the nesting is, and no call lies deeper
than there are tokens in front of it.
-/

namespace Ideograph

open Number

/-- The drawing of the first expression of some tokens, with so many operators around it. -/
structure Call where
  depth : Nat
  position : Option Position
  tokens : List Char

namespace Renderer

variable {α : Type}

section Operands

variable {draw : Option Position → List Char → Traced (List String × List Char)}

/-- An operand is begun with tokens that those before it left. -/
theorem suffix_of_mem_begun
    (hdraw : ∀ position tokens fragments rest,
      (draw position tokens).outcome = .ok (fragments, rest) → rest <:+ tokens)
    {slots : List (Slot α)} {tokens start : List Char} {slot : Slot α}
    (h : (slot, start) ∈ begun draw slots tokens) : start <:+ tokens ∧ start ≠ [] := by
  induction slots generalizing tokens with
  | nil => cases h
  | cons first slots ih =>
    cases tokens with
    | nil => cases h
    | cons token rest =>
      rw [begun, List.mem_cons] at h
      rcases h with heq | h
      · cases heq
        exact ⟨List.suffix_rfl, by simp⟩
      · split at h
        · next fragments rest' hout =>
          obtain ⟨hsuffix, hne⟩ := ih h
          exact ⟨hsuffix.trans (hdraw _ _ _ _ hout), hne⟩
        · cases h

end Operands

variable [Scalar α] (r : Renderer α) (total : Nat) (fontSize : α)

/-- What a call does, with `draw` for the calls that it makes itself. -/
def body (draw : Call → Traced (List String × List Char)) (call : Call) :
    Traced (List String × List Char) :=
  if r.maxDepth < call.depth then .fail (.tooDeep r.maxDepth)
  else
    match call.tokens with
    | [] => .fail (.malformed total .empty)
    | token :: rest =>
      match Operator.ofChar? token with
      | none => do
        return (← r.leaf fontSize call.position token, rest)
      | some op => do
        let missing found := .malformed total (.missingOperand token op.arity found)
        let (layers, rest) ←
          operands (fun position tokens => draw ⟨call.depth + 1, position, tokens⟩) missing 0
            (op.layout rest fontSize r.parts) rest
        return (← Traced.lift (compose layers), rest)

/-- What a call gives. -/
def answer (call : Call) : Traced (List String × List Char) :=
  r.expression total fontSize (r.maxDepth + 1 - call.depth) call.position call.tokens

/-- The calls that a call makes itself, in their order. -/
def calls (call : Call) : List Call :=
  if r.maxDepth < call.depth then []
  else
    match call.tokens with
    | [] => []
    | token :: rest =>
      match Operator.ofChar? token with
      | none => []
      | some op =>
        (begun (fun position tokens => r.answer total fontSize ⟨call.depth + 1, position, tokens⟩)
          (op.layout rest fontSize r.parts) rest).map fun (slot, start) =>
            ⟨call.depth + 1, slot.position, start⟩

variable {r total fontSize}

/-- What is left behind an expression are fewer tokens. -/
theorem suffix_of_answer {call : Call} {fragments : List String} {rest : List Char}
    (h : (r.answer total fontSize call).outcome = .ok (fragments, rest)) :
    rest <:+ call.tokens ∧ rest.length < call.tokens.length := by
  have hne : call.tokens ≠ [] := by
    intro hnil
    rw [answer, hnil] at h
    cases hlevels : r.maxDepth + 1 - call.depth <;> (rw [hlevels] at h; cases h)
  obtain ⟨e, htokens, -⟩ := Ends.exists_expr (h ▸ expression_ends r total fontSize _ _ hne)
  have hpos := List.length_pos_iff.mpr e.tokens_ne_nil
  rw [htokens]
  exact ⟨List.suffix_append _ _, by simp [hpos]⟩

/-- A call is made within the limit, for an operand of the operator with which the tokens begin. -/
theorem exists_of_mem_calls {call next : Call} (h : next ∈ r.calls total fontSize call) :
    call.depth ≤ r.maxDepth ∧ next.depth = call.depth + 1 ∧
      ∃ token rest, call.tokens = token :: rest ∧ next.tokens <:+ rest ∧ next.tokens ≠ [] := by
  unfold calls at h
  split at h
  · cases h
  · next hdepth =>
    split at h
    · cases h
    · next token rest htokens =>
      split at h
      · cases h
      · obtain ⟨⟨slot, start⟩, hbegun, rfl⟩ := List.mem_map.mp h
        have hstart := suffix_of_mem_begun (fun _ _ _ _ hout => (suffix_of_answer hout).1) hbegun
        exact ⟨Nat.le_of_not_lt hdepth, rfl, token, rest, htokens, hstart⟩

theorem length_lt_of_mem_calls {call next : Call} (h : next ∈ r.calls total fontSize call) :
    next.tokens <:+ call.tokens ∧ next.tokens.length < call.tokens.length := by
  obtain ⟨-, -, token, rest, htokens, hsuffix, -⟩ := exists_of_mem_calls h
  rw [htokens]
  exact ⟨hsuffix.trans (List.suffix_cons token rest), Nat.lt_succ_of_le hsuffix.length_le⟩

variable (r total fontSize) in
/-- Calls cannot go on being made forever. -/
theorem wellFounded_calls :
    WellFounded fun next call => next ∈ r.calls total fontSize call :=
  Subrelation.wf (fun h => (length_lt_of_mem_calls h).2)
    (InvImage.wf (fun call : Call => call.tokens.length) Nat.lt_wfRel.wf)

/-- A call depends on the calls that it makes, and on no other one. -/
theorem body_eq_answer {draw : Call → Traced (List String × List Char)} {call : Call}
    (h : ∀ next ∈ r.calls total fontSize call, draw next = r.answer total fontSize next) :
    r.body total fontSize draw call = r.answer total fontSize call := by
  obtain ⟨depth, position, tokens⟩ := call
  by_cases hdepth : r.maxDepth < depth
  · have hlevels : r.maxDepth + 1 - depth = 0 := by omega
    simp only [body, answer, if_pos hdepth, hlevels]
    rfl
  have hlevels : r.maxDepth + 1 - depth = r.maxDepth + 1 - (depth + 1) + 1 := by omega
  simp only [body, answer, if_neg hdepth, hlevels]
  cases tokens with
  | nil => rfl
  | cons token rest =>
    cases hop : Operator.ofChar? token with
    | none => simp only [expression, hop]
    | some op =>
      simp only [calls, if_neg hdepth, hop, List.forall_mem_map] at h
      simp only [expression, hop]
      rw [operands_congr_begun h]
      rfl

/-- The recursion has one solution. -/
theorem forall_eq_body_iff {draw : Call → Traced (List String × List Char)} :
    (∀ call, draw call = r.body total fontSize draw call) ↔ draw = r.answer total fontSize := by
  constructor
  · intro h
    funext call
    induction call using (wellFounded_calls r total fontSize).induction with
    | _ call ih => rw [h call, body_eq_answer ih]
  · rintro rfl call
    exact (body_eq_answer fun _ _ => rfl).symm

/-- What holds of a call with which the drawing of tokens comes to some of them: at most one
operator more than the limit stands around these, and no more than there are tokens in front. -/
structure Within (limit : Nat) (tokens : List Char) (call : Call) : Prop where
  depth_le : call.depth ≤ limit + 1
  consumed : ∃ before, tokens = before ++ call.tokens ∧ call.depth ≤ before.length

theorem Within.next {tokens : List Char} {call next : Call} (h : Within r.maxDepth tokens call)
    (hnext : next ∈ r.calls total fontSize call) :
    Within r.maxDepth tokens next ∧ next.depth < tokens.length := by
  obtain ⟨hdepth, hsucc, token, rest, htokens, ⟨passed, rfl⟩, hne⟩ := exists_of_mem_calls hnext
  obtain ⟨before, rfl, hle⟩ := h.consumed
  have hpos := List.length_pos_iff.mpr hne
  rw [htokens]
  refine ⟨⟨by omega, before ++ token :: passed, by simp, ?_⟩, ?_⟩
  · rw [List.length_append, List.length_cons]
    omega
  · simp only [List.length_append, List.length_cons]
    omega

theorem within_of_reachable {tokens : List Char} {root call : Call}
    (hroot : Within r.maxDepth tokens root)
    (h : Relation.ReflTransGen (fun call next => next ∈ r.calls total fontSize call) root call) :
    Within r.maxDepth tokens call := by
  induction h with
  | refl => exact hroot
  | tail _ hnext ih => exact (ih.next hnext).1

/-- The drawing of tokens is the one solution of its recursion, and depends on the calls that are
made only. Whatever the limit of the nesting is, these calls come to an end: each has a proper
suffix of the tokens of the one that makes it, and each that succeeds leaves a proper suffix of its
own. No call lies deeper than the limit allows by more than one, or than there are tokens in front
of it, so the depth stays in every word that holds the number of tokens. Where tokens are left over,
the place that is reported is their number less that of what is left. -/
theorem decompose_calls (r : Renderer α) (fontSize : α) (position : Option Position)
    (tokens : List Char) :
    let answer := r.answer tokens.length fontSize
    let calls := r.calls tokens.length fontSize
    let root : Call := ⟨0, position, tokens⟩
    r.decompose fontSize position tokens = answer root ∧
    (∀ draw, (∀ call, draw call = r.body tokens.length fontSize draw call) ↔ draw = answer) ∧
    (∀ draw call, (∀ next ∈ calls call, draw next = answer next) →
      r.body tokens.length fontSize draw call = answer call) ∧
    WellFounded (fun next call => next ∈ calls call) ∧
    (∀ call, ∀ next ∈ calls call, next.depth = call.depth + 1 ∧ next.tokens <:+ call.tokens ∧
      next.tokens.length < call.tokens.length) ∧
    (∀ call fragments rest, (answer call).outcome = .ok (fragments, rest) →
      rest <:+ call.tokens ∧ rest.length < call.tokens.length) ∧
    (∀ call, Relation.ReflTransGen (fun call next => next ∈ calls call) root call →
      Within r.maxDepth tokens call ∧
      ∀ next ∈ calls call, ∀ bits, tokens.length < 2 ^ bits → call.depth + 1 < 2 ^ bits) ∧
    ∀ fragments rest, (r.decompose fontSize none tokens).outcome = .ok (fragments, rest) →
      rest ≠ [] → ∃ place, 0 < place ∧ place + rest.length = tokens.length ∧
        (r.render fontSize tokens).outcome = .error (.malformed place (.trailing rest.length)) := by
  intro answer calls root
  refine ⟨rfl, fun draw => forall_eq_body_iff, fun draw call => body_eq_answer,
    wellFounded_calls r tokens.length fontSize, ?_, fun call fragments rest => suffix_of_answer, ?_,
    ?_⟩
  · intro call next hnext
    exact ⟨(exists_of_mem_calls hnext).2.1, length_lt_of_mem_calls hnext⟩
  · intro call hcall
    have hwithin := within_of_reachable ⟨Nat.zero_le _, [], rfl, Nat.le_refl 0⟩ hcall
    refine ⟨hwithin, fun next hnext bits hbits => ?_⟩
    have hlt := (hwithin.next hnext).2
    rw [(exists_of_mem_calls hnext).2.1] at hlt
    exact hlt.trans hbits
  · intro fragments rest hout hrest
    have hanswer : (r.answer tokens.length fontSize ⟨0, none, tokens⟩).outcome =
        .ok (fragments, rest) := hout
    obtain ⟨hsuffix, hlt⟩ := suffix_of_answer hanswer
    refine ⟨tokens.length - rest.length, Nat.sub_pos_of_lt hlt,
      Nat.sub_add_cancel hsuffix.length_le, ?_⟩
    have hne : tokens ≠ [] := List.ne_nil_of_length_pos (Nat.zero_lt_of_lt hlt)
    rw [render_of_ne_nil hne]
    refine Traced.outcome_bind_eq_error.mpr (.inr ⟨_, hout, ?_⟩)
    simp [hrest]

/-- A call may lie deeper than the limit by one. It fails, and the second operand is not begun. -/
example :
    let r : Renderer Double := ⟨.squares [] 1000.0 1000.0, .builtin, 0⟩
    (r.calls 3 72.0 ⟨0, none, ['⿰', '口', '木']⟩).map (fun call => (call.depth, call.tokens)) =
      [(1, ['口', '木'])] := by decide +kernel

end Renderer

end Ideograph
