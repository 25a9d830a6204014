import Mathlib.Data.List.OfFn
import Ideograph.Expr
import Ideograph.Lookahead

/-! # Expressions owed

Every token pays for one expression and an operator then owes its operands. The count of what is
owed reaches zero exactly where as many expressions have ended as were owed at first. Hence no
expression goes on past the end of another one that begins with it, and looking ahead from the
front of an expression stops at its end.
-/

namespace Ideograph

/-- How many expressions are owed after the tokens; once none is owed, none is again. -/
def owedAfter : Nat → List Char → Nat
  | 0, _ => 0
  | owed + 1, [] => owed + 1
  | owed + 1, token :: rest => owedAfter (owed + arityOf token) rest

@[simp] theorem owedAfter_zero (tokens : List Char) : owedAfter 0 tokens = 0 := by
  simp [owedAfter]

@[simp] theorem owedAfter_nil (owed : Nat) : owedAfter owed [] = owed := by
  cases owed <;> rfl

namespace Expr

/-- The expression of an operator and a list of its operands. -/
def ofOperands (op : Operator) (operands : List Expr) (h : operands.length = op.arity) : Expr :=
  node op fun i => operands.get (i.cast h.symm)

theorem tokens_node (op : Operator) (operands : Fin op.arity → Expr) :
    (node op operands).tokens = op.toChar :: (List.ofFn operands).flatMap tokens := by
  rw [tokens, List.flatMap_def, List.map_ofFn]
  rfl

theorem ofFn_get_cast {n : Nat} (es : List Expr) (h : es.length = n) :
    List.ofFn (fun i : Fin n => es.get (i.cast h.symm)) = es := by
  subst h
  exact List.ofFn_get es

theorem tokens_ofOperands (op : Operator) (operands : List Expr)
    (h : operands.length = op.arity) :
    (ofOperands op operands h).tokens = op.toChar :: operands.flatMap tokens := by
  rw [ofOperands, tokens_node, ofFn_get_cast operands h]

section Count

variable {β : Type} {f : Nat → List Char → β}

theorem count_row_append {es : List Expr}
    (h : ∀ e ∈ es, ∀ owed rest, f (owed + 1) (e.tokens ++ rest) = f owed rest)
    (owed : Nat) (rest : List Char) :
    f (owed + es.length) (es.flatMap tokens ++ rest) = f owed rest := by
  induction es with
  | nil => rfl
  | cons e es ih =>
    simp only [List.mem_cons, forall_eq_or_imp] at h
    rw [List.flatMap_cons, List.append_assoc, List.length_cons, ← Nat.add_assoc, h.1]
    exact ih h.2

/-- Whatever counts what is owed token by token passes a whole expression at once. -/
theorem count_tokens_append
    (h : ∀ owed token rest, f (owed + 1) (token :: rest) = f (owed + arityOf token) rest)
    (e : Expr) (owed : Nat) (rest : List Char) :
    f (owed + 1) (e.tokens ++ rest) = f owed rest := by
  induction e generalizing owed rest with
  | leaf c hc => simp [tokens, h, arityOf_of_leaf hc]
  | node op operands ih =>
    have hrow : ∀ e ∈ List.ofFn operands, ∀ owed rest,
        f (owed + 1) (e.tokens ++ rest) = f owed rest := by
      intro e he
      obtain ⟨i, rfl⟩ := List.mem_ofFn.mp he
      exact ih i
    rw [tokens_node, List.cons_append, h, arityOf_toChar]
    simpa using count_row_append hrow owed rest

end Count

end Expr

open Ideograph.Expr

@[simp] theorem owedAfter_tokens_append (e : Expr) (owed : Nat) (rest : List Char) :
    owedAfter (owed + 1) (e.tokens ++ rest) = owedAfter owed rest :=
  count_tokens_append (fun _ _ _ => rfl) e owed rest

@[simp] theorem skipOwed_tokens_append (e : Expr) (owed : Nat) (rest : List Char) :
    skipOwed (owed + 1) (e.tokens ++ rest) = skipOwed owed rest :=
  count_tokens_append (fun _ _ _ => rfl) e owed rest

theorem owedAfter_row_append (es : List Expr) (owed : Nat) (rest : List Char) :
    owedAfter (owed + es.length) (es.flatMap tokens ++ rest) = owedAfter owed rest :=
  count_row_append (fun e _ => owedAfter_tokens_append e) owed rest

theorem skip_tokens_append (e : Expr) (rest : List Char) : skip (e.tokens ++ rest) = rest := by
  rw [skip, skipOwed_tokens_append, skipOwed]

theorem skipOwed_of_owedAfter_ne_zero {owed : Nat} {tokens : List Char}
    (h : owedAfter owed tokens ≠ 0) : skipOwed owed tokens = [] := by
  fun_induction skipOwed owed tokens with
  | case1 => simp at h
  | case2 => rfl
  | case3 owed token rest ih => exact ih h

theorem exists_row_of_owedAfter_eq_zero {owed : Nat} {tokens : List Char}
    (h : owedAfter owed tokens = 0) :
    ∃ es : List Expr, ∃ rest, es.length = owed ∧ tokens = es.flatMap Expr.tokens ++ rest := by
  fun_induction owedAfter owed tokens with
  | case1 tokens => exact ⟨[], tokens, rfl, rfl⟩
  | case2 => cases h
  | case3 owed token rest ih =>
    obtain ⟨es, after, hlen, rfl⟩ := ih h
    cases hop : Operator.ofChar? token with
    | none =>
      rw [arityOf_of_leaf hop] at hlen
      exact ⟨.leaf token hop :: es, after, by simpa using hlen, by simp [Expr.tokens]⟩
    | some op =>
      obtain rfl := Operator.toChar_of_ofChar? hop
      rw [arityOf_toChar] at hlen
      -- The operator takes the first of the expressions that follow it as its operands.
      have htake : (es.take op.arity).length = op.arity := by simp; omega
      refine ⟨ofOperands op (es.take op.arity) htake :: es.drop op.arity, after, ?_, ?_⟩
      · simp; omega
      · rw [List.flatMap_cons, tokens_ofOperands, List.cons_append, List.cons_append,
          ← List.flatMap_append, List.take_append_drop]

/-- A sequence goes on with an expression exactly where it pays for what is owed. -/
theorem owedAfter_one_eq_zero_iff {tokens : List Char} :
    owedAfter 1 tokens = 0 ↔ ∃ e : Expr, e.tokens <+: tokens := by
  constructor
  · intro h
    obtain ⟨es, rest, hlen, rfl⟩ := exists_row_of_owedAfter_eq_zero h
    obtain ⟨e, rfl⟩ := List.length_eq_one_iff.mp hlen
    exact ⟨e, rest, by simp⟩
  · rintro ⟨e, rest, rfl⟩
    rw [owedAfter_tokens_append, owedAfter_zero]

/-- At most one expression stands at the front of a sequence. -/
theorem Expr.tokens_eq_of_prefix {e e' : Expr} {tokens : List Char}
    (h : e.tokens <+: tokens) (h' : e'.tokens <+: tokens) : e.tokens = e'.tokens := by
  obtain ⟨rest, rfl⟩ := h
  obtain ⟨rest', h'⟩ := h'
  have hrest : rest' = rest := by
    rw [← skip_tokens_append e' rest', h', skip_tokens_append]
  subst hrest
  exact (List.append_cancel_right h').symm

namespace Expr

theorem row_injective {es es' : List Expr}
    (hes : ∀ e ∈ es, ∀ e' : Expr, e.tokens = e'.tokens → e = e')
    (h : es.flatMap tokens = es'.flatMap tokens) : es = es' := by
  induction es generalizing es' with
  | nil =>
    cases es' with
    | nil => rfl
    | cons e' es' => exact absurd (List.append_eq_nil_iff.mp h.symm).1 e'.tokens_ne_nil
  | cons e es ih =>
    simp only [List.mem_cons, forall_eq_or_imp] at hes
    cases es' with
    | nil => exact absurd (List.append_eq_nil_iff.mp h).1 e.tokens_ne_nil
    | cons e' es' =>
      rw [List.flatMap_cons, List.flatMap_cons] at h
      have he : e.tokens = e'.tokens := tokens_eq_of_prefix ⟨_, h⟩ ⟨_, rfl⟩
      rw [he] at h
      rw [hes.1 e' he, ih hes.2 (List.append_cancel_left h)]

/-- An expression can be read back from its tokens. -/
theorem tokens_injective : Function.Injective tokens := by
  intro e
  induction e with
  | leaf c hc =>
    intro e' h
    cases e' with
    | leaf c' hc' =>
      obtain rfl : c = c' := (List.cons.inj h).1
      rfl
    | node op operands =>
      obtain rfl : c = op.toChar := (List.cons.inj h).1
      simp at hc
  | node op operands ih =>
    intro e' h
    cases e' with
    | leaf c hc =>
      obtain rfl : op.toChar = c := (List.cons.inj h).1
      simp at hc
    | node op' operands' =>
      rw [tokens_node, tokens_node] at h
      obtain ⟨hop, hrow⟩ := List.cons.inj h
      obtain rfl : op = op' := Operator.toChar_injective hop
      have hes : ∀ e ∈ List.ofFn operands, ∀ e' : Expr, e.tokens = e'.tokens → e = e' := by
        intro e he e' h
        obtain ⟨i, rfl⟩ := List.mem_ofFn.mp he
        exact ih i h
      rw [List.ofFn_injective (row_injective hes hrow)]

end Expr

theorem owedAfter_append (owed : Nat) (tokens rest : List Char) :
    owedAfter owed (tokens ++ rest) = owedAfter (owedAfter owed tokens) rest := by
  fun_induction owedAfter owed tokens with
  | case1 => simp
  | case2 => rfl
  | case3 owed token tokens ih => exact ih

/-- While expressions are owed, more of them stay owed beside them. -/
theorem owedAfter_add {owed : Nat} {tokens : List Char} (h : owedAfter owed tokens ≠ 0)
    (more : Nat) : owedAfter (owed + more) tokens = owedAfter owed tokens + more := by
  fun_induction owedAfter owed tokens with
  | case1 => exact absurd rfl h
  | case2 => rw [owedAfter_nil]
  | case3 owed token rest ih =>
    rw [← ih h, show owed + 1 + more = owed + more + 1 by omega, owedAfter,
      show owed + more + arityOf token = owed + arityOf token + more by omega]

theorem owedAfter_ne_zero_of_append {owed : Nat} {tokens rest : List Char}
    (h : owedAfter owed (tokens ++ rest) ≠ 0) : owedAfter owed tokens ≠ 0 := by
  intro h₀
  rw [owedAfter_append, h₀, owedAfter_zero] at h
  exact h rfl

end Ideograph
