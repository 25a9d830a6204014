import Mathlib.Algebra.Group.Nat.Defs
import Ideograph.Proofs.Expr.Nesting

/-! # Counting up to the end of an expression

The end of an expression is found in a loop over the tokens with two counters, for the tokens that
are consumed and the expressions that are pending. Whatever is pending is what the consumed tokens
owe, so the loop ends at the end of the first expression, or behind the last token.
-/

namespace Ideograph

/-- The tokens owe so many expressions: with these behind them, and with no other number of them,
they are one expression. -/
def Owes (tokens : List Char) (pending : Nat) : Prop :=
  ∀ es : List Expr,
    (∃ e : Expr, e.tokens = tokens ++ es.flatMap Expr.tokens) ↔ es.length = pending

theorem owes_nil : Owes [] 1 := by
  intro es
  rw [List.nil_append]
  constructor
  · rintro ⟨e, he⟩
    have hrow : [e].flatMap Expr.tokens = es.flatMap Expr.tokens := by simpa using he
    rw [← Expr.row_injective (fun e _ e' he => Expr.tokens_injective he) hrow]
    rfl
  · intro hlen
    obtain ⟨e, rfl⟩ := List.length_eq_one_iff.mp hlen
    exact ⟨e, by simp⟩

/-- A token pays for one expression and owes the operands that it takes. -/
theorem Owes.concat {tokens : List Char} {pending : Nat} (h : Owes tokens (pending + 1))
    (token : Char) : Owes (tokens ++ [token]) (pending + arityOf token) := by
  intro es
  rw [List.append_assoc, List.singleton_append]
  cases hop : Operator.ofChar? token with
  | none =>
    have hrow := h (.leaf token hop :: es)
    rw [List.flatMap_cons, Expr.tokens, List.singleton_append, List.length_cons] at hrow
    rw [hrow, arityOf_of_leaf hop]
    omega
  | some op =>
    obtain rfl := Operator.toChar_of_ofChar? hop
    rw [arityOf_toChar]
    rcases Nat.lt_or_ge es.length op.arity with hlt | hle
    · -- Too few operands are left for the operator, so nothing is complete.
      refine iff_of_false ?_ (by omega)
      rintro ⟨e, he⟩
      have hrow : [e].flatMap Expr.tokens = tokens ++ op.toChar :: es.flatMap Expr.tokens := by
        simpa using he
      exact row_ne_append_shortfall hlt hrow
    · have htake : (es.take op.arity).length = op.arity := by simp [hle]
      have hrow := h (.ofOperands op (es.take op.arity) htake :: es.drop op.arity)
      rw [List.flatMap_cons, Expr.tokens_ofOperands, List.cons_append, ← List.flatMap_append,
        List.take_append_drop, List.length_cons, List.length_drop] at hrow
      rw [hrow]
      omega

theorem arityOf_le (token : Char) : arityOf token ≤ 3 := by
  cases hop : Operator.ofChar? token with
  | none => simp [arityOf_of_leaf hop]
  | some op =>
    obtain rfl := Operator.toChar_of_ofChar? hop
    cases op <;> decide

/-- The counters of the loop. -/
structure Counter where
  pending : Nat
  consumed : Nat
  deriving DecidableEq, Repr

namespace Counter

/-- One expression is pending before any token is consumed. -/
def start : Counter :=
  ⟨1, 0⟩

/-- One turn of the loop, which consumes a token if there is one. -/
def turn? (tokens : List Char) (s : Counter) : Option Counter :=
  tokens[s.consumed]?.map fun token => ⟨s.pending - 1 + arityOf token, s.consumed + 1⟩

/-- The loop with a bound on its turns. It goes on while something is pending, and what it leaves
are the tokens that are not consumed, or none where it looks for a token and there is none. -/
def run? (tokens : List Char) : Nat → Counter → Option (List Char)
  | turns, s =>
    if s.pending = 0 then some (tokens.drop s.consumed)
    else
      match turns with
      | 0 => none
      | turns + 1 =>
        match s.turn? tokens with
        | none => some []
        | some next => run? tokens turns next

/-- The counters in front of a turn, or at the end, after so many turns. -/
inductive Reached (tokens : List Char) : Nat → Counter → Prop where
  | start : Reached tokens 0 start
  | turn {turns : Nat} {s next : Counter} : Reached tokens turns s → 0 < s.pending →
      s.turn? tokens = some next → Reached tokens (turns + 1) next

/-- What holds of the counters after so many turns. -/
structure Invariant (tokens : List Char) (turns : Nat) (s : Counter) : Prop where
  consumed_eq : s.consumed = turns
  consumed_le : s.consumed ≤ tokens.length
  owes : Owes (tokens.take s.consumed) s.pending
  pending_le : s.pending ≤ 2 * s.consumed + 1

variable {tokens : List Char} {turns : Nat} {s next : Counter}

theorem turn?_eq_some_iff : s.turn? tokens = some next ↔
    ∃ h : s.consumed < tokens.length,
      next = ⟨s.pending - 1 + arityOf tokens[s.consumed], s.consumed + 1⟩ := by
  simp only [turn?, Option.map_eq_some_iff, List.getElem?_eq_some_iff]
  constructor
  · rintro ⟨token, ⟨h, rfl⟩, rfl⟩
    exact ⟨h, rfl⟩
  · rintro ⟨h, rfl⟩
    exact ⟨_, ⟨h, rfl⟩, rfl⟩

theorem turn?_eq_none_iff : s.turn? tokens = none ↔ tokens.length ≤ s.consumed := by
  simp [turn?]

theorem Invariant.turn (h : Invariant tokens turns s) (hpending : 0 < s.pending)
    (hturn : s.turn? tokens = some next) : Invariant tokens (turns + 1) next := by
  obtain ⟨hlt, rfl⟩ := turn?_eq_some_iff.mp hturn
  obtain ⟨pending, hsucc⟩ := Nat.exists_eq_add_of_lt hpending
  have howes := h.owes
  rw [hsucc, Nat.zero_add] at howes
  have harity := arityOf_le tokens[s.consumed]
  have hle := h.pending_le
  constructor
  · exact congrArg (· + 1) h.consumed_eq
  · exact hlt
  · rw [List.take_succ_eq_append_getElem hlt, hsucc, Nat.zero_add, Nat.add_sub_cancel]
    exact howes.concat _
  · dsimp only
    omega

theorem Reached.invariant (h : Reached tokens turns s) : Invariant tokens turns s := by
  induction h with
  | start => exact ⟨rfl, Nat.zero_le _, owes_nil, by decide⟩
  | turn _ hpending hturn ih => exact ih.turn hpending hturn

/-- A loop that has as many turns left as it needs leaves what the recursion leaves. -/
theorem run?_eq_skipOwed (hconsumed : s.consumed ≤ tokens.length)
    (hturns : tokens.length + 1 ≤ s.consumed + turns) :
    run? tokens turns s = some (skipOwed s.pending (tokens.drop s.consumed)) := by
  induction turns generalizing s with
  | zero => omega
  | succ turns ih =>
    rw [run?]
    split
    · next hzero => rw [hzero, skipOwed]
    · next hpending =>
      obtain ⟨pending, hsucc⟩ := Nat.exists_eq_succ_of_ne_zero hpending
      cases hturn : s.turn? tokens with
      | none =>
        rw [List.drop_eq_nil_iff.mpr (turn?_eq_none_iff.mp hturn), hsucc]
        rfl
      | some next =>
        obtain ⟨hlt, rfl⟩ := turn?_eq_some_iff.mp hturn
        rw [List.drop_eq_getElem_cons hlt, hsucc, skipOwed]
        exact ih hlt (by dsimp only; omega)

end Counter

/-- Looking past an expression leaves what follows the one expression that begins the tokens, or
nothing where none does. The loop that counts needs at most one turn more than there are tokens, and
leaves the same. All along what is pending is what the consumed tokens owe, at most one more than
twice their number. So both counters stay in the words of a machine in which tokens of four bytes
fill at most half of the memory. -/
theorem skip_counted (tokens : List Char) :
    (∀ (e : Expr) (rest : List Char), tokens = e.tokens ++ rest →
      skip tokens = rest ∧ ∀ e' : Expr, e'.tokens <+: tokens → e' = e) ∧
    ((∀ e : Expr, ¬ e.tokens <+: tokens) → skip tokens = []) ∧
    (∀ turns, tokens.length + 1 ≤ turns →
      Counter.run? tokens turns .start = some (skip tokens)) ∧
    ∀ turns s, Counter.Reached tokens turns s →
      Counter.Invariant tokens turns s ∧
      (0 < s.pending → turns + 1 ≤ tokens.length + 1) ∧
      ∀ bits, 4 * tokens.length < 2 ^ bits →
        s.pending < 2 ^ (bits + 1) ∧ s.consumed < 2 ^ (bits + 1) := by
  refine ⟨?_, ?_, ?_, ?_⟩
  · rintro e rest rfl
    refine ⟨skip_tokens_append e rest, fun e' he' => ?_⟩
    exact Expr.tokens_injective (Expr.tokens_eq_of_prefix he' (List.prefix_append _ _))
  · intro h
    refine skipOwed_of_owedAfter_ne_zero fun hzero => ?_
    obtain ⟨e, he⟩ := owedAfter_one_eq_zero_iff.mp hzero
    exact h e he
  · intro turns hturns
    exact Counter.run?_eq_skipOwed (Nat.zero_le _) (by simpa [Counter.start] using hturns)
  · intro turns s hreached
    have h := hreached.invariant
    have hconsumed := h.consumed_eq
    have hle := h.consumed_le
    have hpending := h.pending_le
    refine ⟨h, fun _ => by omega, fun bits hbits => ?_⟩
    rw [Nat.pow_succ]
    omega

/-- Where an operand is missing, the last turn finds no token. -/
example : Counter.run? ['⿰', '口'] 3 .start = some [] ∧
    Counter.run? ['⿰', '口'] 2 .start = none := by decide

end Ideograph
