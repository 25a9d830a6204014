import Ideograph.Proofs.Expr.Owed

/-! # Operators around a token

An operator stands around a token if its operands are not complete before the token. Expressions
that are complete stand around nothing, so the count only depends on the operators still open. The
last of these is the operator that lacks operands where a sequence ends too early.
-/

namespace Ideograph

/-- The number of operators around the token that comes after the tokens. -/
def enclosing : List Char → Nat
  | [] => 0
  | token :: rest => (if owedAfter (arityOf token) rest = 0 then 0 else 1) + enclosing rest

/-- While expressions are owed, some token stands inside at least `levels` operators. -/
def NestsTo (levels owed : Nat) (tokens : List Char) : Prop :=
  ∃ before token after,
    tokens = before ++ token :: after ∧ owedAfter owed before ≠ 0 ∧ levels ≤ enclosing before

/-- The sequence ends where an operator has only `found` of its operands. -/
def LacksOperands (tokens : List Char) (op : Operator) (found : Nat) : Prop :=
  ∃ before : List Char, ∃ es : List Expr,
    tokens = before ++ op.toChar :: es.flatMap Expr.tokens ∧ es.length = found ∧ found < op.arity

theorem enclosing_le_append (before rest : List Char) :
    enclosing rest ≤ enclosing (before ++ rest) := by
  induction before with
  | nil => exact le_rfl
  | cons token before ih => exact ih.trans (Nat.le_add_left _ _)

theorem enclosing_row_append {es : List Expr}
    (h : ∀ e ∈ es, ∀ rest, enclosing (e.tokens ++ rest) = enclosing rest) (rest : List Char) :
    enclosing (es.flatMap Expr.tokens ++ rest) = enclosing rest := by
  induction es with
  | nil => rfl
  | cons e es ih =>
    simp only [List.mem_cons, forall_eq_or_imp] at h
    rw [List.flatMap_cons, List.append_assoc, h.1, ih h.2]

/-- A complete expression stands around nothing that follows it. -/
theorem enclosing_tokens_append (e : Expr) (rest : List Char) :
    enclosing (e.tokens ++ rest) = enclosing rest := by
  induction e generalizing rest with
  | leaf c hc => simp [Expr.tokens, enclosing, arityOf_of_leaf hc]
  | node op operands ih =>
    have hrow : ∀ e ∈ List.ofFn operands, ∀ rest,
        enclosing (e.tokens ++ rest) = enclosing rest := by
      intro e he
      obtain ⟨i, rfl⟩ := List.mem_ofFn.mp he
      exact ih i
    have howed : owedAfter op.arity ((List.ofFn operands).flatMap Expr.tokens ++ rest) = 0 := by
      simpa using owedAfter_row_append (List.ofFn operands) 0 rest
    rw [Expr.tokens_node, List.cons_append, enclosing, arityOf_toChar, howed, if_pos rfl,
      Nat.zero_add]
    exact enclosing_row_append hrow rest

theorem enclosing_row (es : List Expr) (rest : List Char) :
    enclosing (es.flatMap Expr.tokens ++ rest) = enclosing rest :=
  enclosing_row_append (fun e _ => enclosing_tokens_append e) rest

section Operands

variable {op : Operator} {es : List Expr} {rest : List Char}

theorem owedAfter_operands (h : es.length < op.arity) (hrest : owedAfter 1 rest ≠ 0) :
    owedAfter op.arity (es.flatMap Expr.tokens ++ rest) ≠ 0 := by
  have harity : op.arity = 1 + (op.arity - es.length - 1) + es.length := by omega
  rw [harity, owedAfter_row_append, owedAfter_add hrest]
  omega

/-- Before its operands are complete an operator stands around what follows. -/
theorem enclosing_operator (h : es.length < op.arity) (hrest : owedAfter 1 rest ≠ 0) :
    enclosing (op.toChar :: (es.flatMap Expr.tokens ++ rest)) = 1 + enclosing rest := by
  rw [enclosing, arityOf_toChar, if_neg (owedAfter_operands h hrest), enclosing_row]

theorem NestsTo.operand {levels : Nat} (h : NestsTo levels 1 rest) (hlen : es.length < op.arity) :
    NestsTo (levels + 1) 1 (op.toChar :: (es.flatMap Expr.tokens ++ rest)) := by
  obtain ⟨before, token, after, rfl, hopen, hle⟩ := h
  refine ⟨op.toChar :: (es.flatMap Expr.tokens ++ before), token, after, by simp, ?_, ?_⟩
  · rw [owedAfter, Nat.zero_add, arityOf_toChar]
    exact owedAfter_operands hlen hopen
  · rw [enclosing_operator hlen hopen]
    omega

end Operands

/-- A token of a row of expressions and of what follows them lies in one of the expressions, or
behind all of them. -/
theorem split_row {es : List Expr} {rest before after : List Char} {token : Char}
    (h : es.flatMap Expr.tokens ++ rest = before ++ token :: after) :
    (∃ done : List Expr, ∃ e ∈ es, ∃ inside after',
      before = done.flatMap Expr.tokens ++ inside ∧ e.tokens = inside ++ token :: after') ∨
    ∃ behind, before = es.flatMap Expr.tokens ++ behind ∧ rest = behind ++ token :: after := by
  induction es generalizing before with
  | nil => exact .inr ⟨before, rfl, h⟩
  | cons e es ih =>
    rw [List.flatMap_cons, List.append_assoc] at h
    obtain ⟨more, rfl, hmore⟩ | ⟨more, he, hmore⟩ := List.append_eq_append_iff.mp h
    · obtain ⟨done, e', he', inside, after', rfl, ht⟩ | ⟨behind, rfl, hrest⟩ := ih hmore
      · exact .inl ⟨e :: done, e', by simp [he'], inside, after', by simp, ht⟩
      · exact .inr ⟨behind, by simp, hrest⟩
    · cases more with
      | nil =>
        -- The token is the first one behind the expression.
        simp only [List.append_nil] at he
        obtain rfl := he
        have hnil : es.flatMap Expr.tokens ++ rest = [] ++ token :: after := hmore.symm
        obtain ⟨done, e', he', inside, after', hb, ht⟩ | ⟨behind, hb, hrest⟩ := ih hnil
        · exact .inl ⟨e :: done, e', by simp [he'], inside, after', by simp [← hb], ht⟩
        · exact .inr ⟨behind, by simp [← hb], hrest⟩
      | cons c more =>
        obtain ⟨rfl, -⟩ := List.cons.inj hmore
        exact .inl ⟨[], e, by simp, before, more, rfl, he⟩

namespace Expr

theorem foldl_max_le {n m : Nat} {ns : List Nat} (hm : m ≤ n) (h : ∀ k ∈ ns, k ≤ n) :
    ns.foldl max m ≤ n := by
  induction ns generalizing m with
  | nil => exact hm
  | cons k ns ih =>
    simp only [List.mem_cons, forall_eq_or_imp] at h
    exact ih (max_le hm h.1) h.2

theorem le_foldl_max {n m : Nat} {ns : List Nat} (h : n ≤ m ∨ n ∈ ns) : n ≤ ns.foldl max m := by
  induction ns generalizing m with
  | nil => simpa using h
  | cons k ns ih =>
    rw [List.mem_cons] at h
    rcases h with h | rfl | h
    · exact ih (.inl (h.trans (le_max_left _ _)))
    · exact ih (.inl (le_max_right _ _))
    · exact ih (.inr h)

theorem height_operand_lt (op : Operator) (operands : Fin op.arity → Expr) (i : Fin op.arity) :
    (operands i).height < (node op operands).height := by
  have hmem : (operands i).height ∈ List.ofFn fun i => (operands i).height :=
    List.mem_ofFn.mpr ⟨i, rfl⟩
  rw [height]
  exact Nat.lt_succ_of_le (le_foldl_max (.inr hmem))

theorem height_ofOperands_le {op : Operator} {operands : List Expr} {levels : Nat}
    (hlen : operands.length = op.arity) (h : ∀ e ∈ operands, e.height < levels) :
    (ofOperands op operands hlen).height ≤ levels := by
  have hpos : 0 < operands.length := by have := op.two_le_arity; omega
  have hlevels : 0 < levels := (Nat.zero_le _).trans_lt (h _ (List.getElem_mem hpos))
  have hle : (List.ofFn fun i : Fin op.arity => (operands.get (i.cast hlen.symm)).height).foldl
      max 0 ≤ levels - 1 := by
    refine foldl_max_le (Nat.zero_le _) fun k hk => ?_
    obtain ⟨i, rfl⟩ := List.mem_ofFn.mp hk
    have := h _ (operands.get_mem (i.cast hlen.symm))
    omega
  rw [ofOperands, height]
  omega

/-- No token of an expression stands inside more operators than some leaf. -/
theorem enclosing_le_height {e : Expr} {before after : List Char} {token : Char}
    (h : e.tokens = before ++ token :: after) : enclosing before ≤ e.height := by
  induction e generalizing before after with
  | leaf c hc =>
    have hnil : before = [] := by cases before <;> simp_all [tokens]
    simp [hnil, enclosing]
  | node op operands ih =>
    cases before with
    | nil => exact Nat.zero_le _
    | cons c before =>
      rw [tokens_node, List.cons_append] at h
      have hrow : (List.ofFn operands).flatMap tokens ++ [] = before ++ token :: after := by
        rw [List.append_nil, (List.cons.inj h).2]
      obtain ⟨done, e, he, inside, after', rfl, ht⟩ | ⟨behind, -, hnil⟩ := split_row hrow
      · obtain ⟨i, rfl⟩ := List.mem_ofFn.mp he
        have hi := ih i ht
        have hlt := height_operand_lt op operands i
        rw [enclosing, enclosing_row]
        split <;> omega
      · simp at hnil

end Expr

section Levels

variable {levels : Nat}

theorem not_nestsTo_tokens_append {e : Expr} (h : e.height < levels) (rest : List Char) :
    ¬ NestsTo levels 1 (e.tokens ++ rest) := by
  rintro ⟨before, token, after, heq, hopen, hle⟩
  have hrow : [e].flatMap Expr.tokens ++ rest = before ++ token :: after := by simpa using heq
  obtain ⟨done, e', he', inside, after', rfl, ht⟩ | ⟨behind, rfl, -⟩ := split_row hrow
  · obtain rfl := List.mem_singleton.mp he'
    rw [enclosing_row] at hle
    exact absurd (hle.trans (Expr.enclosing_le_height ht)) (by omega)
  · simp at hopen

/-- Complete operands and the open expression behind them lie one operator deeper. -/
theorem not_nestsTo_operator {op : Operator} {es : List Expr} {rest : List Char}
    (hes : ∀ e ∈ es, e.height < levels) (hopen : owedAfter 1 rest ≠ 0)
    (hrest : ¬ NestsTo levels 1 rest) :
    ¬ NestsTo (levels + 1) 1 (op.toChar :: (es.flatMap Expr.tokens ++ rest)) := by
  rintro ⟨before, token, after, heq, -, hle⟩
  cases before with
  | nil => simp [enclosing] at hle
  | cons c before =>
    have hdeep : levels ≤ enclosing before := by
      rw [enclosing] at hle
      split at hle <;> omega
    rw [List.cons_append] at heq
    obtain ⟨done, e, he, inside, after', rfl, ht⟩ | ⟨behind, rfl, rfl⟩ :=
      split_row (List.cons.inj heq).2
    · rw [enclosing_row] at hdeep
      exact absurd (hdeep.trans (Expr.enclosing_le_height ht)) (by have := hes e he; omega)
    · rw [enclosing_row] at hdeep
      exact hrest ⟨behind, token, after, rfl, owedAfter_ne_zero_of_append hopen, hdeep⟩

end Levels

/-- Nothing is open behind complete expressions, so no operator there lacks operands. -/
theorem row_ne_append_shortfall {op : Operator} {done es : List Expr} {before : List Char}
    (h : es.length < op.arity) :
    done.flatMap Expr.tokens ≠ before ++ op.toChar :: es.flatMap Expr.tokens := by
  intro heq
  have hzero : enclosing (done.flatMap Expr.tokens) = 0 := by
    simpa [enclosing] using enclosing_row done []
  have hone : enclosing (op.toChar :: es.flatMap Expr.tokens) = 1 := by
    have hnil : owedAfter 1 [] ≠ 0 := by simp
    simpa [enclosing] using enclosing_operator h hnil
  have hle := enclosing_le_append before (op.toChar :: es.flatMap Expr.tokens)
  rw [← heq, hzero, hone] at hle
  exact absurd hle (by decide)

theorem shortfall_suffix {op op' : Operator} {es es' : List Expr} {before : List Char}
    (h : op.toChar :: es.flatMap Expr.tokens =
      before ++ op'.toChar :: es'.flatMap Expr.tokens)
    (hlen' : es'.length < op'.arity) : before = [] ∧ op = op' ∧ es = es' := by
  cases before with
  | nil =>
    obtain ⟨hop, hrow⟩ := List.cons.inj h
    exact ⟨rfl, Operator.toChar_injective hop,
      Expr.row_injective (fun e _ e' he => Expr.tokens_injective he) hrow⟩
  | cons c before => exact absurd (List.cons.inj h).2 (row_ne_append_shortfall hlen')

/-- A sequence lacks operands at one operator only, the last one that is open. -/
theorem shortfall_unique {before before' : List Char} {op op' : Operator} {es es' : List Expr}
    (h : before ++ op.toChar :: es.flatMap Expr.tokens =
      before' ++ op'.toChar :: es'.flatMap Expr.tokens)
    (hlen : es.length < op.arity) (hlen' : es'.length < op'.arity) :
    before = before' ∧ op = op' ∧ es = es' := by
  obtain ⟨more, rfl, htail⟩ | ⟨more, rfl, htail⟩ := List.append_eq_append_iff.mp h
  · obtain ⟨rfl, hop, hes⟩ := shortfall_suffix htail hlen'
    exact ⟨(List.append_nil _).symm, hop, hes⟩
  · obtain ⟨rfl, hop, hes⟩ := shortfall_suffix htail hlen
    exact ⟨List.append_nil _, hop.symm, hes.symm⟩

theorem LacksOperands.unique {tokens : List Char} {op op' : Operator} {found found' : Nat}
    (h : LacksOperands tokens op found) (h' : LacksOperands tokens op' found') :
    op = op' ∧ found = found' := by
  obtain ⟨before, es, rfl, rfl, hlen⟩ := h
  obtain ⟨before', es', heq, rfl, hlen'⟩ := h'
  obtain ⟨-, hop, hes⟩ := shortfall_unique heq hlen hlen'
  exact ⟨hop, by rw [hes]⟩

end Ideograph
