import Ideograph.Glyph.Sources
import Ideograph.Proofs.Expr.Positions
import Ideograph.Proofs.Render.Refinement

/-! # What a drawing asks for

A drawing asks for the leaves that have no variant in their position, from left to right and once
each. Where it fails it has asked for the first of them only, and where a glyph is refused, the
character refused is the last one asked for.
-/

namespace Ideograph.Renderer

open Number Ideograph.Expr

variable {α β γ : Type} (r : Renderer α) (fontSize : α)

/-- The variant that is drawn for a leaf in its position. -/
def variant? (leaf : Option Position × Char) : Option String :=
  leaf.1.bind (r.parts.variant? · leaf.2)

/-- The characters of leaves that have no variant. -/
def unvaried (leaves : List (Option Position × Char)) : List Char :=
  (leaves.filter fun leaf => (r.variant? leaf).isNone).map Prod.snd

theorem unvaried_append (leaves more : List (Option Position × Char)) :
    r.unvaried (leaves ++ more) = r.unvaried leaves ++ r.unvaried more := by
  simp [unvaried]

/-- The glyphs of characters without a variant are there. -/
def Answered (leaves : List (Option Position × Char)) : Prop :=
  ∀ c ∈ r.unvaried leaves, ∃ glyph, r.source c fontSize = .ok glyph

/-- What a computation that draws leaves asks for: all without a variant, or those up to one that
is refused, or those in front of another error. -/
inductive Asks : List (Option Position × Char) → Traced β → Prop where
  | all (leaves : List (Option Position × Char)) (b : β) : r.Answered fontSize leaves →
      Asks leaves ⟨r.unvaried leaves, .ok b⟩
  | refused (before after : List (Option Position × Char)) {leaf : Option Position × Char}
      {e : RenderError} : r.Answered fontSize before → r.variant? leaf = none →
      r.source leaf.2 fontSize = .error e →
      Asks (before ++ leaf :: after) ⟨r.unvaried before ++ [leaf.2], .error e⟩
  | stopped (before after : List (Option Position × Char)) {e : RenderError} :
      r.Answered fontSize before → (∀ c, e ≠ .unsupported c) →
      Asks (before ++ after) ⟨r.unvaried before, .error e⟩

variable {r fontSize} {leaves more : List (Option Position × Char)}

theorem Answered.append (h : r.Answered fontSize leaves) (hmore : r.Answered fontSize more) :
    r.Answered fontSize (leaves ++ more) := by
  intro c hc
  rw [unvaried_append] at hc
  exact (List.mem_append.mp hc).elim (h c) (hmore c)

theorem answered_nil : r.Answered fontSize [] := by simp [Answered, unvaried]

theorem Asks.pure (b : β) : r.Asks fontSize [] (Pure.pure b : Traced β) :=
  .all [] b answered_nil

/-- One computation after another asks for the leaves of both. -/
theorem Asks.bind {t : Traced β} (h : r.Asks fontSize leaves t) {f : β → Traced γ}
    (hf : ∀ b, r.Asks fontSize more (f b)) : r.Asks fontSize (leaves ++ more) (t >>= f) := by
  cases h with
  | all leaves b hanswered =>
    rw [Traced.bind_of_ok rfl]
    have hnext := hf b
    generalize f b = t at hnext ⊢
    cases hnext with
    | all _ c hanswered' =>
      simpa only [unvaried_append] using Asks.all _ c (hanswered.append hanswered')
    | refused before after hanswered' hvariant hsource =>
      simpa only [unvaried_append, List.append_assoc] using
        Asks.refused (leaves ++ before) after (hanswered.append hanswered') hvariant hsource
    | stopped before after hanswered' hother =>
      simpa only [unvaried_append, List.append_assoc] using
        Asks.stopped (leaves ++ before) after (hanswered.append hanswered') hother
  | refused before after hanswered hvariant hsource =>
    rw [Traced.bind_of_error rfl, List.append_assoc, List.cons_append]
    exact .refused before (after ++ more) hanswered hvariant hsource
  | stopped before after hanswered hother =>
    rw [Traced.bind_of_error rfl, List.append_assoc]
    exact .stopped before (after ++ more) hanswered hother

theorem asks_layers {drawing : Expr → Option Position → Traced (List String)} {es : List Expr}
    (h : ∀ e ∈ es, ∀ position, r.Asks fontSize (e.positioned position) (drawing e position))
    {slots : List (Slot α)} (hlen : slots.length = es.length) :
    r.Asks fontSize (rowPositioned es (slots.map Slot.position))
      (layers (es.map drawing) slots) := by
  induction es generalizing slots with
  | nil =>
    obtain rfl := List.eq_nil_of_length_eq_zero hlen
    exact .pure []
  | cons e es ih =>
    obtain ⟨slot, slots, rfl⟩ := List.exists_cons_of_length_eq_add_one hlen
    simp only [List.mem_cons, forall_eq_or_imp] at h
    rw [List.map_cons, List.map_cons, layers_cons, rowPositioned_cons]
    refine (h.1 slot.position).bind fun fragments => ?_
    rw [← List.append_nil (rowPositioned es (slots.map Slot.position))]
    exact (ih h.2 (Nat.succ.inj hlen)).bind fun layers => .pure _

/-- Moving fragments asks for nothing and refuses no character. -/
theorem asks_lift {drawn : Except RenderError β}
    (h : ∀ e, drawn = .error e → ∃ fault, e = .path fault)
    (hleaves : r.unvaried leaves = []) : r.Asks fontSize leaves (Traced.lift drawn) := by
  have hanswered : r.Answered fontSize leaves := by simp [Answered, hleaves]
  rcases drawn with e | b
  · obtain ⟨fault, rfl⟩ := h e rfl
    have hstopped : r.Asks fontSize (leaves ++ []) ⟨r.unvaried leaves, .error (.path fault)⟩ :=
      Asks.stopped (β := β) leaves [] hanswered nofun
    rwa [List.append_nil, hleaves] at hstopped
  · have hall := Asks.all leaves b hanswered
    rwa [hleaves] at hall

variable [Scalar α]

theorem asks_leaf (position : Option Position) (c : Char) :
    r.Asks fontSize [(position, c)] (r.leaf fontSize position c) := by
  rw [leaf]
  rcases hvariant : position.bind (r.parts.variant? · c) with _ | data
  · have hunvaried : r.unvaried [(position, c)] = [c] := by simp [unvaried, variant?, hvariant]
    rcases hsource : r.source c fontSize with e | glyph
    · exact .refused [] [] answered_nil hvariant hsource
    · have hall := Asks.all [(position, c)] [glyph.path.place (glyph.placement fontSize)
        drawingPlaces] (show r.Answered fontSize _ by simp [Answered, hunvaried, hsource])
      rwa [hunvaried] at hall
  · exact asks_lift (fun _ => placeAll_error) (by simp [unvaried, variant?, hvariant])

/-- A tree asks for its leaves, each in its position. -/
theorem asks_tree (e : Expr) (levels : Nat) (position : Option Position) :
    r.Asks fontSize (e.positioned position) (r.tree fontSize e levels position) := by
  induction e generalizing levels position with
  | leaf c hc =>
    cases levels with
    | zero => exact .stopped [] _ answered_nil nofun
    | succ levels => exact asks_leaf position c
  | node op operands ih =>
    cases levels with
    | zero =>
      rw [tree]
      exact .stopped [] _ answered_nil nofun
    | succ levels =>
      have hslots := op.map_position_slots (roots op operands).1 (roots op operands).2 fontSize
        r.parts
      have hoperands : ∀ e ∈ List.ofFn operands, ∀ position,
          r.Asks fontSize (e.positioned position) (r.tree fontSize e levels position) :=
        List.forall_mem_ofFn_iff.mpr fun i => ih i levels
      rw [tree_node, positioned_node, ← hslots, ← List.append_nil (rowPositioned ..)]
      refine (asks_layers hoperands ?_).bind fun layers => asks_lift (fun _ => compose_error) rfl
      rw [Operator.length_slots, List.length_ofFn]

/-- A drawing that succeeds has asked for the leaves without a variant in their position, in order
and once each. One that fails for want of a character has asked for the leaves up to the first one
that is refused, and this is the character. -/
theorem render_requests (r : Renderer α) (fontSize : α) (e : Expr) :
    (e.positioned none).map Prod.snd = e.leaves ∧
    (∀ fragments, (r.render fontSize e.tokens).outcome = .ok fragments →
      (r.render fontSize e.tokens).requests = r.unvaried (e.positioned none)) ∧
    ((∀ c d, r.source c fontSize = .error (.unsupported d) → d = c) →
      ∀ c, (r.render fontSize e.tokens).outcome = .error (.unsupported c) →
        ∃ before position after, e.positioned none = before ++ (position, c) :: after ∧
          r.variant? (position, c) = none ∧ c ∉ r.unvaried before ∧
          (r.render fontSize e.tokens).requests = r.unvaried before ++ [c] ∧
          (r.render fontSize e.tokens).requests <+: r.unvaried (e.positioned none)) := by
  refine ⟨e.map_snd_positioned none, ?_⟩
  rw [render_tokens]
  have h : r.Asks fontSize (e.positioned none) (r.tree fontSize e (r.maxDepth + 1) none) :=
    asks_tree e (r.maxDepth + 1) none
  generalize r.tree fontSize e (r.maxDepth + 1) none = t at h ⊢
  generalize e.positioned none = leaves at h ⊢
  cases h with
  | all leaves b _ => exact ⟨fun _ _ => rfl, by simp⟩
  | @refused before after leaf error hanswered hvariant hsource =>
    refine ⟨by simp, fun hown c hc => ?_⟩
    obtain rfl : error = .unsupported c := Except.error.inj hc
    obtain ⟨position, c'⟩ := leaf
    obtain rfl : c = c' := hown c' c hsource
    have hsplit : r.unvaried (before ++ (position, c) :: after) =
        r.unvaried before ++ [c] ++ r.unvaried after := by
      simp [unvaried, hvariant]
    refine ⟨before, position, after, rfl, hvariant, fun hmem => ?_, rfl, ?_⟩
    · obtain ⟨glyph, hglyph⟩ := hanswered c hmem
      rw [hsource] at hglyph
      cases hglyph
    · rw [hsplit]
      exact List.prefix_append _ _
  | stopped before after _ hother =>
    refine ⟨by simp, fun _ c hc => ?_⟩
    exact absurd (Except.error.inj hc) (hother c)

/-- The first part has no variant in the middle of three, but one on the left of two. The last part
is not asked for. -/
theorem render_requests_refused :
    let r : Renderer Double :=
      { source := .drawn [('光', "M0 0")] 1000.0 1000.0
        parts := Parts.empty.withVariant .left '光' "M0 0" }
    let tokens := ['⿲', '光', '⿰', '光', '☒', '军']
    (∀ c d, r.source c 72.0 = .error (.unsupported d) → d = c) ∧
      (r.render 72.0 tokens).outcome = .error (.unsupported '☒') ∧
      (r.render 72.0 tokens).requests = ['光', '☒'] ∧
      ∃ e before position after, Expr.tokens e = tokens ∧
        e.positioned none = before ++ (position, '☒') :: after ∧
        r.variant? (position, '☒') = none ∧ '☒' ∉ r.unvaried before ∧
        (r.render 72.0 tokens).requests = r.unvaried before ++ ['☒'] := by
  intro r tokens
  let part (c : Char) (hc : Operator.ofChar? c = none) : Expr := .leaf c hc
  let e : Expr := .ofOperands .leftToMiddleToRight
    [part '光' rfl, .ofOperands .leftToRight [part '光' rfl, part '☒' rfl] rfl, part '军' rfl] rfl
  have hown : ∀ c d, r.source c 72.0 = .error (.unsupported d) → d = c :=
    fun _ _ => (GlyphSource.keepsContract_drawn _ _ _).eq_of_unsupported
  have htokens : e.tokens = tokens := rfl
  have hout : (r.render 72.0 tokens).outcome = .error (.unsupported '☒') := by decide +kernel
  have hrequests : (r.render 72.0 tokens).requests = ['光', '☒'] := by decide +kernel
  obtain ⟨before, position, after, hleaves, hvariant, hnew, hlog, -⟩ :=
    (render_requests r 72.0 e).2.2 hown '☒' hout
  exact ⟨hown, hout, hrequests, e, before, position, after, htokens, hleaves, hvariant, hnew, hlog⟩

end Ideograph.Renderer
