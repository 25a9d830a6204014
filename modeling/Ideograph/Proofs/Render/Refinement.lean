import Ideograph.Proofs.Render.Run
import Ideograph.Render.Tree

/-! # A sequence is drawn as its tree

The drawing of a sequence that begins with an expression is the drawing of that expression: what
is asked for, the fragments and the errors are the same, and what follows is left. Every leaf has
one fragment, in their order, which was moved into one slot after another on the way out.
-/

namespace Ideograph.Renderer

open Number Ideograph.Expr

variable {α : Type}

section Layout

variable [Scalar α]

variable {op : Operator} (operands : Fin op.arity → Expr)

theorem exists_ofFn_operands : ∃ e₁ e₂ more, List.ofFn operands = e₁ :: e₂ :: more := by
  have hlen : (List.ofFn operands).length = op.arity := List.length_ofFn
  have harity := op.two_le_arity
  rcases hes : List.ofFn operands with _ | ⟨e₁, _ | ⟨e₂, more⟩⟩
  · simp [hes] at hlen; omega
  · simp [hes] at hlen; omega
  · exact ⟨e₁, e₂, more, rfl⟩

variable {operands} in
/-- Looking ahead finds the tokens with which the operands begin. -/
theorem layout_operands (rest : List Char) (side : α) (parts : Parts) :
    op.layout ((List.ofFn operands).flatMap tokens ++ rest) side parts =
      op.slots (roots op operands).1 (roots op operands).2 side parts := by
  obtain ⟨e₁, e₂, more, hes⟩ := exists_ofFn_operands operands
  have hroots : (List.ofFn fun i => (operands i).root) = (List.ofFn operands).map root := by
    rw [List.map_ofFn]
    rfl
  have hfirst : ((e₁ :: e₂ :: more).flatMap tokens ++ rest).head? = some e₁.root := by
    simp [head?_tokens]
  have hsecond : secondRoot? ((e₁ :: e₂ :: more).flatMap tokens ++ rest) = some e₂.root := by
    rw [List.flatMap_cons, List.append_assoc, secondRoot?, skip_tokens_append]
    simp [head?_tokens]
  simp only [Operator.layout, roots, hroots, hes, hfirst, hsecond, List.map_cons,
    List.getElem?_cons_zero, List.getElem?_cons_succ]

/-- Behind complete operands nothing is looked at. -/
theorem layout_append {es : List Expr} (hlen : es.length = op.arity) (after suffix : List Char)
    (side : α) (parts : Parts) :
    op.layout (es.flatMap tokens ++ after) side parts =
      op.layout (es.flatMap tokens ++ after ++ suffix) side parts := by
  rw [← ofFn_get_cast es hlen, List.append_assoc, layout_operands, layout_operands]

end Layout

/-- Draw the operands into slots, each on its own. -/
def layers (drawings : List (Option Position → Traced (List String))) (slots : List (Slot α)) :
    Traced (List (Layer α)) :=
  (drawings.zip slots).mapM fun (draw, slot) => do return Layer.mk (← draw slot.position) slot

theorem layers_cons (drawing : Option Position → Traced (List String))
    (drawings : List (Option Position → Traced (List String))) (slot : Slot α)
    (slots : List (Slot α)) :
    layers (drawing :: drawings) (slot :: slots) = do
      let fragments ← drawing slot.position
      let layers ← layers drawings slots
      return ⟨fragments, slot⟩ :: layers := by
  simp [layers]

/-- Operands that are expressions in a row are drawn each on its own. -/
theorem operands_row {draw : Option Position → List Char → Traced (List String × List Char)}
    {missing : Nat → RenderError} {es : List Expr}
    {drawing : Expr → Option Position → Traced (List String)}
    (hdraw : ∀ e ∈ es, ∀ position rest,
      draw position (e.tokens ++ rest) = do return (← drawing e position, rest))
    (found : Nat) {slots : List (Slot α)} (hlen : slots.length = es.length) (rest : List Char) :
    operands draw missing found slots (es.flatMap tokens ++ rest) = do
      return (← layers (es.map drawing) slots, rest) := by
  induction es generalizing found slots with
  | nil =>
    obtain rfl := List.eq_nil_of_length_eq_zero hlen
    rfl
  | cons e es ih =>
    obtain ⟨slot, slots, rfl⟩ := List.exists_cons_of_length_eq_add_one hlen
    simp only [List.mem_cons, forall_eq_or_imp] at hdraw
    rw [List.flatMap_cons, List.append_assoc, operands_cons _ _ _ (by simp [e.tokens_ne_nil]),
      hdraw.1, List.map_cons, layers_cons]
    simp [ih hdraw.2 (found + 1) (Nat.succ.inj hlen)]

/-- The sites of operands in a row, each inside its slot. -/
def rowSites (inner : List (Option Position → List (Site α))) (slots : List (Slot α)) :
    List (Site α) :=
  (inner.zip slots).flatMap fun (sites, slot) => (sites slot.position).map (·.within slot)

theorem rowSites_cons (inner : Option Position → List (Site α))
    (more : List (Option Position → List (Site α))) (slot : Slot α) (slots : List (Slot α)) :
    rowSites (inner :: more) (slot :: slots) =
      (inner slot.position).map (·.within slot) ++ rowSites more slots := rfl

variable [Scalar α] {r : Renderer α} {fontSize : α}

theorem tree_node (op : Operator) (operands : Fin op.arity → Expr) (levels : Nat)
    (position : Option Position) :
    r.tree fontSize (.node op operands) (levels + 1) position =
      layers ((List.ofFn operands).map fun e => r.tree fontSize e levels)
        (op.slots (roots op operands).1 (roots op operands).2 fontSize r.parts) >>=
      fun layers => .lift (compose layers) := by
  rw [tree, List.map_ofFn]
  rfl

theorem expression_tokens_append (total : Nat) (e : Expr) (levels : Nat)
    (position : Option Position) (rest : List Char) :
    r.expression total fontSize levels position (e.tokens ++ rest) = do
      return (← r.tree fontSize e levels position, rest) := by
  induction e generalizing levels position rest with
  | leaf c hc =>
    cases levels with
    | zero => rfl
    | succ levels => exact expression_leaf r total fontSize levels position hc rest
  | node op operands ih =>
    cases levels with
    | zero => rw [expression, tree]; rfl
    | succ levels =>
      have hdraw : ∀ e ∈ List.ofFn operands, ∀ position rest,
          r.expression total fontSize levels position (e.tokens ++ rest) = do
            return (← r.tree fontSize e levels position, rest) := by
        intro e he position rest
        obtain ⟨i, rfl⟩ := List.mem_ofFn.mp he
        exact ih i levels position rest
      have hlen : (op.slots (roots op operands).1 (roots op operands).2 fontSize r.parts).length =
          (List.ofFn operands).length := by
        rw [Operator.length_slots, List.length_ofFn]
      rw [tokens_node, List.cons_append, expression_operator, layout_operands,
        operands_row hdraw 0 hlen, tree_node]
      simp

theorem sites_node (op : Operator) (operands : Fin op.arity → Expr)
    (position : Option Position) :
    r.sites fontSize (.node op operands) position =
      rowSites ((List.ofFn operands).map (r.sites fontSize))
        (op.slots (roots op operands).1 (roots op operands).2 fontSize r.parts) := by
  rw [sites, List.map_ofFn]
  rfl

theorem leaves_node (op : Operator) (operands : Fin op.arity → Expr) :
    (node op operands).leaves = (List.ofFn operands).flatMap leaves := by
  rw [leaves, List.flatMap_def, List.map_ofFn]
  rfl

/-- What is read off the sites of each operand inside a slot is read off their row in order. -/
theorem map_rowSites {β : Type} {f : Site α → β} {g : Expr → List β} {es : List Expr}
    {slots : List (Slot α)} (hlen : slots.length = es.length)
    (h : ∀ e ∈ es, ∀ position slot,
      ((r.sites fontSize e position).map (·.within slot)).map f = g e) :
    (rowSites (es.map (r.sites fontSize)) slots).map f = es.flatMap g := by
  induction es generalizing slots with
  | nil => rfl
  | cons e es ih =>
    obtain ⟨slot, slots, rfl⟩ := List.exists_cons_of_length_eq_add_one hlen
    simp only [List.mem_cons, forall_eq_or_imp] at h
    rw [List.map_cons, rowSites_cons, List.map_append, List.flatMap_cons,
      ih (Nat.succ.inj hlen) h.2, h.1 slot.position slot]

/-- Every leaf has a site, in their order. -/
theorem map_char_sites (e : Expr) (position : Option Position) :
    (r.sites fontSize e position).map Site.char = e.leaves := by
  induction e generalizing position with
  | leaf c hc => rfl
  | node op operands ih =>
    rw [sites_node, leaves_node]
    refine map_rowSites (by rw [Operator.length_slots, List.length_ofFn]) fun e he position _ => ?_
    obtain ⟨i, rfl⟩ := List.mem_ofFn.mp he
    rw [List.map_map]
    exact ih i position

theorem placeAll_eq_ok {p : Placement α} {fragments placed : List String}
    (h : p.placeAll fragments = .ok placed) :
    List.Forall₂ (fun data text => p.placeData drawingPlaces data = .ok text)
      fragments placed :=
  (mapM_eq_ok_iff.mp h).imp fun _ _ htext => mapError_eq_ok_iff.mp htext

theorem exists_singleton_of_leaf {position : Option Position} {c : Char}
    {fragments : List String} (h : (r.leaf fontSize position c).outcome = .ok fragments) :
    ∃ data, fragments = [data] := by
  rw [leaf] at h
  split at h
  · obtain ⟨text, _, -, hnil, rfl⟩ := List.forall₂_cons_left_iff.mp (placeAll_eq_ok h)
    exact ⟨text, by rw [List.forall₂_nil_left_iff.mp hnil]⟩
  · obtain ⟨glyph, -, hpure⟩ := Traced.outcome_bind_eq_ok.mp h
    exact ⟨_, (pure_eq_ok_iff.mp hpure).symm⟩

theorem DrawsSite.within {site : Site α} {data text : String} {slot : Slot α}
    (h : r.DrawsSite fontSize site data)
    (hplace : slot.placement.placeData drawingPlaces data = .ok text) :
    r.DrawsSite fontSize (site.within slot) text := by
  obtain ⟨start, hleaf, hslots⟩ := h
  refine ⟨start, hleaf, ?_⟩
  rw [Site.within, List.foldlM_append]
  refine bind_eq_ok_iff.mpr ⟨data, hslots, ?_⟩
  rw [List.foldlM_cons, hplace]
  rfl

/-- Fragments moved into a slot are those of the same leaves with the slot around them. -/
theorem forall₂_within {sites : List (Site α)} {fragments placed : List String} {slot : Slot α}
    (h : List.Forall₂ (r.DrawsSite fontSize) sites fragments)
    (hplaced : List.Forall₂
      (fun data text => slot.placement.placeData drawingPlaces data = .ok text)
      fragments placed) :
    List.Forall₂ (r.DrawsSite fontSize) (sites.map (·.within slot)) placed := by
  induction h generalizing placed with
  | nil =>
    rw [List.forall₂_nil_left_iff.mp hplaced]
    exact .nil
  | cons hsite _ ih =>
    obtain ⟨text, texts, htext, htexts, rfl⟩ := List.forall₂_cons_left_iff.mp hplaced
    exact .cons (hsite.within htext) (ih htexts)

theorem compose_cons_eq_ok {layer : Layer α} {ls : List (Layer α)} {fragments : List String}
    (h : compose (layer :: ls) = .ok fragments) :
    ∃ placed more, layer.slot.placement.placeAll layer.fragments = .ok placed ∧
      compose ls = .ok more ∧ fragments = placed ++ more := by
  obtain ⟨all, hall, hpure⟩ := bind_eq_ok_iff.mp h
  obtain ⟨placed, rest, hplaced, hrest, rfl⟩ :=
    List.forall₂_cons_left_iff.mp (mapM_eq_ok_iff.mp hall)
  refine ⟨placed, rest.flatten, hplaced, ?_, (pure_eq_ok_iff.mp hpure).symm⟩
  exact bind_eq_ok_iff.mpr ⟨rest, mapM_eq_ok_iff.mpr hrest, rfl⟩

theorem forall₂_row {levels : Nat} {es : List Expr} {slots : List (Slot α)}
    {ls : List (Layer α)} {fragments : List String}
    (h : ∀ e ∈ es, ∀ position fragments,
      (r.tree fontSize e levels position).outcome = .ok fragments →
      List.Forall₂ (r.DrawsSite fontSize) (r.sites fontSize e position) fragments)
    (hlayers : (layers (es.map fun e => r.tree fontSize e levels) slots).outcome = .ok ls)
    (hcompose : compose ls = .ok fragments) :
    List.Forall₂ (r.DrawsSite fontSize) (rowSites (es.map (r.sites fontSize)) slots)
      fragments := by
  induction es generalizing slots ls fragments with
  | nil =>
    cases hlayers
    cases hcompose
    exact .nil
  | cons e es ih =>
    cases slots with
    | nil =>
      cases hlayers
      cases hcompose
      exact .nil
    | cons slot slots =>
      simp only [List.mem_cons, forall_eq_or_imp] at h
      rw [List.map_cons, layers_cons] at hlayers
      obtain ⟨inner, hinner, hlayers⟩ := Traced.outcome_bind_eq_ok.mp hlayers
      obtain ⟨rest, hrest, hpure⟩ := Traced.outcome_bind_eq_ok.mp hlayers
      obtain rfl := pure_eq_ok_iff.mp hpure
      obtain ⟨placed, more, hplaced, hmore, rfl⟩ := compose_cons_eq_ok hcompose
      rw [List.map_cons, rowSites_cons]
      exact List.rel_append (forall₂_within (h.1 _ _ hinner) (placeAll_eq_ok hplaced))
        (ih h.2 hrest hmore)

/-- Every fragment is that of the leaf at its place. -/
theorem forall₂_sites {e : Expr} {levels : Nat} {position : Option Position}
    {fragments : List String}
    (h : (r.tree fontSize e levels position).outcome = .ok fragments) :
    List.Forall₂ (r.DrawsSite fontSize) (r.sites fontSize e position) fragments := by
  induction e generalizing levels position fragments with
  | leaf c hc =>
    cases levels with
    | zero => cases h
    | succ levels =>
      obtain ⟨data, rfl⟩ := exists_singleton_of_leaf h
      exact .cons ⟨data, h, rfl⟩ .nil
  | node op operands ih =>
    cases levels with
    | zero => cases h
    | succ levels =>
      rw [tree_node] at h
      obtain ⟨ls, hlayers, hcompose⟩ := Traced.outcome_bind_eq_ok.mp h
      rw [sites_node]
      refine forall₂_row (fun e he position fragments hout => ?_) hlayers hcompose
      obtain ⟨i, rfl⟩ := List.mem_ofFn.mp he
      exact ih i hout

theorem exists_site {e : Expr} {levels : Nat} {position : Option Position}
    {fragments : List String}
    (h : (r.tree fontSize e levels position).outcome = .ok fragments) {text : String}
    (htext : text ∈ fragments) :
    ∃ site ∈ r.sites fontSize e position, r.DrawsSite fontSize site text := by
  obtain ⟨i, hi, rfl⟩ := List.getElem_of_mem htext
  have hsites := forall₂_sites h
  have hi' : i < (r.sites fontSize e position).length := hsites.length_eq ▸ hi
  exact ⟨_, List.getElem_mem hi', hsites.get hi' hi⟩

/-- The tokens of an expression are drawn as its tree. -/
theorem render_tokens (e : Expr) :
    r.render fontSize e.tokens = r.tree fontSize e (r.maxDepth + 1) none := by
  have hdecompose : r.decompose fontSize none (e.tokens ++ []) = do
      return (← r.tree fontSize e (r.maxDepth + 1) none, []) := by
    rw [decompose, expression_tokens_append]
  rw [List.append_nil] at hdecompose
  rw [render_of_ne_nil e.tokens_ne_nil, hdecompose]
  simp

/-- A sequence that is drawn is one expression, drawn as its tree. -/
theorem exists_tree_of_render {tokens : List Char} {fragments : List String}
    (h : (r.render fontSize tokens).outcome = .ok fragments) :
    ∃ e : Expr, e.tokens = tokens ∧
      (r.tree fontSize e (r.maxDepth + 1) none).outcome = .ok fragments := by
  have hne : tokens ≠ [] := by
    rintro rfl
    cases h
  rw [render_of_ne_nil hne] at h
  obtain ⟨⟨drawn, rest⟩, hdraw, h⟩ := Traced.outcome_bind_eq_ok.mp h
  obtain rfl : rest = [] := by
    by_contra hrest
    simp [hrest] at h
  obtain rfl : drawn = fragments := by simpa using h
  obtain ⟨e, htokens, -⟩ := Ends.exists_expr (hdraw ▸ decompose_ends r fontSize none hne)
  rw [decompose, htokens, expression_tokens_append] at hdraw
  obtain ⟨fragments, htree, hpure⟩ := Traced.outcome_bind_eq_ok.mp hdraw
  obtain ⟨rfl, -⟩ := Prod.mk.inj (pure_eq_ok_iff.mp hpure)
  exact ⟨e, by rw [htokens, List.append_nil], htree⟩

/-- A sequence that begins with an expression is drawn as the tree of the expression, with one
fragment for each leaf. -/
theorem decompose_tokens_append (r : Renderer α) (fontSize : α) (position : Option Position)
    (e : Expr) (rest : List Char) :
    (r.decompose fontSize position (e.tokens ++ rest) = do
      return (← r.tree fontSize e (r.maxDepth + 1) position, rest)) ∧
    (r.sites fontSize e position).map Site.char = e.leaves ∧
    ∀ fragments, (r.tree fontSize e (r.maxDepth + 1) position).outcome = .ok fragments →
      List.Forall₂ (r.DrawsSite fontSize) (r.sites fontSize e position) fragments :=
  ⟨expression_tokens_append (e.tokens ++ rest).length e (r.maxDepth + 1) position rest,
    map_char_sites e position, fun _ => forall₂_sites⟩

end Ideograph.Renderer
