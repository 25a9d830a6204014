import Ideograph.Proofs.Number.Settled
import Ideograph.Proofs.Path.Closings
import Ideograph.Proofs.Render.Limit
import Ideograph.Proofs.Render.Readable

/-! # Layers that fill the box

An operand that fills the box is read and written again without being moved. The coordinates that
are read are settled as long as they are below a bound, so the operand is written digit by digit as
before, under any number of such layers.
-/

namespace Ideograph

open Number

namespace Operator

/-- The operators whose first operand fills the box: those with which it surrounds the other one,
and the one that lays both on top of one another. -/
def layered : List Operator :=
  [fullSurround, surroundFromAbove, surroundFromBelow, surroundFromLeft, surroundFromUpperLeft,
    surroundFromUpperRight, surroundFromLowerLeft, overlaid, surroundFromRight,
    surroundFromLowerRight]

theorem arity_of_layered {op : Operator} (h : op ∈ layered) : op.arity = 2 := by
  revert op
  decide

theorem slots_of_layered {α : Type} [Scalar α] {op : Operator} (h : op ∈ layered)
    (first second : Option Char) (side : α) (parts : Parts) :
    ∃ slot, op.slots first second side parts = [.full, slot] ∧ (op = .overlaid → slot = .full) := by
  cases op with
  | leftToRight | aboveToBelow | leftToMiddleToRight | aboveToMiddleToBelow => simp [layered] at h
  | overlaid => exact ⟨.full, rfl, fun _ => rfl⟩
  | _ => exact ⟨_, rfl, nofun⟩

end Operator

/-- Path data all of whose coordinates are below a bound, whatever their signs. -/
def Path.Below (bound : Double) (data : String) : Prop :=
  Path.ForallPoints (fun p : Point Double => p.x.abs < bound ∧ p.y.abs < bound) data

instance Path.instDecidableBelow (bound : Double) (data : String) :
    Decidable (Path.Below bound data) :=
  inferInstanceAs (Decidable (Path.ForallPoints _ _))

section Paths

variable {outline : Path Double} {text : String}

/-- What was written is read back with the coordinates of its text, if it is read at all. -/
theorem Path.eq_rewritten_of_read {places : Nat} (hbegun : outline.Begun)
    (hseparated : outline.Separated) {path : Path Double}
    (hread : Path.read (outline.write places) = .ok path) :
    outline.StaysFinite places ∧ path = outline.mapPoints (Point.map (rewritten places)) := by
  have hfinite : outline.StaysFinite places :=
    (exists_read_write_iff_staysFinite places hbegun).mp ⟨path, hread⟩
  have hrewritten := read_write_eq (f := rewritten places) hbegun (fun e he p hp =>
    ⟨(ofText?_eq_reread? (hfinite e he p hp).1).2, (ofText?_eq_reread? (hfinite e he p hp).2).2⟩)
    ⟨0.0, 0.0⟩
  rw [reopened_of_separated (hseparated.mapPoints _), hread] at hrewritten
  exact ⟨hfinite, Except.ok.inj hrewritten⟩

/-- A coordinate below the bound is written again as it is. -/
theorem text_rewritten_of_abs_lt {x : Double}
    (hfinite : (x * decimalFactor drawingPlaces).isFinite = true)
    (h : (rewritten drawingPlaces x).abs < 1e12) :
    Scalar.text drawingPlaces (rewritten drawingPlaces x) = Scalar.text drawingPlaces x := by
  obtain ⟨hfinite', hlt⟩ := Binary.lt_of_abs_lt (by decide +kernel) h
  have hbound : (1e12 : Double).toRat = 10 ^ 12 := by decide +kernel
  rw [hbound] at hlt
  refine text_rewritten (by decide) hfinite hfinite' ?_
  calc |(rewritten drawingPlaces x).toRat| * 10 ^ drawingPlaces ≤ 10 ^ 12 * 10 ^ drawingPlaces := by
        gcongr
    _ ≤ 2 ^ 49 := by norm_num [drawingPlaces]

/-- What was written once is written as it is where it is not moved. -/
theorem Placement.placeData_eq_of_below {p : Placement Double} (hp : p.isIdentity = true)
    (hbegun : outline.Begun) (hseparated : outline.Separated)
    (hbelow : Path.Below 1e12 (outline.write drawingPlaces))
    (h : p.placeData drawingPlaces (outline.write drawingPlaces) = .ok text) :
    text = outline.write drawingPlaces := by
  obtain ⟨path, hread, hpure⟩ := bind_eq_ok_iff.mp h
  obtain rfl := pure_eq_ok_iff.mp hpure
  obtain ⟨hfinite, rfl⟩ := Path.eq_rewritten_of_read hbegun hseparated hread
  rw [Path.place, if_pos hp]
  refine Path.write_mapPoints fun e he q hq => ?_
  have hmem : e.map (Point.map (rewritten drawingPlaces)) ∈
      outline.mapPoints (Point.map (rewritten drawingPlaces)) := List.mem_map_of_mem he
  have hpoint : q.map (rewritten drawingPlaces) ∈
      (e.map (Point.map (rewritten drawingPlaces))).points := by
    rw [Element.points_map]
    exact List.mem_map_of_mem hq
  have hcoordinates := hbelow _ hread _ hmem _ hpoint
  simp only [Point.map] at hcoordinates
  obtain ⟨hx, hy⟩ := hcoordinates
  have hx' := text_rewritten_of_abs_lt (hfinite e he q hq).1 hx
  have hy' := text_rewritten_of_abs_lt (hfinite e he q hq).2 hy
  simp only [Point.write, Point.map, hx', hy']

end Paths

section Written

variable {α : Type} [Scalar α]

variable (α) in
/-- The text of an outline to which reading adds nothing. -/
def Path.IsWritten (text : String) : Prop :=
  ∃ outline : Path α, outline.Begun ∧ outline.Separated ∧ text = outline.write drawingPlaces

theorem Path.isWritten_place {path : Path α} (hbegun : path.Begun) (hseparated : path.Separated)
    (p : Placement α) : IsWritten α (path.place p drawingPlaces) := by
  rw [place_eq, placed]
  split
  · exact ⟨path, hbegun, hseparated, rfl⟩
  · exact ⟨_, hbegun.mapPoints p.apply, hseparated.mapPoints p.apply, rfl⟩

theorem Placement.isWritten_of_placeData {p : Placement α} {data text : String}
    (h : p.placeData drawingPlaces data = .ok text) : Path.IsWritten α text := by
  obtain ⟨path, hread, hpure⟩ := bind_eq_ok_iff.mp h
  obtain rfl := pure_eq_ok_iff.mp hpure
  exact Path.isWritten_place (Path.begun_of_read hread) (Path.separated_of_read hread) p

end Written

namespace Renderer

variable {α : Type} [Scalar α] {r : Renderer α} {fontSize : α}

theorem isWritten_of_leaf
    (hsource : ∀ c glyph, r.source c fontSize = .ok glyph →
      glyph.path.Begun ∧ glyph.path.Separated)
    {position : Option Position} {c : Char} {data : String}
    (h : (r.leaf fontSize position c).outcome = .ok [data]) : Path.IsWritten α data := by
  rw [leaf] at h
  split at h
  · obtain ⟨text, _, htext, -, hdata⟩ := List.forall₂_cons_left_iff.mp (placeAll_eq_ok h)
    obtain rfl := (List.cons.inj hdata).1
    exact Placement.isWritten_of_placeData htext
  · obtain ⟨glyph, hglyph, hpure⟩ := Traced.outcome_bind_eq_ok.mp h
    obtain rfl := (List.cons.inj (pure_eq_ok_iff.mp hpure)).1
    obtain ⟨hbegun, hseparated⟩ := hsource c glyph hglyph
    exact Path.isWritten_place hbegun hseparated _

theorem isWritten_of_foldlM {slots : List (Slot α)} {data text : String}
    (hdata : Path.IsWritten α data)
    (h : slots.foldlM (fun data slot => slot.placement.placeData drawingPlaces data) data =
      .ok text) : Path.IsWritten α text := by
  induction slots generalizing data with
  | nil =>
    cases h
    exact hdata
  | cons slot slots ih =>
    rw [List.foldlM_cons] at h
    obtain ⟨moved, hmoved, h⟩ := bind_eq_ok_iff.mp h
    exact ih (Placement.isWritten_of_placeData hmoved) h

/-- Everything that is drawn was written from an outline to which reading adds nothing, if this
holds of the glyphs. -/
theorem isWritten_of_tree
    (hsource : ∀ c glyph, r.source c fontSize = .ok glyph →
      glyph.path.Begun ∧ glyph.path.Separated)
    {e : Expr} {levels : Nat} {position : Option Position} {fragments : List String}
    (h : (r.tree fontSize e levels position).outcome = .ok fragments) :
    ∀ text ∈ fragments, Path.IsWritten α text := by
  intro text htext
  obtain ⟨site, -, data, hleaf, hslots⟩ := exists_site h htext
  exact isWritten_of_foldlM (isWritten_of_leaf hsource hleaf) hslots

/-- The operands of a layered operator are drawn one after the other, the first into the box. -/
theorem exists_of_tree_layered {op : Operator} (hop : op ∈ Operator.layered) {e f : Expr}
    (hlen : [e, f].length = op.arity) {levels : Nat} {position : Option Position}
    {ws : List String}
    (h : (r.tree fontSize (.ofOperands op [e, f] hlen) (levels + 1) position).outcome = .ok ws) :
    ∃ es fs placed placed', ∃ slot : Slot α,
      (r.tree fontSize e levels none).outcome = .ok es ∧
      (r.tree fontSize f levels slot.position).outcome = .ok fs ∧
      (Slot.full : Slot α).placement.placeAll es = .ok placed ∧
      slot.placement.placeAll fs = .ok placed' ∧ ws = placed ++ placed' ∧
      (op = .overlaid → slot = .full) := by
  rw [Expr.ofOperands, tree_node, Expr.ofFn_get_cast [e, f] hlen] at h
  obtain ⟨slot, hslots, hfull⟩ := Operator.slots_of_layered hop _ _ fontSize r.parts
  rw [hslots] at h
  obtain ⟨ls, hlayers, hcompose⟩ := Traced.outcome_bind_eq_ok.mp h
  rw [List.map_cons, List.map_cons, layers_cons, layers_cons] at hlayers
  obtain ⟨es, hes, hlayers⟩ := Traced.outcome_bind_eq_ok.mp hlayers
  obtain ⟨rest, hrest, hpure⟩ := Traced.outcome_bind_eq_ok.mp hlayers
  obtain rfl := pure_eq_ok_iff.mp hpure
  obtain ⟨fs, hfs, hrest⟩ := Traced.outcome_bind_eq_ok.mp hrest
  obtain ⟨rest', hnone, hpure⟩ := Traced.outcome_bind_eq_ok.mp hrest
  obtain rfl := pure_eq_ok_iff.mp hpure
  cases hnone
  obtain ⟨placed, more, hplaced, hmore, rfl⟩ := compose_cons_eq_ok hcompose
  obtain ⟨placed', more', hplaced', hmore', rfl⟩ := compose_cons_eq_ok hmore
  obtain rfl : [] = more' := Except.ok.inj hmore'
  exact ⟨es, fs, placed, placed', slot, hes, hfs, hplaced, hplaced', by rw [List.append_nil], hfull⟩

/-- The tokens of an expression under layers, the innermost of them first. -/
def layeredTokens (tokens : List Char) (layers : List (Operator × Expr)) : List Char :=
  layers.foldl (fun tokens (op, f) => op.toChar :: (tokens ++ f.tokens)) tokens

theorem tokens_pair (op : Operator) (e f : Expr) (hlen : [e, f].length = op.arity) :
    (Expr.ofOperands op [e, f] hlen).tokens = op.toChar :: (e.tokens ++ f.tokens) := by
  rw [Expr.tokens_ofOperands]
  simp

section Layers

variable {r : Renderer Double} {fontSize : Double} {es : List String}

/-- What was drawn below the bound is drawn in the box as it is. -/
theorem forall₂_full_eq {drawn placed : List String}
    (hwritten : ∀ data ∈ drawn, Path.IsWritten Double data)
    (hbelow : ∀ data ∈ drawn, Path.Below 1e12 data)
    (h : List.Forall₂ (fun data text =>
      (Slot.full : Slot Double).placement.placeData drawingPlaces data = .ok text) drawn placed) :
    placed = drawn := by
  induction h with
  | nil => rfl
  | @cons data text drawn placed htext _ ih =>
    simp only [List.mem_cons, forall_eq_or_imp] at hwritten hbelow
    obtain ⟨outline, hbegun, hseparated, rfl⟩ := hwritten.1
    rw [ih hwritten.2 hbelow.2,
      Placement.placeData_eq_of_below (by decide +kernel) hbegun hseparated hbelow.1 htext]

variable (r fontSize es) in
/-- An expression whose drawing begins with given fragments, within any number of levels. -/
def BeginsWith (w : Expr) : Prop :=
  ∀ levels ws, (r.tree fontSize w levels none).outcome = .ok ws → es <+: ws

theorem beginsWith_of_render {e : Expr} (hes : (r.render fontSize e.tokens).outcome = .ok es) :
    r.BeginsWith fontSize es e := by
  intro levels ws hws
  rw [render_tokens] at hes
  rcases le_total levels (r.maxDepth + 1) with hle | hle
  · obtain rfl : es = ws := Except.ok.inj (hes.symm.trans (tree_of_le hle hws))
    exact List.prefix_rfl
  · obtain rfl : es = ws := Except.ok.inj ((tree_of_le hle hes).symm.trans hws)
    exact List.prefix_rfl

/-- One more layer leaves the fragments at the beginning as they are. -/
theorem BeginsWith.layer {w : Expr} (hw : r.BeginsWith fontSize es w)
    (hwritten : ∀ data ∈ es, Path.IsWritten Double data)
    (hbelow : ∀ data ∈ es, Path.Below 1e12 data) {op : Operator} (hop : op ∈ Operator.layered)
    (f : Expr) (hlen : [w, f].length = op.arity) :
    r.BeginsWith fontSize es (.ofOperands op [w, f] hlen) := by
  intro levels ws hws
  cases levels with
  | zero => cases hws
  | succ levels =>
    obtain ⟨inner, fs, placed, placed', slot, hinner, -, hplaced, -, rfl, -⟩ :=
      exists_of_tree_layered hop hlen hws
    obtain ⟨rest, rfl⟩ := hw levels inner hinner
    have hfirst := List.forall₂_take es.length (placeAll_eq_ok hplaced)
    rw [List.take_left] at hfirst
    have htake : placed.take es.length = es := forall₂_full_eq hwritten hbelow hfirst
    calc es = placed.take es.length := htake.symm
      _ <+: placed := List.take_prefix _ _
      _ <+: placed ++ placed' := List.prefix_append _ _

theorem BeginsWith.exists_layered {w : Expr} (hw : r.BeginsWith fontSize es w)
    (hwritten : ∀ data ∈ es, Path.IsWritten Double data)
    (hbelow : ∀ data ∈ es, Path.Below 1e12 data) {layers : List (Operator × Expr)}
    (hlayers : ∀ layer ∈ layers, layer.1 ∈ Operator.layered) :
    ∃ w' : Expr, w'.tokens = layeredTokens w.tokens layers ∧ r.BeginsWith fontSize es w' := by
  induction layers generalizing w with
  | nil => exact ⟨w, rfl, hw⟩
  | cons layer layers ih =>
    obtain ⟨op, f⟩ := layer
    simp only [List.mem_cons, forall_eq_or_imp] at hlayers
    have hlen : [w, f].length = op.arity := (Operator.arity_of_layered hlayers.1).symm
    obtain ⟨w', htokens, hw'⟩ := ih (hw.layer hwritten hbelow hlayers.1 f hlen) hlayers.2
    exact ⟨w', htokens.trans (by rw [tokens_pair]; rfl), hw'⟩

end Layers

/-- What was drawn of an expression comes first when the expression fills the box of an operator,
digit by digit, if its coordinates are below the bound; so it does under any number of layers. Where
an operator lays two expressions on top of one another, the rest is what was drawn of the second. -/
theorem render_layered (r : Renderer Double) (fontSize : Double)
    (hsource : ∀ c glyph, r.source c fontSize = .ok glyph →
      glyph.path.Begun ∧ glyph.path.Separated)
    (e : Expr) {es : List String} (hes : (r.render fontSize e.tokens).outcome = .ok es)
    (hbelow : ∀ data ∈ es, Path.Below 1e12 data) :
    (∀ op ∈ Operator.layered, ∀ (f : Expr) (fs ws : List String),
      (r.render fontSize f.tokens).outcome = .ok fs →
      (r.render fontSize (op.toChar :: (e.tokens ++ f.tokens))).outcome = .ok ws →
      ws.take e.leaves.length = es ∧
      (op = .overlaid → (∀ data ∈ fs, Path.Below 1e12 data) → ws.drop e.leaves.length = fs)) ∧
    ∀ layers : List (Operator × Expr), (∀ layer ∈ layers, layer.1 ∈ Operator.layered) →
      ∀ ws, (r.render fontSize (layeredTokens e.tokens layers)).outcome = .ok ws →
      ws.take e.leaves.length = es := by
  have htree := hes
  rw [render_tokens] at htree
  have hwritten := isWritten_of_tree hsource htree
  have hlength : es.length = e.leaves.length := by
    have hchars : (r.sites fontSize e none).map Site.char = e.leaves := map_char_sites e none
    rw [← (forall₂_sites htree).length_eq, ← hchars, List.length_map]
  have hbegins := beginsWith_of_render hes
  have hlayered : ∀ layers : List (Operator × Expr),
      (∀ layer ∈ layers, layer.1 ∈ Operator.layered) →
      ∀ ws, (r.render fontSize (layeredTokens e.tokens layers)).outcome = .ok ws →
      ws.take e.leaves.length = es := by
    intro layers hlayers ws hws
    obtain ⟨w, htokens, hw⟩ := hbegins.exists_layered hwritten hbelow hlayers
    rw [← htokens, render_tokens] at hws
    rw [← hlength]
    exact (List.prefix_iff_eq_take.mp (hw _ _ hws)).symm
  refine ⟨fun op hop f fs ws hfs hws => ⟨?_, ?_⟩, hlayered⟩
  · exact hlayered [(op, f)] (by simpa using hop) ws hws
  · rintro rfl hbelow'
    have hlen : [e, f].length = Operator.overlaid.arity := rfl
    rw [← tokens_pair _ _ _ hlen, render_tokens] at hws
    obtain ⟨es', fs', placed, placed', slot, hes', hfs', hplaced, hplaced', rfl, hslot⟩ :=
      exists_of_tree_layered hop hlen hws
    obtain rfl := hslot rfl
    rw [render_tokens] at hfs
    obtain rfl : es = es' :=
      Except.ok.inj (htree.symm.trans (tree_of_le (Nat.le_succ _) hes'))
    obtain rfl : fs = fs' :=
      Except.ok.inj (hfs.symm.trans (tree_of_le (Nat.le_succ _) hfs'))
    obtain rfl := forall₂_full_eq (isWritten_of_tree hsource hfs) hbelow' (placeAll_eq_ok hplaced')
    have hplacedLength := (placeAll_eq_ok hplaced).length_eq
    rw [← hlength, hplacedLength, List.drop_left]

/-- Two halves of a box whose side is odd, under one layer and under two. -/
theorem render_layered_halves :
    let r : Renderer Double := { source := .drawn [('山', "M0 1L1000 500")] 880.0 1000.0 }
    let f : Expr := .leaf '山' rfl
    let e : Expr := .ofOperands .leftToRight [f, f] rfl
    let es := ["M0 11.2L5.01 6.21", "M5.01 11.2L10.01 6.21"]
    let fs := ["M0 11.2L10.01 6.21"]
    let layers := [(Operator.overlaid, f), (.fullSurround, f)]
    (∀ c glyph, r.source c 10.01 = .ok glyph → glyph.path.Begun ∧ glyph.path.Separated) ∧
      (r.render 10.01 e.tokens).outcome = .ok es ∧ (∀ data ∈ es, Path.Below 1e12 data) ∧
      (r.render 10.01 f.tokens).outcome = .ok fs ∧ (∀ data ∈ fs, Path.Below 1e12 data) ∧
      (∃ ws, (r.render 10.01 (Operator.overlaid.toChar :: (e.tokens ++ f.tokens))).outcome =
        .ok ws ∧ ws.take e.leaves.length = es ∧ ws.drop e.leaves.length = fs) ∧
      ∃ ws, (r.render 10.01 (layeredTokens e.tokens layers)).outcome = .ok ws ∧
        ws.take e.leaves.length = es := by
  intro r f e es fs layers
  have hsource : ∀ c glyph, r.source c 10.01 = .ok glyph →
      glyph.path.Begun ∧ glyph.path.Separated :=
    fun _ _ => GlyphSource.begun_separated_drawn _ _ _
  have hes : (r.render 10.01 e.tokens).outcome = .ok es := by decide +kernel
  have hbelow : ∀ data ∈ es, Path.Below 1e12 data := by decide +kernel
  have hfs : (r.render 10.01 f.tokens).outcome = .ok fs := by decide +kernel
  have hbelow' : ∀ data ∈ fs, Path.Below 1e12 data := by decide +kernel
  have hoverlay : (r.render 10.01 (Operator.overlaid.toChar :: (e.tokens ++ f.tokens))).outcome =
      .ok (es ++ fs) := by decide +kernel
  have hlayers : (r.render 10.01 (layeredTokens e.tokens layers)).outcome =
      .ok (es ++ fs ++ ["M1.75 8.88L8.26 5.64"]) := by decide +kernel
  obtain ⟨hone, hmany⟩ := render_layered r 10.01 hsource e hes hbelow
  obtain ⟨htake, hdrop⟩ := hone .overlaid (by decide) f fs _ hfs hoverlay
  exact ⟨hsource, hes, hbelow, hfs, hbelow', ⟨_, hoverlay, htake, hdrop rfl hbelow'⟩,
    _, hlayers, hmany layers (by decide) _ hlayers⟩

end Renderer

end Ideograph
