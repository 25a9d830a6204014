import Ideograph.Proofs.Render.Exact

/-! # How far a drawing drifts

A leaf is rounded when it is drawn, and again in every slot around it. No slot enlarges what is
moved into it, so no rounding is magnified by those that follow, and they add up to half a unit of
the last place each. What is drawn keeps the movements of the outline.
-/

namespace Ideograph

open Number

namespace Expr

/-- The number of operators around each leaf, from left to right. -/
def depths : Expr → List Nat
  | leaf _ _ => [0]
  | node _ operands => ((List.ofFn fun i => (operands i).depths).flatten).map (· + 1)

theorem depths_node (op : Operator) (operands : Fin op.arity → Expr) :
    (node op operands).depths = (List.ofFn operands).flatMap fun e => e.depths.map (· + 1) := by
  rw [depths, List.map_flatten, List.map_ofFn, List.flatMap_def, List.map_ofFn]
  rfl

end Expr

/-- A point that is off by at most `d` along each axis. -/
def Point.Near (d : Rat) (p q : Point Rat) : Prop :=
  |p.x - q.x| ≤ d ∧ |p.y - q.y| ≤ d

/-- A movement of the same kind with every point off by at most `d`. -/
def Element.Near (d : Rat) (e e' : Element Rat) : Prop :=
  e.letter = e'.letter ∧ List.Forall₂ (Point.Near d) e.points e'.points

/-- The same movements with every point off by at most `d`. -/
def Path.Near (d : Rat) (path path' : Path Rat) : Prop :=
  List.Forall₂ (Element.Near d) path path'

/-- A point moved into slots from the innermost one, and never rounded. -/
def Slot.carry (slots : List (Slot Rat)) (p : Point Rat) : Point Rat :=
  slots.foldl (fun p slot => ⟨slot.scaleX * p.x + slot.offsetX, slot.scaleY * p.y + slot.offsetY⟩) p

theorem Path.near_mapPoints {d : Rat} {f g : Point Rat → Point Rat} (h : ∀ p, (f p).Near d (g p))
    (path : Path Rat) : Path.Near d (path.mapPoints f) (path.mapPoints g) := by
  rw [Path.Near, mapPoints, mapPoints, List.forall₂_map_left_iff, List.forall₂_map_right_iff,
    List.forall₂_same]
  intro e _
  cases e <;> simp [Element.Near, Element.map, Element.letter, Element.points, h]

section Slots

variable {d side : Rat}

theorem Point.rounded_near (p : Point Rat) : p.rounded.Near 0.005 p := by
  have hunit : (1 : Rat) / 2 / 10 ^ drawingPlaces = 0.005 := by norm_num [drawingPlaces]
  exact ⟨hunit ▸ abs_roundTo_sub_le drawingPlaces_le p.x,
    hunit ▸ abs_roundTo_sub_le drawingPlaces_le p.y⟩

/-- Moved into a part of the side and rounded, a coordinate is off by what it was off before and
half a unit of the last place. -/
theorem Stretch.abs_roundTo_sub_le {offset extent x y : Rat} (h : Stretch side offset extent)
    (hxy : |x - y| ≤ d) :
    |Scalar.roundTo drawingPlaces (extent * x + offset) - (extent * y + offset)| ≤ d + 0.005 := by
  obtain ⟨a, -, ha, hextent, hle⟩ := h
  have hround := (Point.rounded_near ⟨extent * x + offset, 0⟩).1
  have hscaled : |extent * (x - y)| ≤ d := by
    rw [abs_mul, abs_of_nonneg hextent]
    calc extent * |x - y| ≤ 1 * |x - y| := by gcongr; linarith
      _ ≤ d := by rwa [one_mul]
  calc |Scalar.roundTo drawingPlaces (extent * x + offset) - (extent * y + offset)|
      = |(Scalar.roundTo drawingPlaces (extent * x + offset) - (extent * x + offset)) +
          extent * (x - y)| := by ring_nf
    _ ≤ 0.005 + d := (abs_add_le _ _).trans (add_le_add hround hscaled)
    _ = d + 0.005 := add_comm _ _

/-- Every slot adds half a unit of the last place to what a point is off. -/
theorem Slot.carryRounded_near {slots : List (Slot Rat)} (h : ∀ slot ∈ slots, slot.Inside side)
    {p q : Point Rat} (hpq : p.Near d q) :
    (carryRounded slots p).Near (d + slots.length * 0.005) (carry slots q) := by
  induction slots generalizing d p q with
  | nil => simpa [carryRounded, carry] using hpq
  | cons slot slots ih =>
    simp only [List.mem_cons, forall_eq_or_imp] at h
    have hstep : (slot.placement.apply p).rounded.Near (d + 0.005)
        ⟨slot.scaleX * q.x + slot.offsetX, slot.scaleY * q.y + slot.offsetY⟩ := by
      rw [Placement.apply_rat]
      exact ⟨h.1.x.abs_roundTo_sub_le hpq.1, h.1.y.abs_roundTo_sub_le hpq.2⟩
    have hsum : d + (slot :: slots).length * 0.005 = d + 0.005 + slots.length * 0.005 := by
      push_cast [List.length_cons]
      ring
    rw [hsum]
    exact ih h.2 hstep

end Slots

theorem Glyph.placement_apply (g : Glyph Rat) (fontSize : Rat) (p : Point Rat) :
    (g.placement fontSize).apply p = ⟨p.x, g.baseline fontSize - p.y⟩ := by
  rw [Placement.apply_rat, Glyph.placement]
  norm_num
  ring

theorem Placement.scaled_apply (k : Rat) (p : Point Rat) :
    (Placement.scaled k).apply p = ⟨p.x * k, p.y * k⟩ := by
  rw [Placement.apply_rat, Placement.scaled]
  norm_num [mul_comm]

namespace Renderer

/-- The outline of one character before it is rounded: a variant at the size of the box, or a glyph
turned over onto its baseline. -/
def leafOutline (r : Renderer Rat) (fontSize : Rat) (position : Option Position) (c : Char) :
    Except RenderError (Path Rat) :=
  match position.bind (r.parts.variant? · c) with
  | some data => do
    let path ← (Path.read data).mapError .path
    return path.mapPoints fun p => ⟨p.x * (fontSize / 72), p.y * (fontSize / 72)⟩
  | none => do
    let glyph ← r.source c fontSize
    return glyph.path.mapPoints fun p => ⟨p.x, glyph.baseline fontSize - p.y⟩

variable {r : Renderer Rat} {fontSize : Rat}

theorem outcome_leaf (position : Option Position) (c : Char) :
    (r.leaf fontSize position c).outcome =
      (fun outline => [outline.write drawingPlaces]) <$> r.leafOutline fontSize position c := by
  rw [leaf, leafOutline]
  rcases position.bind (r.parts.variant? · c) with _ | data
  · dsimp only
    rcases r.source c fontSize with e | glyph
    · rfl
    · change Except.ok _ = Except.ok _
      rw [Path.place_eq, Path.placed_rat, funext (Glyph.placement_apply glyph fontSize)]
  · have hside : fontSize / variantSide = fontSize / 72 := by norm_num [variantSide]
    dsimp only
    rw [hside]
    rcases hread : (Path.read data : Except Path.Fault (Path Rat)) with fault | path
    · simp [Placement.placeAll, Placement.placeData, hread, Except.mapError]
    · simp [Placement.placeAll, Placement.placeData, hread, Except.mapError, Path.place_eq,
        Path.placed_rat, funext (Placement.scaled_apply _)]

/-- Where the glyphs begin with a move and go on with one behind every closing, so do all leaves. -/
theorem begun_separated_of_leafOutline {position : Option Position} {c : Char} {outline : Path Rat}
    (hsource : ∀ c glyph, r.source c fontSize = .ok glyph →
      glyph.path.Begun ∧ glyph.path.Separated)
    (h : r.leafOutline fontSize position c = .ok outline) : outline.Begun ∧ outline.Separated := by
  rw [leafOutline] at h
  split at h
  · obtain ⟨path, hread, hpure⟩ := bind_eq_ok_iff.mp h
    obtain rfl := pure_eq_ok_iff.mp hpure
    have hread := mapError_eq_ok_iff.mp hread
    exact ⟨(Path.begun_of_read hread).mapPoints _, (Path.separated_of_read hread).mapPoints _⟩
  · obtain ⟨glyph, hglyph, hpure⟩ := bind_eq_ok_iff.mp h
    obtain rfl := pure_eq_ok_iff.mp hpure
    obtain ⟨hbegun, hseparated⟩ := hsource c glyph hglyph
    exact ⟨hbegun.mapPoints _, hseparated.mapPoints _⟩

/-- Every leaf lies in as many slots as there are operators around it. -/
theorem map_length_sites (e : Expr) (position : Option Position) :
    (r.sites fontSize e position).map (·.slots.length) = e.depths := by
  induction e generalizing position with
  | leaf c hc => rfl
  | node op operands ih =>
    rw [sites_node, Expr.depths_node]
    have hlen : (op.slots (roots op operands).1 (roots op operands).2 fontSize r.parts).length =
        (List.ofFn operands).length := by
      rw [Operator.length_slots, List.length_ofFn]
    refine map_rowSites hlen fun e he position slot => ?_
    obtain ⟨i, rfl⟩ := List.mem_ofFn.mp he
    rw [← ih i position, List.map_map, List.map_map]
    refine List.map_congr_left fun site _ => ?_
    simp [Site.within]

variable (r fontSize) in
/-- The fragment has the movements of the outline of its leaf, and every coordinate is that of the
outline carried through the slots around the leaf, up to half a unit of the last place for the leaf
and for each of these slots. -/
def DrawsNear (site : Site Rat) (fragment : String) : Prop :=
  ∃ outline path, r.leafOutline fontSize site.position site.char = .ok outline ∧
    Path.read fragment = .ok path ∧
    Path.Near ((site.slots.length + 1) * 0.005) path (outline.mapPoints (Slot.carry site.slots))

theorem DrawsSite.drawsNear {site : Site Rat} {fragment : String}
    (h : r.DrawsSite fontSize site fragment)
    (hsource : ∀ c glyph, r.source c fontSize = .ok glyph →
      glyph.path.Begun ∧ glyph.path.Separated)
    (hslots : ∀ slot ∈ site.slots, slot.Inside fontSize) : r.DrawsNear fontSize site fragment := by
  obtain ⟨data, hleaf, hread⟩ := h.exists_read
  rw [outcome_leaf] at hleaf
  obtain ⟨outline, houtline, hdata⟩ := map_eq_ok_iff.mp hleaf
  obtain rfl := (List.cons.inj hdata).1
  obtain ⟨hbegun, hseparated⟩ := begun_separated_of_leafOutline hsource houtline
  refine ⟨outline, outline.mapPoints (Slot.carryRounded site.slots ∘ Point.rounded), houtline, ?_,
    Path.near_mapPoints (fun p => ?_) outline⟩
  · rw [hread, Path.read_write_rat hbegun hseparated]
    exact congrArg Except.ok (Path.mapPoints_comp _ _ _)
  · have hnear := Slot.carryRounded_near hslots (Point.rounded_near p)
    rwa [add_comm, ← add_one_mul] at hnear

/-- A fragment of a drawing differs from the outline of its leaf, carried exactly through the
operators around the leaf, by at most half a unit of the last place for the leaf and for each of
these operators; the movements are the same. An expression within the limit whose leaves have
outlines is drawn. -/
theorem render_drawsNear (r : Renderer Rat) (fontSize : Rat)
    (hsource : ∀ c glyph, r.source c fontSize = .ok glyph →
      glyph.path.Begun ∧ glyph.path.Separated) (e : Expr) :
    (r.sites fontSize e none).map Site.char = e.leaves ∧
    (r.sites fontSize e none).map (·.slots.length) = e.depths ∧
    (∀ fragments, (r.render fontSize e.tokens).outcome = .ok fragments →
      List.Forall₂ (r.DrawsNear fontSize) (r.sites fontSize e none) fragments) ∧
    (e.height ≤ r.maxDepth →
      (∀ site ∈ r.sites fontSize e none, ∃ outline,
        r.leafOutline fontSize site.position site.char = .ok outline) →
      ∃ fragments, (r.render fontSize e.tokens).outcome = .ok fragments) := by
  rw [render_tokens]
  refine ⟨map_char_sites e none, map_length_sites e none, fun fragments hout => ?_,
    fun hheight houtlines => ?_⟩
  · have hinside : ∀ site ∈ r.sites fontSize e none, ∀ slot ∈ site.slots, slot.Inside fontSize :=
      fun _ => inside_of_mem_sites
    exact ((List.forall₂_and_left _ _).mpr ⟨hinside, forall₂_sites hout⟩).imp
      fun _ _ ⟨hslots, hsite⟩ => hsite.drawsNear hsource hslots
  · have hdraws : ∀ site ∈ r.sites fontSize e none, r.DrawsLeaf fontSize site := by
      intro site hsite
      obtain ⟨outline, houtline⟩ := houtlines site hsite
      obtain ⟨hbegun, hseparated⟩ := begun_separated_of_leafOutline hsource houtline
      exact ⟨_, by rw [outcome_leaf, houtline]; rfl, _, Path.read_write_rat hbegun hseparated⟩
    obtain ⟨fragments, hout, -⟩ := exists_tree (Nat.lt_succ_of_le hheight) hdraws
    exact ⟨fragments, hout⟩

/-- A curved glyph and two copies in its corner, which are rounded once more on the way out. -/
theorem render_drawsNear_corner :
    let r : Renderer Rat := { source := .drawn [('山', "M0 1L1000 0Q500 999 1 500Z")] 880.0 1000.0 }
    let glyph : Expr := .leaf '山' rfl
    let e : Expr := .ofOperands .surroundFromUpperLeft
      [glyph, .ofOperands .surroundFromUpperLeft [glyph, glyph] rfl] rfl
    let fragments :=
      ["M0 11.19L10 11.2Q5 1.21 0.01 6.2Z", "M3.33 10.61L9.83 10.61Q6.58 4.12 3.34 7.36Z",
        "M5.5 10.23L9.72 10.23Q7.61 6.01 5.5 8.12Z"]
    (∀ c glyph, r.source c 10 = .ok glyph → glyph.path.Begun ∧ glyph.path.Separated) ∧
      (r.render 10 e.tokens).outcome = .ok fragments ∧
      (r.sites 10 e none).map (·.slots.length) = [1, 2, 2] ∧
      List.Forall₂ (r.DrawsNear 10) (r.sites 10 e none) fragments := by
  intro r glyph e fragments
  have hsource : ∀ c glyph, r.source c 10 = .ok glyph → glyph.path.Begun ∧ glyph.path.Separated :=
    fun _ _ => GlyphSource.begun_separated_drawn _ _ _
  have hout : (r.render 10 e.tokens).outcome = .ok fragments := by decide +kernel
  obtain ⟨-, hdepths, hnear, -⟩ := render_drawsNear r 10 hsource e
  exact ⟨hsource, hout, hdepths.trans (by decide +kernel), hnear fragments hout⟩

end Renderer

end Ideograph
