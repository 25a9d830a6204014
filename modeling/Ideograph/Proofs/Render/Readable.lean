import Ideograph.Glyph.Sources
import Ideograph.Proofs.Path.ReadBack
import Ideograph.Proofs.Render.Refinement

/-! # Fragments that can be read

Composing reads the fragments of the operands, so it fails at one that is no path data. What it
writes itself is not read again, nor is a leaf that stands alone. So a drawing has a fragment that
cannot be read if the outline that was written last has a coordinate that is not finite.
-/

namespace Ideograph

open Number

variable {α : Type} [Scalar α]

namespace Path

/-- A path moved by a placement, as it is before it is written. -/
def placed (path : Path α) (p : Placement α) : Path α :=
  if p.isIdentity then path else path.mapPoints p.apply

theorem place_eq (path : Path α) (p : Placement α) (places : Nat) :
    path.place p places = (path.placed p).write places := by
  rw [place, placed]
  split <;> rfl

theorem Begun.placed {path : Path α} (h : path.Begun) (p : Placement α) :
    (path.placed p).Begun := by
  rw [Path.placed]
  split
  · exact h
  · exact h.mapPoints p.apply

end Path

/-- Fragments read and moved by a placement, up to the first that is not path data. -/
def Placement.outlineAll (p : Placement α) (fragments : List String) :
    Except RenderError (List (Path α)) :=
  fragments.mapM fun data => do
    let path ← (Path.read data).mapError .path
    return path.placed p

/-- The outlines of operands in their slots. -/
def composeOutlines (layers : List (Layer α)) : Except RenderError (List (Path α)) := do
  let outlines ← layers.mapM fun layer => layer.slot.placement.outlineAll layer.fragments
  return outlines.flatten

namespace Renderer

variable (r : Renderer α) (fontSize : α)

/-- The outline of one character before it is written. -/
def leafOutlines (position : Option Position) (c : Char) : Traced (List (Path α)) :=
  match position.bind (r.parts.variant? · c) with
  | some data => .lift ((Placement.scaled (fontSize / variantSide)).outlineAll [data])
  | none => do
    let glyph ← Traced.request c (r.source c fontSize)
    return [glyph.path.placed (glyph.placement fontSize)]

/-- The outlines of an expression before the last time that they are written. -/
def outlines : Expr → Nat → Option Position → Traced (List (Path α))
  | _, 0, _ => .fail (.tooDeep r.maxDepth)
  | .leaf c _, _ + 1, position => r.leafOutlines fontSize position c
  | .node op operands, levels + 1, _ => do
    let (first, second) := roots op operands
    let layers ← layers ((List.ofFn operands).map fun e => r.tree fontSize e levels)
      (op.slots first second fontSize r.parts)
    .lift (composeOutlines layers)

end Renderer

theorem placeAll_eq (p : Placement α) (fragments : List String) :
    p.placeAll fragments = List.map (Path.write drawingPlaces) <$> p.outlineAll fragments := by
  rw [Placement.placeAll, Placement.outlineAll, ← mapM_map_eq]
  congr 1
  funext data
  rw [Placement.placeData]
  rcases (Path.read data : Except Path.Fault (Path α)) with fault | path
  · rfl
  · simp [Path.place_eq, Except.mapError]

theorem compose_eq (layers : List (Layer α)) :
    compose layers = List.map (Path.write drawingPlaces) <$> composeOutlines layers := by
  simp only [compose, composeOutlines, placeAll_eq, mapM_map_eq]
  simp

namespace Renderer

variable {r : Renderer α} {fontSize : α}

theorem leaf_eq_outlines (position : Option Position) (c : Char) :
    r.leaf fontSize position c = do
      return (← r.leafOutlines fontSize position c).map (Path.write drawingPlaces) := by
  rw [leaf, leafOutlines]
  rcases position.bind (r.parts.variant? · c) with _ | data
  · simp [Path.place_eq]
  · simp [placeAll_eq, Traced.lift_map]

/-- A drawing writes the outlines of its expression. -/
theorem tree_eq_outlines (e : Expr) (levels : Nat) (position : Option Position) :
    r.tree fontSize e levels position = do
      return (← r.outlines fontSize e levels position).map (Path.write drawingPlaces) := by
  cases levels with
  | zero => rw [tree, outlines]; rfl
  | succ levels =>
    cases e with
    | leaf c hc => rw [tree, outlines, leaf_eq_outlines]
    | node op operands =>
      rw [tree_node, outlines]
      simp [compose_eq, Traced.lift_map]

theorem begun_of_outlineAll {p : Placement α} {fragments : List String} {paths : List (Path α)}
    (h : p.outlineAll fragments = .ok paths) : ∀ path ∈ paths, path.Begun := by
  intro path hpath
  obtain ⟨data, -, hdata⟩ := exists_of_mem_mapM h hpath
  obtain ⟨start, hread, hpure⟩ := bind_eq_ok_iff.mp hdata
  rw [← pure_eq_ok_iff.mp hpure]
  exact (Path.begun_of_read (mapError_eq_ok_iff.mp hread)).placed p

theorem begun_of_outlines
    (hsource : ∀ c glyph, r.source c fontSize = .ok glyph → glyph.path.Begun)
    {e : Expr} {levels : Nat} {position : Option Position} {paths : List (Path α)}
    (h : (r.outlines fontSize e levels position).outcome = .ok paths) :
    ∀ path ∈ paths, path.Begun := by
  cases levels with
  | zero =>
    rw [outlines] at h
    cases h
  | succ levels =>
    cases e with
    | leaf c hc =>
      rw [outlines, leafOutlines] at h
      split at h
      · exact begun_of_outlineAll h
      · obtain ⟨glyph, hglyph, hpure⟩ := Traced.outcome_bind_eq_ok.mp h
        obtain rfl := pure_eq_ok_iff.mp hpure
        intro path hpath
        rw [List.mem_singleton.mp hpath]
        exact (hsource c glyph hglyph).placed _
    | node op operands =>
      obtain ⟨layers, -, hcompose⟩ := Traced.outcome_bind_eq_ok.mp h
      obtain ⟨outlined, houtlined, hpure⟩ := bind_eq_ok_iff.mp hcompose
      obtain rfl := pure_eq_ok_iff.mp hpure
      intro path hpath
      obtain ⟨inner, hinner, hpath⟩ := List.mem_flatten.mp hpath
      obtain ⟨layer, -, hlayer⟩ := exists_of_mem_mapM houtlined hinner
      exact begun_of_outlineAll hlayer path hpath

/-- All fragments of a drawing can be read exactly if the outlines that they were written from last
stay finite when they are rounded. -/
theorem render_readable_iff (r : Renderer Double) (fontSize : Double)
    (hsource : ∀ c glyph, r.source c fontSize = .ok glyph → glyph.path.Begun)
    {tokens : List Char} {fragments : List String}
    (h : (r.render fontSize tokens).outcome = .ok fragments) :
    ∃ e paths, e.tokens = tokens ∧
      (r.outlines fontSize e (r.maxDepth + 1) none).outcome = .ok paths ∧
      fragments = paths.map (Path.write drawingPlaces) ∧
      ((∀ data ∈ fragments, ∃ path : Path Double, Path.read data = .ok path) ↔
        ∀ path ∈ paths, path.StaysFinite drawingPlaces) := by
  obtain ⟨e, rfl, htree⟩ := exists_tree_of_render h
  rw [tree_eq_outlines] at htree
  obtain ⟨paths, hpaths, hpure⟩ := Traced.outcome_bind_eq_ok.mp htree
  obtain rfl := pure_eq_ok_iff.mp hpure
  have hbegun := begun_of_outlines hsource hpaths
  refine ⟨e, paths, rfl, hpaths, rfl, ?_⟩
  rw [List.forall_mem_map]
  exact forall₂_congr fun path hpath =>
    Path.exists_read_write_iff_staysFinite drawingPlaces (hbegun path hpath)

theorem begun_squares (missing : List Char) (ascender unitsPerEm : α) (c : Char) (glyph : Glyph α)
    (h : GlyphSource.squares missing ascender unitsPerEm c fontSize = .ok glyph) :
    glyph.path.Begun := by
  rw [GlyphSource.squares] at h
  split at h
  · cases h
  · cases h
    intro e he
    exact ⟨_, (Option.some.inj he).symm⟩

/-- Two squares side by side can be read exactly if their outlines stay finite. -/
theorem render_readable_pair :
    let r : Renderer Double := { source := .squares [] 1000.0 1000.0 }
    let fragments := ["M0 72L36 72L36 0L0 0Z", "M36 72L72 72L72 0L36 0Z"]
    (r.render 72.0 ['⿰', '口', '口']).outcome = .ok fragments ∧
      ∃ e paths, e.tokens = ['⿰', '口', '口'] ∧
        (r.outlines 72.0 e (r.maxDepth + 1) none).outcome = .ok paths ∧
        fragments = paths.map (Path.write drawingPlaces) ∧
        ((∀ data ∈ fragments, ∃ path : Path Double, Path.read data = .ok path) ↔
          ∀ path ∈ paths, path.StaysFinite drawingPlaces) := by
  intro r fragments
  have hout : (r.render 72.0 ['⿰', '口', '口']).outcome = .ok fragments := by decide +kernel
  exact ⟨hout, render_readable_iff r 72.0 (begun_squares [] 1000.0 1000.0) hout⟩

/-- A square of a size that is not a number is drawn as text that cannot be read. -/
theorem render_unreadable :
    let r : Renderer Double := { source := .squares [] 1000.0 1000.0 }
    (∀ c glyph, r.source c .nan = .ok glyph → glyph.path.Begun) ∧
      (r.render .nan ['口']).outcome = .ok ["M0 NaNLNaN NaNLNaN NaNLNaN NaNZ"] ∧
      ¬ ∃ path : Path Double, Path.read "M0 NaNLNaN NaNLNaN NaNLNaN NaNZ" = .ok path := by
  refine ⟨begun_squares [] 1000.0 1000.0, by decide +kernel, ?_⟩
  rintro ⟨path, hpath⟩
  cases hpath

end Renderer

end Ideograph
