import Ideograph.Proofs.Layout.Inside
import Ideograph.Proofs.Path.Closings
import Ideograph.Proofs.Render.Readable

/-! # Drawings in exact arithmetic

In exact arithmetic a drawing of readable leaves can be read, and all that reading finds are the
rounded coordinates. So a fragment is the outline of its leaf with every point moved into one slot
after another and rounded in each. Only the leaves and the nesting can make a drawing fail.
-/

namespace Ideograph

open Number

/-- A point with both coordinates rounded to the decimals of drawings. -/
def Point.rounded (p : Point Rat) : Point Rat :=
  p.map (Scalar.roundTo drawingPlaces)

/-- A point moved into slots from the innermost one, and rounded in each. -/
def Slot.carryRounded (slots : List (Slot Rat)) (p : Point Rat) : Point Rat :=
  slots.foldl (fun p slot => (slot.placement.apply p).rounded) p

theorem drawingPlaces_le : drawingPlaces ≤ Scalar.maxPlaces := by decide

section Placement

variable {p : Placement Rat} {path : Path Rat} {data text : String}

theorem Placement.apply_rat (p : Placement Rat) (q : Point Rat) :
    p.apply q = ⟨p.scaleX * q.x + p.translateX, p.scaleY * q.y + p.translateY⟩ := by
  have hzero : (0.0 : Rat) = 0 := by norm_num
  simp [Placement.apply, hzero]

theorem Path.mapPoints_comp {α β γ : Type} (path : Path α) (f : Point α → Point β)
    (g : Point β → Point γ) : (path.mapPoints f).mapPoints g = path.mapPoints (g ∘ f) := by
  rw [mapPoints, mapPoints, List.map_map]
  refine List.map_congr_left fun e _ => ?_
  cases e <;> rfl

/-- A placement that is the identity moves no point, so nothing is special about it. -/
theorem Path.placed_rat (path : Path Rat) (p : Placement Rat) :
    path.placed p = path.mapPoints p.apply := by
  rw [placed]
  split
  · next h =>
    have hid : p.apply = id := by
      funext q
      simp only [Placement.isIdentity, Bool.and_eq_true, beq_iff_eq] at h
      obtain ⟨⟨⟨hx, hy⟩, htx⟩, hty⟩ := h
      rw [Placement.apply_rat, hx, hy, htx, hty]
      norm_num
    rw [hid, mapPoints_id]
  · rfl

/-- What was written is read back rounded. -/
theorem Path.read_write_rat (hbegun : path.Begun) (hseparated : path.Separated) :
    Path.read (path.write drawingPlaces) = .ok (path.mapPoints Point.rounded) := by
  have hread := Path.read_write_eq (f := Scalar.roundTo drawingPlaces) hbegun
    (fun e _ q _ => ⟨reread?_rat drawingPlaces_le q.x, reread?_rat drawingPlaces_le q.y⟩)
    (⟨0, 0⟩ : Point Rat)
  rw [hread, reopened_of_separated (hseparated.mapPoints _)]
  rfl

theorem Path.read_place_rat (hbegun : path.Begun) (hseparated : path.Separated) :
    Path.read (path.place p drawingPlaces) =
      .ok (path.mapPoints fun q => (p.apply q).rounded) := by
  rw [place_eq, placed_rat,
    read_write_rat (hbegun.mapPoints p.apply) (hseparated.mapPoints p.apply), mapPoints_comp]
  rfl

theorem Placement.read_placeData (h : p.placeData drawingPlaces data = .ok text)
    (hread : Path.read data = .ok path) :
    Path.read text = .ok (path.mapPoints fun q => (p.apply q).rounded) := by
  rw [placeData, hread] at h
  cases h
  exact Path.read_place_rat (Path.begun_of_read hread) (Path.separated_of_read hread)

/-- What is read after data was moved into slots is what was read before, carried through them. -/
theorem Slot.read_of_foldlM {slots : List (Slot Rat)}
    (h : slots.foldlM (fun data slot => slot.placement.placeData drawingPlaces data) data =
      .ok text) :
    (Path.read text : Except Path.Fault (Path Rat)) =
      Path.mapPoints (carryRounded slots) <$> Path.read data := by
  induction slots generalizing data with
  | nil =>
    cases h
    have hid : Path.mapPoints (carryRounded []) = id := funext Path.mapPoints_id
    rw [hid, id_map]
  | cons slot slots ih =>
    rw [List.foldlM_cons] at h
    obtain ⟨moved, hmoved, h⟩ := bind_eq_ok_iff.mp h
    obtain ⟨path, hread, -⟩ := bind_eq_ok_iff.mp hmoved
    rw [ih h, Placement.read_placeData hmoved hread, hread]
    exact congrArg Except.ok (Path.mapPoints_comp _ _ _)

end Placement

/-- The text is path data. -/
def Path.Readable (data : String) : Prop :=
  ∃ path : Path Rat, Path.read data = .ok path

theorem Placement.exists_placeAll (p : Placement Rat) {fragments : List String}
    (h : ∀ data ∈ fragments, Path.Readable data) :
    ∃ placed, p.placeAll fragments = .ok placed ∧ ∀ data ∈ placed, Path.Readable data := by
  obtain ⟨placed, hplaced⟩ : ∃ placed, p.placeAll fragments = .ok placed := by
    refine exists_mapM_eq_ok_iff.mpr fun data hdata => ?_
    obtain ⟨path, hread⟩ := h data hdata
    exact ⟨path.place p drawingPlaces, mapError_eq_ok_iff.mpr (by rw [placeData, hread]; rfl)⟩
  refine ⟨placed, hplaced, fun text htext => ?_⟩
  obtain ⟨data, hdata, hplace⟩ := exists_of_mem_mapM hplaced htext
  obtain ⟨path, hread⟩ := h data hdata
  exact ⟨_, read_placeData (mapError_eq_ok_iff.mp hplace) hread⟩

/-- Readable fragments are composed to readable fragments. -/
theorem exists_compose {layers : List (Layer Rat)}
    (h : ∀ layer ∈ layers, ∀ data ∈ layer.fragments, Path.Readable data) :
    ∃ fragments, compose layers = .ok fragments ∧ ∀ data ∈ fragments, Path.Readable data := by
  obtain ⟨placed, hplaced⟩ : ∃ placed,
      layers.mapM (fun layer => layer.slot.placement.placeAll layer.fragments) = .ok placed := by
    refine exists_mapM_eq_ok_iff.mpr fun layer hlayer => ?_
    obtain ⟨fragments, hfragments, -⟩ := layer.slot.placement.exists_placeAll (h layer hlayer)
    exact ⟨fragments, hfragments⟩
  refine ⟨placed.flatten, bind_eq_ok_iff.mpr ⟨placed, hplaced, rfl⟩, fun data hdata => ?_⟩
  obtain ⟨fragments, hfragments, hdata⟩ := List.mem_flatten.mp hdata
  obtain ⟨layer, hlayer, hplace⟩ := exists_of_mem_mapM hplaced hfragments
  obtain ⟨fragments', hplace', hreadable⟩ := layer.slot.placement.exists_placeAll (h layer hlayer)
  obtain rfl : fragments = fragments' := Except.ok.inj (hplace.symm.trans hplace')
  exact hreadable data hdata

namespace Renderer

variable {r : Renderer Rat} {fontSize : Rat}

variable (r fontSize) in
/-- The leaf of a site can be drawn. -/
def DrawsLeaf (site : Site Rat) : Prop :=
  ∃ data, (r.leaf fontSize site.position site.char).outcome = .ok [data] ∧ Path.Readable data

theorem exists_layers {es : List Expr} {slots : List (Slot Rat)} {levels : Nat}
    (h : ∀ e ∈ es, ∀ position, (∀ site ∈ r.sites fontSize e position, r.DrawsLeaf fontSize site) →
      ∃ fragments, (r.tree fontSize e levels position).outcome = .ok fragments ∧
        ∀ data ∈ fragments, Path.Readable data)
    (hsites : ∀ site ∈ rowSites (es.map (r.sites fontSize)) slots, r.DrawsLeaf fontSize site) :
    ∃ ls, (layers (es.map fun e => r.tree fontSize e levels) slots).outcome = .ok ls ∧
      ∀ layer ∈ ls, ∀ data ∈ layer.fragments, Path.Readable data := by
  induction es generalizing slots with
  | nil => exact ⟨[], rfl, by simp⟩
  | cons e es ih =>
    cases slots with
    | nil => exact ⟨[], rfl, by simp⟩
    | cons slot slots =>
      simp only [List.mem_cons, forall_eq_or_imp] at h
      rw [List.map_cons, rowSites_cons] at hsites
      simp only [List.mem_append, or_imp, forall_and, List.forall_mem_map] at hsites
      obtain ⟨fragments, hfragments, hreadable⟩ := h.1 slot.position hsites.1
      obtain ⟨ls, hls, hrest⟩ := ih h.2 hsites.2
      refine ⟨⟨fragments, slot⟩ :: ls, ?_, List.forall_mem_cons.mpr ⟨hreadable, hrest⟩⟩
      rw [List.map_cons, layers_cons]
      exact Traced.outcome_bind_eq_ok.mpr ⟨fragments, hfragments,
        Traced.outcome_bind_eq_ok.mpr ⟨ls, hls, rfl⟩⟩

/-- An expression is drawn if its leaves can be drawn and it does not nest too deep. -/
theorem exists_tree {e : Expr} {levels : Nat} {position : Option Position}
    (hheight : e.height < levels)
    (h : ∀ site ∈ r.sites fontSize e position, r.DrawsLeaf fontSize site) :
    ∃ fragments, (r.tree fontSize e levels position).outcome = .ok fragments ∧
      ∀ data ∈ fragments, Path.Readable data := by
  induction e generalizing levels position with
  | leaf c hc =>
    cases levels with
    | zero => cases hheight
    | succ levels =>
      obtain ⟨data, hdata, hreadable⟩ := h _ (List.mem_singleton.mpr rfl)
      exact ⟨[data], hdata, by simpa using hreadable⟩
  | node op operands ih =>
    cases levels with
    | zero => cases hheight
    | succ levels =>
      rw [sites_node] at h
      have hoperands : ∀ e ∈ List.ofFn operands, ∀ position,
          (∀ site ∈ r.sites fontSize e position, r.DrawsLeaf fontSize site) →
          ∃ fragments, (r.tree fontSize e levels position).outcome = .ok fragments ∧
            ∀ data ∈ fragments, Path.Readable data := by
        intro e he position hsites
        obtain ⟨i, rfl⟩ := List.mem_ofFn.mp he
        have hlt := Expr.height_operand_lt op operands i
        exact ih i (by omega) hsites
      obtain ⟨ls, hls, hreadable⟩ := exists_layers hoperands h
      obtain ⟨fragments, hfragments, hreadable⟩ := exists_compose hreadable
      refine ⟨fragments, ?_, hreadable⟩
      rw [tree_node]
      exact Traced.outcome_bind_eq_ok.mpr ⟨ls, hls, hfragments⟩

/-- Every slot around a leaf is a part of the box. -/
theorem inside_of_mem_sites {e : Expr} {position : Option Position} {site : Site Rat}
    (h : site ∈ r.sites fontSize e position) : ∀ slot ∈ site.slots, slot.Inside fontSize := by
  induction e generalizing position site with
  | leaf c hc =>
    obtain rfl := List.mem_singleton.mp h
    simp
  | node op operands ih =>
    rw [sites_node, rowSites] at h
    obtain ⟨⟨inner, slot⟩, hzip, h⟩ := List.mem_flatMap.mp h
    obtain ⟨hinner, hslot⟩ := List.of_mem_zip hzip
    obtain ⟨e, he, rfl⟩ := List.mem_map.mp hinner
    obtain ⟨i, rfl⟩ := List.mem_ofFn.mp he
    obtain ⟨site, hsite, rfl⟩ := List.mem_map.mp h
    rw [Site.within, List.forall_mem_append]
    exact ⟨ih i hsite, List.forall_mem_singleton.mpr (op.inside_of_mem_slots _ _ _ slot hslot)⟩

/-- A fragment is read as the data of its leaf, carried through the slots around it. -/
theorem DrawsSite.exists_read {site : Site Rat} {text : String}
    (h : r.DrawsSite fontSize site text) :
    ∃ data, (r.leaf fontSize site.position site.char).outcome = .ok [data] ∧
      (Path.read text : Except Path.Fault (Path Rat)) =
        Path.mapPoints (Slot.carryRounded site.slots) <$> Path.read data := by
  obtain ⟨data, hleaf, hslots⟩ := h
  exact ⟨data, hleaf, Slot.read_of_foldlM hslots⟩

end Renderer

end Ideograph
