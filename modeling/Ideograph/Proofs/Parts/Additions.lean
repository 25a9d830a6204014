import Mathlib.Data.List.Perm.Basic
import Ideograph.Parts.Builtin

/-! # Parts added one after another

What is known of parts is built up by additions in any number and order. Each one touches only what
it is about: classes only grow, and of the variants of a part in a position the last one counts.
-/

namespace Ideograph.Parts

/-- One addition to what is known of parts. -/
inductive Addition where
  | small (c : Char)
  | unshrink (c : Char)
  | variant (position : Position) (c : Char) (data : String)
  deriving DecidableEq, Repr

/-- The path data that is set for a part in a position. -/
def Addition.data? (position : Position) (c : Char) : Addition → Option String
  | .variant position' c' data => if (position', c') = (position, c) then some data else none
  | _ => none

def add (parts : Parts) : Addition → Parts
  | .small c => parts.withSmall c
  | .unshrink c => parts.withUnshrink c
  | .variant position c data => parts.withVariant position c data

def addAll (parts : Parts) (additions : List Addition) : Parts :=
  additions.foldl add parts

/-- Parts that keep their slot are small. -/
def Consistent (parts : Parts) : Prop :=
  ∀ c, parts.isUnshrink c → parts.isSmall c

/-- All that can be looked up is the same. -/
structure SameLookups (parts parts' : Parts) : Prop where
  isSmall : ∀ c, parts.isSmall c = parts'.isSmall c
  isUnshrink : ∀ c, parts.isUnshrink c = parts'.isUnshrink c
  variant? : ∀ position c, parts.variant? position c = parts'.variant? position c

variable {parts : Parts} {additions : List Addition} {c : Char}

theorem isSmall_add {a : Addition} :
    (parts.add a).isSmall c ↔ parts.isSmall c ∨ .small c = a ∨ .unshrink c = a := by
  cases a with
  | small d => simp [add, isSmall_withSmall, or_comm]
  | unshrink d => simp [add, isSmall_withUnshrink, or_comm]
  | variant position d data => simp [add, isSmall, withVariant]

theorem isUnshrink_add {a : Addition} :
    (parts.add a).isUnshrink c ↔ parts.isUnshrink c ∨ .unshrink c = a := by
  cases a with
  | small d => simp [add, isUnshrink, withSmall]
  | unshrink d => simp [add, isUnshrink_withUnshrink, or_comm]
  | variant position d data => simp [add, isUnshrink, withVariant]

theorem variant?_add {a : Addition} (position : Position) :
    (parts.add a).variant? position c = (a.data? position c).or (parts.variant? position c) := by
  cases a with
  | small d => rfl
  | unshrink d => rfl
  | variant position' d data =>
    rw [add, variant?_withVariant, Addition.data?]
    simp only [eq_comm (a := (position, c))]
    split <;> rfl

theorem isSmall_addAll : (parts.addAll additions).isSmall c ↔
    parts.isSmall c ∨ .small c ∈ additions ∨ .unshrink c ∈ additions := by
  induction additions generalizing parts with
  | nil => simp [addAll]
  | cons a additions ih =>
    rw [addAll, List.foldl_cons, ← addAll, ih, isSmall_add, List.mem_cons, List.mem_cons]
    tauto

theorem isUnshrink_addAll : (parts.addAll additions).isUnshrink c ↔
    parts.isUnshrink c ∨ .unshrink c ∈ additions := by
  induction additions generalizing parts with
  | nil => simp [addAll]
  | cons a additions ih =>
    rw [addAll, List.foldl_cons, ← addAll, ih, isUnshrink_add, List.mem_cons, or_assoc]

/-- The last path data that is set counts, and the data that was there where none is set. -/
theorem variant?_addAll (position : Position) :
    (parts.addAll additions).variant? position c =
      (additions.filterMap (Addition.data? position c)).getLast?.or
        (parts.variant? position c) := by
  induction additions generalizing parts with
  | nil => rfl
  | cons a additions ih =>
    rw [addAll, List.foldl_cons, ← addAll, ih, variant?_add]
    cases hdata : a.data? position c with
    | none => simp [hdata]
    | some data =>
      rw [List.filterMap_cons_some hdata, List.getLast?_cons]
      cases (additions.filterMap (Addition.data? position c)).getLast? <;> rfl

theorem Consistent.addAll (h : parts.Consistent) : (parts.addAll additions).Consistent := by
  intro c hc
  rw [isUnshrink_addAll] at hc
  rw [isSmall_addAll]
  exact hc.imp (h c) .inr

theorem consistent_empty : empty.Consistent := nofun

theorem consistent_builtin : builtin.Consistent := by
  have hall : unshrinkParts.all smallParts.contains = true := by decide +kernel
  intro c hc
  exact List.all_eq_true.mp hall c (List.contains_iff_mem.mp hc)

theorem getLast?_or_eq_iff {β : Type} {l l' : List β} (h : l'.Perm l) (b : Option β) :
    l'.getLast?.or b = l.getLast?.or b ↔ l'.getLast? = l.getLast? := by
  by_cases hnil : l = []
  · subst hnil
    rw [h.eq_nil]
    simp
  · have hnil' : l' ≠ [] := fun hl' => hnil (hl' ▸ h).symm.eq_nil
    rw [List.getLast?_eq_some_getLast hnil, List.getLast?_eq_some_getLast hnil', Option.some_or,
      Option.some_or]

/-- In another order additions make other parts only where other path data comes last. -/
theorem sameLookups_iff_of_perm {additions' : List Addition} (h : additions'.Perm additions) :
    (parts.addAll additions').SameLookups (parts.addAll additions) ↔
      ∀ position c, (additions'.filterMap (Addition.data? position c)).getLast? =
        (additions.filterMap (Addition.data? position c)).getLast? := by
  have hvariant : ∀ position c,
      (parts.addAll additions').variant? position c = (parts.addAll additions).variant? position c ↔
        (additions'.filterMap (Addition.data? position c)).getLast? =
          (additions.filterMap (Addition.data? position c)).getLast? := by
    intro position c
    rw [variant?_addAll, variant?_addAll]
    exact getLast?_or_eq_iff (h.filterMap _) _
  refine ⟨fun hsame position c => (hvariant position c).mp (hsame.variant? position c),
    fun hlast => ⟨fun c => ?_, fun c => ?_, fun position c => ?_⟩⟩
  · rw [Bool.eq_iff_iff, isSmall_addAll, isSmall_addAll, h.mem_iff, h.mem_iff]
  · rw [Bool.eq_iff_iff, isUnshrink_addAll, isUnshrink_addAll, h.mem_iff]
  · exact (hvariant position c).mpr (hlast position c)

/-- Whatever is added to no parts or to the built-in ones, parts that keep their slot stay small. A
part belongs to a class if it did before or was added to it, or is small since it was added to those
that keep their slot. The variant of a part in a position is the last one that was set for exactly
these, or else the one that was there before. So the order of additions only matters for variants
of one part in one position, and there only for the last of them. -/
theorem addAll_lookups {base : Parts} (hbase : base = empty ∨ base = builtin)
    (additions : List Addition) :
    let parts := base.addAll additions
    (∀ c, parts.isUnshrink c → parts.isSmall c) ∧
    (∀ c, parts.isSmall c ↔ base.isSmall c ∨ .small c ∈ additions ∨ .unshrink c ∈ additions) ∧
    (∀ c, parts.isUnshrink c ↔ base.isUnshrink c ∨ .unshrink c ∈ additions) ∧
    (∀ position c, parts.variant? position c =
      (additions.filterMap (Addition.data? position c)).getLast?.or
        (base.variant? position c)) ∧
    ∀ additions' : List Addition, additions'.Perm additions →
      ((∀ position c, additions'.filterMap (Addition.data? position c) =
          additions.filterMap (Addition.data? position c)) →
        (base.addAll additions').SameLookups parts) ∧
      ((base.addAll additions').SameLookups parts ↔
        ∀ position c, (additions'.filterMap (Addition.data? position c)).getLast? =
          (additions.filterMap (Addition.data? position c)).getLast?) := by
  intro parts
  have hconsistent : base.Consistent := by
    rcases hbase with rfl | rfl
    · exact consistent_empty
    · exact consistent_builtin
  refine ⟨hconsistent.addAll, fun c => isSmall_addAll, fun c => isUnshrink_addAll,
    fun position c => variant?_addAll position, fun additions' hperm => ?_⟩
  refine ⟨fun hdata => (sameLookups_iff_of_perm hperm).mpr fun position c => ?_,
    sameLookups_iff_of_perm hperm⟩
  rw [hdata]

/-- A variant of 光 is replaced twice, and a part is added to both classes. Additions in between
that are about other things may be made first. -/
theorem addAll_lookups_replaced :
    let additions : List Addition :=
      [.variant .left '光' "M0 0", .unshrink '丁', .small '军', .variant .left '光' "M1 1"]
    let additions' : List Addition :=
      [.small '军', .variant .left '光' "M0 0", .variant .left '光' "M1 1", .unshrink '丁']
    let parts := builtin.addAll additions
    additions'.Perm additions ∧ (builtin.addAll additions').SameLookups parts ∧
      parts.isUnshrink '丁' ∧ parts.isSmall '丁' ∧ parts.isSmall '军' ∧ parts.isSmall '木' ∧
      parts.variant? .left '光' = some "M1 1" ∧ parts.variant? .right '光' = none ∧
      parts.variant? .up '雨' = some rainOnTop := by
  intro additions additions' parts
  obtain ⟨hconsistent, hsmall, hunshrink, hvariant, hperm⟩ :=
    addAll_lookups (.inr rfl : builtin = empty ∨ builtin = builtin) additions
  have hreordered : additions'.Perm additions := by decide
  have hkept : parts.isUnshrink '丁' := (hunshrink '丁').mpr (.inr (by decide))
  refine ⟨hreordered, ?_, hkept, hconsistent '丁' hkept, (hsmall '军').mpr (.inr (by decide)),
    (hsmall '木').mpr (.inl (by decide)), hvariant .left '光', hvariant .right '光',
    hvariant .up '雨'⟩
  refine (hperm additions' hreordered).1 fun position c => ?_
  simp only [additions, additions', List.filterMap_cons, Addition.data?]

end Ideograph.Parts
