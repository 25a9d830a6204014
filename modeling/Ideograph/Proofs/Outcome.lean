import Mathlib.Data.List.Forall2

/-! # Lists of computations that may fail

Running a computation on every element of a list succeeds with the list of the single results, or
fails as it does on one of the elements.
-/

namespace Ideograph

variable {β γ ε : Type}

@[simp] theorem ok_bind (b : β) (f : β → Except ε γ) : Except.ok b >>= f = f b := rfl

@[simp] theorem error_bind (e : ε) (f : β → Except ε γ) : Except.error e >>= f = .error e := rfl

theorem bind_eq_ok_iff {t : Except ε β} {f : β → Except ε γ} {c : γ} :
    t >>= f = .ok c ↔ ∃ b, t = .ok b ∧ f b = .ok c := by
  constructor
  · rcases t with e | b
    · nofun
    · exact fun h => ⟨b, rfl, h⟩
  · rintro ⟨b, rfl, h⟩
    exact h

theorem bind_eq_error_iff {t : Except ε β} {f : β → Except ε γ} {e : ε} :
    t >>= f = .error e ↔ t = .error e ∨ ∃ b, t = .ok b ∧ f b = .error e := by
  constructor
  · rcases t with e' | b
    · intro h
      cases h
      exact .inl rfl
    · exact fun h => .inr ⟨b, rfl, h⟩
  · rintro (rfl | ⟨b, rfl, h⟩)
    · rfl
    · exact h

theorem map_eq_ok_iff {t : Except ε β} {f : β → γ} {c : γ} :
    f <$> t = .ok c ↔ ∃ b, t = .ok b ∧ f b = c := by
  rcases t with e | b
  · simp
  · simp

theorem pure_eq_ok_iff {b c : β} : (pure b : Except ε β) = .ok c ↔ b = c :=
  ⟨fun h => by cases h; rfl, fun h => by rw [h]; rfl⟩

section MapError

variable {δ : Type} {t : Except ε β} {g : ε → δ}

@[simp] theorem mapError_eq_ok_iff {b : β} : t.mapError g = .ok b ↔ t = .ok b := by
  rcases t with e | b'
  · simp [Except.mapError]
  · simp [Except.mapError]

theorem mapError_eq_error_iff {d : δ} : t.mapError g = .error d ↔ ∃ e, t = .error e ∧ g e = d := by
  rcases t with e | b'
  · simp [Except.mapError]
  · simp [Except.mapError]

end MapError

/-- What can be decided of a result. -/
theorem exists_of_toOption_any {t : Except ε β} {p : β → Bool} (h : t.toOption.any p = true) :
    ∃ b, t = .ok b ∧ p b = true := by
  rcases t with e | b
  · simp [Except.toOption] at h
  · exact ⟨b, rfl, by simpa [Except.toOption] using h⟩

variable {f : β → Except ε γ} {xs : List β}

theorem mapM_eq_ok_iff {ys : List γ} :
    xs.mapM f = .ok ys ↔ List.Forall₂ (fun x y => f x = .ok y) xs ys := by
  induction xs generalizing ys with
  | nil => rw [List.mapM_nil, pure_eq_ok_iff, List.forall₂_nil_left_iff, eq_comm]
  | cons x xs ih =>
    simp only [List.mapM_cons, bind_eq_ok_iff, pure_eq_ok_iff, List.forall₂_cons_left_iff, ih]
    constructor
    · rintro ⟨y, hy, ys', hys, rfl⟩
      exact ⟨y, ys', hy, hys, rfl⟩
    · rintro ⟨y, ys', hy, hys, rfl⟩
      exact ⟨y, hy, ys', hys, rfl⟩

theorem mapM_map_eq {δ : Type} (g : γ → δ) (f : β → Except ε γ) (xs : List β) :
    xs.mapM (fun x => g <$> f x) = List.map g <$> xs.mapM f := by
  induction xs with
  | nil => rfl
  | cons x xs ih => simp [ih]

theorem exists_of_mem_mapM {ys : List γ} (h : xs.mapM f = .ok ys) {y : γ} (hy : y ∈ ys) :
    ∃ x ∈ xs, f x = .ok y := by
  induction xs generalizing ys with
  | nil =>
    obtain rfl := pure_eq_ok_iff.mp h
    simp at hy
  | cons x xs ih =>
    simp only [List.mapM_cons, bind_eq_ok_iff, pure_eq_ok_iff] at h
    obtain ⟨y', hy', ys', hys, rfl⟩ := h
    rcases List.mem_cons.mp hy with rfl | hy
    · exact ⟨x, List.mem_cons_self, hy'⟩
    · obtain ⟨x', hx', hout⟩ := ih hys hy
      exact ⟨x', List.mem_cons_of_mem x hx', hout⟩

theorem exists_mapM_eq_ok_iff :
    (∃ ys, xs.mapM f = .ok ys) ↔ ∀ x ∈ xs, ∃ y, f x = .ok y := by
  induction xs with
  | nil => simp [pure_eq_ok_iff]
  | cons x xs ih =>
    simp only [List.mapM_cons, bind_eq_ok_iff, pure_eq_ok_iff, List.mem_cons, forall_eq_or_imp,
      ← ih]
    constructor
    · rintro ⟨_, y, hy, ys, hys, -⟩
      exact ⟨⟨y, hy⟩, ys, hys⟩
    · rintro ⟨⟨y, hy⟩, ys, hys⟩
      exact ⟨_, y, hy, ys, hys, rfl⟩

theorem exists_of_mapM_eq_error {e : ε} (h : xs.mapM f = .error e) :
    ∃ x ∈ xs, f x = .error e := by
  induction xs with
  | nil => cases h
  | cons x xs ih =>
    rw [List.mapM_cons, bind_eq_error_iff] at h
    rcases h with hx | ⟨y, -, h⟩
    · exact ⟨x, List.mem_cons_self, hx⟩
    · rcases bind_eq_error_iff.mp h with hxs | ⟨ys, -, hpure⟩
      · obtain ⟨x', hmem, hx'⟩ := ih hxs
        exact ⟨x', List.mem_cons_of_mem x hmem, hx'⟩
      · cases hpure

end Ideograph
