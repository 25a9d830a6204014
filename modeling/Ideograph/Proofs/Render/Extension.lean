import Ideograph.Proofs.Expr.Positions
import Ideograph.Proofs.Render.Refinement

/-! # More tokens behind a sequence

Tokens behind a sequence change nothing of what is drawn from it before it ends. They may change how
an operator is laid out whose operands the sequence cuts off, but not the positions of its slots,
and nothing is moved into slots before all operands are complete. So a drawing that does not fail
for want of tokens stays as it is, and one that does has asked for what the longer one asks first.
-/

namespace Ideograph

namespace Traced

variable {β γ δ ε : Type} {stop : RenderError → Prop} {same : β → γ → Prop}

/-- The second computation goes as the first one, or goes on where the first one stops. -/
inductive Continues (stop : RenderError → Prop) (same : β → γ → Prop) :
    Traced β → Traced γ → Prop where
  | ok (requests : List Char) {b : β} {c : γ} : same b c →
      Continues stop same ⟨requests, .ok b⟩ ⟨requests, .ok c⟩
  | error (requests : List Char) (e : RenderError) :
      Continues stop same ⟨requests, .error e⟩ ⟨requests, .error e⟩
  | stopped {requests : List Char} {e : RenderError} {t : Traced γ} : stop e →
      requests <+: t.requests → Continues stop same ⟨requests, .error e⟩ t

theorem Continues.refl (t : Traced β) : Continues stop Eq t t := by
  rcases t with ⟨requests, e | b⟩
  · exact .error requests e
  · exact .ok requests rfl

theorem requests_prefix_bind (t : Traced β) (f : β → Traced γ) :
    t.requests <+: (t >>= f).requests := by
  rcases h : t.outcome with e | b
  · simp [bind_of_error h]
  · simp [bind_of_ok h]

theorem Continues.bind {s : Traced β} {t : Traced γ} (h : Continues stop same s t)
    {same' : δ → ε → Prop} {f : β → Traced δ} {g : γ → Traced ε}
    (hnext : ∀ b c, s.outcome = .ok b → same b c → Continues stop same' (f b) (g c)) :
    Continues stop same' (s >>= f) (t >>= g) := by
  cases h with
  | @ok requests b c hsame =>
    have hfg := hnext b c rfl hsame
    rw [bind_of_ok rfl, bind_of_ok rfl]
    generalize f b = s' at hfg ⊢
    generalize g c = t' at hfg ⊢
    cases hfg with
    | ok requests' hsame' => exact .ok _ hsame'
    | error requests' e => exact .error _ e
    | stopped hstop hlog => exact .stopped hstop ((List.prefix_append_right_inj _).mpr hlog)
  | error requests e =>
    rw [bind_of_error rfl, bind_of_error rfl]
    exact .error requests e
  | stopped hstop hlog =>
    rw [bind_of_error rfl]
    exact .stopped hstop (hlog.trans (requests_prefix_bind t g))

theorem Continues.requests_prefix {s : Traced β} {t : Traced γ} (h : Continues stop same s t) :
    s.requests <+: t.requests := by
  cases h with
  | ok requests _ => exact List.prefix_rfl
  | error requests e => exact List.prefix_rfl
  | stopped _ hlog => exact hlog

theorem Continues.stopped_or_eq {s t : Traced β} (h : Continues stop Eq s t) :
    (∃ e, stop e ∧ s.outcome = .error e) ∨ t = s := by
  cases h with
  | ok requests hsame => exact .inr (by rw [hsame])
  | error requests e => exact .inr rfl
  | stopped hstop _ => exact .inl ⟨_, hstop, rfl⟩

end Traced

open Traced

namespace Renderer

open Number

variable {α : Type} {suffix : List Char} {stop : RenderError → Prop}

section Operands

variable {draw draw' : Option Position → List Char → Traced (List String × List Char)}
  {missing missing' : Nat → RenderError}

/-- Operands go on alike in slots with the same positions, and into the same slots the same is
drawn. -/
theorem operands_continues
    (hdraw : ∀ position tokens, Continues stop (fun s t => t = (s.1, s.2 ++ suffix))
      (draw position tokens) (draw' position (tokens ++ suffix)))
    (hstop : ∀ found, stop (missing found)) (found : Nat) {slots slots' : List (Slot α)}
    (hpositions : slots.map Slot.position = slots'.map Slot.position) (tokens : List Char) :
    Continues stop (fun s t => (slots = slots' → t.1 = s.1) ∧ t.2 = s.2 ++ suffix)
      (operands draw missing found slots tokens)
      (operands draw' missing' found slots' (tokens ++ suffix)) := by
  induction slots generalizing found slots' tokens with
  | nil =>
    obtain rfl : slots' = [] := by simpa using hpositions.symm
    exact .ok [] ⟨fun _ => rfl, rfl⟩
  | cons slot slots ih =>
    cases slots' with
    | nil => simp at hpositions
    | cons slot' slots' =>
      obtain ⟨hposition, hpositions⟩ := List.cons.inj hpositions
      cases tokens with
      | nil => exact .stopped (hstop found) List.nil_prefix
      | cons token rest =>
        rw [operands_cons found slot slots (by simp), operands_cons found slot' slots' (by simp),
          ← hposition]
        refine (hdraw slot.position (token :: rest)).bind ?_
        rintro ⟨fragments, rest⟩ _ - rfl
        refine (ih (found + 1) hpositions rest).bind ?_
        rintro ⟨layers, after⟩ ⟨layers', after'⟩ - ⟨hlayers, rfl⟩
        refine .ok [] ⟨fun hslots => ?_, rfl⟩
        obtain ⟨rfl, hmore⟩ := List.cons.inj hslots
        obtain rfl : layers' = layers := hlayers hmore
        rfl

end Operands

variable [Scalar α]

variable (r : Renderer α) (fontSize : α)

/-- What a drawing reports when its tokens run out. -/
def RunsOut (total : Nat) (e : RenderError) : Prop :=
  ∃ reason, e = .malformed total reason

theorem expression_continues (total total' levels : Nat) (position : Option Position)
    (tokens suffix : List Char) :
    Continues (RunsOut total) (fun s t => t = (s.1, s.2 ++ suffix))
      (r.expression total fontSize levels position tokens)
      (r.expression total' fontSize levels position (tokens ++ suffix)) := by
  induction levels generalizing position tokens with
  | zero => exact .error [] (.tooDeep r.maxDepth)
  | succ levels ih =>
    cases tokens with
    | nil => exact .stopped ⟨.empty, rfl⟩ List.nil_prefix
    | cons token rest =>
      rw [List.cons_append]
      cases hop : Operator.ofChar? token with
      | none =>
        rw [expression_leaf r total fontSize levels position hop,
          expression_leaf r total' fontSize levels position hop]
        refine (Continues.refl (r.leaf fontSize position token)).bind ?_
        rintro fragments _ - rfl
        exact .ok [] rfl
      | some op =>
        obtain rfl := Operator.toChar_of_ofChar? hop
        rw [expression_operator, expression_operator]
        have hpositions : (op.layout rest fontSize r.parts).map Slot.position =
            (op.layout (rest ++ suffix) fontSize r.parts).map Slot.position := by
          rw [op.map_position_layout, op.map_position_layout]
        refine (operands_continues ih (fun found => ⟨_, rfl⟩) 0 hpositions rest).bind ?_
        rintro ⟨layers, after⟩ ⟨layers', after'⟩ hout ⟨hlayers, rfl⟩
        -- All operands were complete, so both drawings are laid out alike.
        obtain ⟨es, hlen, rfl, -⟩ := exists_row_of_operands hout
        rw [op.length_layout] at hlen
        obtain rfl : layers' = layers := hlayers (layout_append hlen after suffix fontSize r.parts)
        refine (Continues.refl (Traced.lift (compose layers'))).bind ?_
        rintro fragments _ - rfl
        exact .ok [] rfl

/-- Tokens behind a sequence are left behind what it leaves, and change neither what is drawn nor
the errors of leaves, of path data and of nesting. Where a sequence is too short, a longer one asks
first for the same. -/
theorem decompose_append (r : Renderer α) (fontSize : α) (position : Option Position)
    (tokens suffix : List Char) :
    let short := r.decompose fontSize position tokens
    let long := r.decompose fontSize position (tokens ++ suffix)
    (∀ fragments rest, short.outcome = .ok (fragments, rest) →
      long.outcome = .ok (fragments, rest ++ suffix) ∧ long.requests = short.requests) ∧
    (∀ e, short.outcome = .error e → (∀ place reason, e ≠ .malformed place reason) →
      long.outcome = .error e ∧ long.requests = short.requests) ∧
    short.requests <+: long.requests := by
  intro short long
  have h : Continues (RunsOut tokens.length) (fun s t => t = (s.1, s.2 ++ suffix)) short long :=
    expression_continues r fontSize tokens.length (tokens ++ suffix).length (r.maxDepth + 1)
      position tokens suffix
  generalize short = s at h ⊢
  generalize long = t at h ⊢
  cases h with
  | ok requests hsame =>
    refine ⟨?_, by simp, List.prefix_rfl⟩
    rintro fragments rest h
    cases h
    exact ⟨by rw [hsame], rfl⟩
  | error requests e =>
    refine ⟨by simp, ?_, List.prefix_rfl⟩
    rintro e' h -
    exact ⟨h, rfl⟩
  | stopped hstop hlog =>
    refine ⟨by simp, ?_, hlog⟩
    rintro e' h hother
    cases h
    obtain ⟨reason, rfl⟩ := hstop
    exact absurd rfl (hother _ reason)

end Renderer

end Ideograph
