import Ideograph.Path.Basic

/-! # Receiving outlines

An outline is handed over movement by movement, with one argument for each coordinate.
-/

namespace Ideograph.Font

/-- How a state takes up the movements of an outline. Control points come first, and the `x` of a
point before its `y`. -/
structure Sink (α σ : Type) where
  moveTo : α → α → σ → σ
  lineTo : α → α → σ → σ
  quadTo : α → α → α → α → σ → σ
  curveTo : α → α → α → α → α → α → σ → σ
  close : σ → σ

namespace Sink

variable {α β σ : Type}

def receive (sink : Sink α σ) (state : σ) : Element α → σ
  | .moveTo p => sink.moveTo p.x p.y state
  | .lineTo p => sink.lineTo p.x p.y state
  | .quadTo c p => sink.quadTo c.x c.y p.x p.y state
  | .curveTo c₁ c₂ p => sink.curveTo c₁.x c₁.y c₂.x c₂.y p.x p.y state
  | .close => sink.close state

def receiveAll (sink : Sink α σ) (state : σ) (path : Path α) : σ :=
  path.foldl sink.receive state

/-- Convert every coordinate before passing it on. -/
def adapt (f : β → α) (sink : Sink α σ) : Sink β σ where
  moveTo x y := sink.moveTo (f x) (f y)
  lineTo x y := sink.lineTo (f x) (f y)
  quadTo x₁ y₁ x y := sink.quadTo (f x₁) (f y₁) (f x) (f y)
  curveTo x₁ y₁ x₂ y₂ x y := sink.curveTo (f x₁) (f y₁) (f x₂) (f y₂) (f x) (f y)
  close := sink.close

/-- Collect movements in a path. -/
def collecting : Sink α (Path α) where
  moveTo x y path := path ++ [.moveTo ⟨x, y⟩]
  lineTo x y path := path ++ [.lineTo ⟨x, y⟩]
  quadTo x₁ y₁ x y path := path ++ [.quadTo ⟨x₁, y₁⟩ ⟨x, y⟩]
  curveTo x₁ y₁ x₂ y₂ x y path := path ++ [.curveTo ⟨x₁, y₁⟩ ⟨x₂, y₂⟩ ⟨x, y⟩]
  close path := path ++ [.close]

end Sink

end Ideograph.Font
