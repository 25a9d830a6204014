import Ideograph.Document.Svg
import Ideograph.Proofs.Document.Scanner

/-! # Documents are read back

A document is read as one element whose children are the fragments in their order, whatever text
they are. So no fragment ends the value that it stands in, and two drawings have one document only
if their fragments are the same.
-/

namespace Ideograph

open Number Markup

/-- The element of one fragment. -/
def pathNode (data : String) : Node :=
  .element "path" [("d", data), ("fill", "black")] []

theorem pathNode_injective : Function.Injective pathNode := by
  intro data data' h
  injection h with _ hattributes _
  injection hattributes with hdata _
  exact (Prod.mk.inj hdata).2

theorem reads_pathElement (data : String) : Reads (pathElement data) (pathNode data) :=
  reads_emptyElement (by decide) (by simp only [List.forall_mem_cons]; decide)

variable {α : Type} [Scalar α]

/-- A document is read as a square of the given side with one path for each fragment, in their
order, and the data of the paths are the fragments. Documents with different fragments differ. -/
theorem read_document (side : α) (fragments : List String) :
    read (document side fragments) =
      some (.element "svg"
        [("height", String.ofList (Scalar.text 2 side)),
          ("width", String.ofList (Scalar.text 2 side)), ("xmlns", "http://www.w3.org/2000/svg"),
          ("xmlns:xlink", "http://www.w3.org/1999/xlink")]
        (fragments.map fun data => .element "path" [("d", data), ("fill", "black")] [])) ∧
    ∀ (side' : α) (fragments' : List String),
      document side fragments = document side' fragments' → fragments = fragments' := by
  have hread : ∀ (side : α) (fragments : List String),
      let size := String.ofList (Scalar.text 2 side)
      read (document side fragments) =
        some (.element "svg"
          [("height", size), ("width", size), ("xmlns", "http://www.w3.org/2000/svg"),
            ("xmlns:xlink", "http://www.w3.org/1999/xlink")]
          (fragments.map pathNode)) := by
    intro side fragments size
    refine read_of_reads
      (reads_element (by decide) (by simp only [List.forall_mem_cons]; decide) ?_)
    rw [List.forall₂_map_left_iff, List.forall₂_map_right_iff, List.forall₂_same]
    exact fun data _ => reads_pathElement data
  refine ⟨hread side fragments, fun side' fragments' heq => ?_⟩
  have hsame := hread side fragments
  rw [heq, hread side' fragments'] at hsame
  injection hsame with hroot
  injection hroot with _ _ hchildren
  exact (pathNode_injective.list_map hchildren).symm

end Ideograph
