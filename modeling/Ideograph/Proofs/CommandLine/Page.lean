import Ideograph.Document.Page
import Ideograph.Proofs.CommandLine.Batch

/-! # Pages and batches

A page and a batch set up their own drawing of a font, and tell of errors in their own words. With
one font, one font size and the limit that none was given for, they come to the same about every
sequence.
-/

namespace Ideograph

open Number CommandLine

/-- The text that is printed or written. -/
def CommandLine.Event.text? : Event → Option String
  | printed line => some line
  | wrote _ text _ => some text
  | reported _ => none

/-- The position of an error in brackets, where it has one. -/
def RenderError.bracketed : RenderError → String
  | malformed position _ => "[" ++ toString position ++ "] "
  | _ => ""

theorem RenderError.diagnostic_eq (e : RenderError) :
    e.diagnostic = "error " ++ e.bracketed ++ e.message := by
  cases e with
  | malformed position reason =>
    have hopen : "error " ++ "[" = "error [" := rfl
    rw [diagnostic, bracketed, ← String.append_assoc, ← String.append_assoc, hopen]
  | unsupported | tooDeep | path => simp only [diagnostic, bracketed, String.append_empty]

theorem CommandLine.Given.complete_eq_draw {g : Given} {o : Options}
    (h : g.complete = .ok (.draw o)) :
    o.fontSize = g.fontSize.getD defaultFontSize ∧
      o.maxDepth = g.maxDepth.getD defaultMaxDepth := by
  unfold complete at h
  split at h
  · cases h
  · cases h
  · obtain rfl := Request.draw.inj (Except.ok.inj h)
    exact ⟨rfl, rfl⟩

namespace Page

variable {parse : Font.Parser}

/-- What a page draws with. -/
def renderer (p : Page parse) : Renderer Double :=
  { source := p.face.source }

/-- A page reports on a sequence what a batch shows in some events. -/
structure Matches (p : Page parse) (ids : String) (events : List Event) : Prop where
  /-- The batch shows the document of the report, if that is not an error. -/
  texts : events.filterMap Event.text? =
    if (p.report ids).hasError then [] else [(p.report ids).svg]
  hasError_eq_false : (p.report ids).hasError = false ↔ (p.report ids).diagnostics = ""
  of_ok : ∀ fragments, (p.renderer.render p.fontSize ids.toList).outcome = .ok fragments →
    (p.renderer.document p.fontSize ids).outcome = .ok (document p.fontSize fragments) ∧
      p.report ids = ⟨document p.fontSize fragments, "", false⟩
  of_error : ∀ e, (p.renderer.render p.fontSize ids.toList).outcome = .error e →
    p.report ids = ⟨"", "error " ++ e.bracketed ++ e.message, true⟩ ∧
      events = [.reported ("Error: " ++ ids ++ ": " ++ e.message)]

variable {p : Page parse} {ids : String}

theorem report_of_ok {fragments : List String}
    (h : (p.renderer.render p.fontSize ids.toList).outcome = .ok fragments) :
    (p.renderer.document p.fontSize ids).outcome = .ok (document p.fontSize fragments) ∧
      p.report ids = ⟨document p.fontSize fragments, "", false⟩ := by
  have hdocument : (p.renderer.document p.fontSize ids).outcome =
      .ok (document p.fontSize fragments) := by
    rw [Renderer.document, Traced.bind_of_ok h]
    rfl
  exact ⟨hdocument, congrArg Report.ofOutcome hdocument⟩

theorem report_of_error {e : RenderError}
    (h : (p.renderer.render p.fontSize ids.toList).outcome = .error e) :
    (p.renderer.document p.fontSize ids).outcome = .error e ∧
      p.report ids = ⟨"", "error " ++ e.bracketed ++ e.message, true⟩ := by
  have hdocument : (p.renderer.document p.fontSize ids).outcome = .error e := by
    rw [Renderer.document, Traced.bind_of_error h]
  refine ⟨hdocument, ?_⟩
  rw [← e.diagnostic_eq]
  exact congrArg Report.ofOutcome hdocument

/-- A batch that draws with the font and the size of a page does what the page reports. -/
theorem matches_of_handles {o : Options} {i : Nat} {events : List Event}
    (hsize : o.fontSize = p.fontSize) (hdepth : o.maxDepth = defaultMaxDepth)
    (h : o.Handles p.face i ids events) : p.Matches ids events := by
  have hdrawn : o.drawn p.face ids = (p.renderer.document p.fontSize ids).outcome := by
    rw [Options.drawn, Options.renderer, hsize, hdepth]
    rfl
  rcases hrender : (p.renderer.render p.fontSize ids.toList).outcome with e | fragments
  · obtain ⟨hdocument, hreport⟩ := report_of_error hrender
    have hevents : events = [.reported ("Error: " ++ ids ++ ": " ++ e.message)] := by
      cases h with
      | printed hsvg | saved hsvg | refused hsvg => simp [hdrawn, hdocument] at hsvg
      | failed he =>
        obtain rfl := Except.error.inj (hdocument.symm.trans (hdrawn.symm.trans he))
        rfl
    constructor
    case texts => rw [hevents, hreport]; rfl
    case hasError_eq_false => simp [hreport]
    case of_ok => simp [hrender]
    case of_error =>
      intro other hother
      obtain rfl : e = other := Except.error.inj (hrender.symm.trans hother)
      exact ⟨hreport, hevents⟩
  · obtain ⟨hdocument, hreport⟩ := report_of_ok hrender
    have htexts : events.filterMap Event.text? = [document p.fontSize fragments] := by
      cases h with
      | printed hsvg | saved hsvg | refused hsvg =>
        obtain rfl := Except.ok.inj (hdocument.symm.trans (hdrawn.symm.trans hsvg))
        rfl
      | failed he => simp [hdrawn, hdocument] at he
    constructor
    case texts => rw [htexts, hreport]; rfl
    case hasError_eq_false => simp [hreport]
    case of_ok =>
      intro others hothers
      obtain rfl : fragments = others := Except.ok.inj (hrender.symm.trans hothers)
      exact ⟨hdocument, hreport⟩
    case of_error => simp [hrender]

variable {σ : Type}

theorem face_of_create {bytes : ByteArray} {fontSize : Option Double} {color : Option String}
    (h : create parse bytes fontSize color = .ok p) :
    Font.Face.read parse bytes = .ok p.face ∧ p.fontSize = fontSize.getD defaultFontSize := by
  unfold create at h
  rcases hface : Font.Face.read parse bytes with e | face
  · rw [hface] at h
    cases h
  · rw [hface] at h
    obtain rfl := Except.ok.inj h
    exact ⟨rfl, rfl⟩

/-- A page and a batch with one font agree on each sequence, whatever the colours and the other
sequences are. -/
theorem matches_of_run (d : Disk σ) (s : Session σ) {g : Given} {o : Options} {bytes : ByteArray}
    {color : Option String} (hgiven : g.complete = .ok (.draw o)) (hdepth : g.maxDepth = none)
    (hbytes : d.read s.files o.font = .ok bytes)
    (hpage : create parse bytes g.fontSize color = .ok p) :
    (∃ status after blocks, (o.run parse d.host).run s = (status, after) ∧
      after.events = s.events ++ blocks.flatten ∧ List.Forall₂ p.Matches o.sequences blocks) ∧
    ∀ other page, create parse bytes g.fontSize other = .ok page → page.report = p.report := by
  obtain ⟨hread, hpageSize⟩ := face_of_create hpage
  obtain ⟨hsize, hlimit⟩ := g.complete_eq_draw hgiven
  constructor
  · have hface : o.face? parse d s.files = some p.face := by
      simp [Options.face?, hbytes, hread, Except.toOption]
    obtain ⟨blocks, done, files, hhandles, -, -, hrun⟩ := o.run_of_face d s hface
    refine ⟨_, _, blocks, hrun, rfl, ?_⟩
    rw [← List.zipIdx_map_fst 1 o.sequences, List.forall₂_map_left_iff]
    refine hhandles.imp fun arg events h => matches_of_handles (hsize.trans hpageSize.symm) ?_ h
    rw [hlimit, hdepth, Option.getD_none]
  · intro other page hother
    obtain ⟨hotherRead, hotherSize⟩ := face_of_create hother
    have hface : page.face = p.face := Except.ok.inj (hotherRead.symm.trans hread)
    funext ids
    rw [report, report, hface, hotherSize, hpageSize]

/-- Two colours, and three sequences of which the second is cut off. -/
theorem matches_of_run_red :
    let g : Given := {
      font := some "font.ttf", color := some "red", sequences := ["口", "⿰口", "口"] }
    let m : Memory := {
      workingFolder := [], folders := [], files := [(["font.ttf"], blankFont)]
      output := "", reports := "" }
    ∃ p o status after blocks,
      create Font.Plain.parse blankFont none (some "blue") = .ok p ∧ g.complete = .ok (.draw o) ∧
      (o.run Font.Plain.parse Memory.disk.host).run ⟨m, []⟩ = (status, after) ∧
      after.events = blocks.flatten ∧ List.Forall₂ p.Matches o.sequences blocks ∧
      o.sequences.map (fun ids => (p.report ids).hasError) = [false, true, false] := by
  have herrors : (create Font.Plain.parse blankFont none (some "blue")).toOption.map (fun p =>
      ["口", "⿰口", "口"].map fun ids => (p.report ids).hasError) = some [false, true, false] := by
    decide +kernel
  intro g m
  rcases hpage : create Font.Plain.parse blankFont none (some "blue") with e | p
  · simp [hpage, Except.toOption] at herrors
  rw [hpage] at herrors
  have hbytes : Memory.disk.read m "font.ttf" = .ok blankFont := rfl
  obtain ⟨⟨status, after, blocks, hrun, hevents, hmatches⟩, -⟩ :=
    matches_of_run Memory.disk ⟨m, []⟩ (g := g) rfl rfl hbytes hpage
  exact ⟨p, _, status, after, blocks, rfl, rfl, hrun, hevents, hmatches, Option.some.inj herrors⟩

end Page

end Ideograph
