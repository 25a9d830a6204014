import Mathlib.Data.List.Forall2
import Mathlib.Data.String.Basic
import Ideograph.Font.Plain
import Ideograph.Proofs.CommandLine.Memory

/-! # Batches go on after failures

Every sequence of a batch is taken in turn. What is done about one depends on nothing but its own
drawing, the options and its number, and only its own write can fail it. The numbered documents have
different names, so a document is never written over by a later one and other files stay.
-/

namespace Ideograph.CommandLine

open Number

/-! ## Names -/

theorem documentName_injOn {count i j : Nat} (hi : 1 ≤ i) (hin : i ≤ count) (hj : 1 ≤ j)
    (hjn : j ≤ count) (h : documentName count i = documentName count j) : i = j := by
  by_cases hone : count = 1
  · omega
  · rw [documentName, documentName, if_neg hone, if_neg hone] at h
    have htext := congrArg String.toList h
    simp only [String.toList_append, List.append_assoc, List.append_cancel_left_eq,
      List.append_cancel_right_eq] at htext
    have hvalue := congrArg (fun digits => Nat.ofDigitChars 10 digits 0) htext
    simpa [Nat.toString_eq_ofList_toDigits] using hvalue

/-- A document is a file in the folder itself. -/
theorem isFileName_documentName (count i : Nat) : IsFileName (documentName count i) := by
  have hslash : '/' ∉ (toString i).toList := by
    rw [Nat.toString_eq_ofList_toDigits, String.toList_ofList]
    intro hmem
    have hdigit := Nat.isDigit_of_mem_toDigits (b := 10) (by decide) (by decide) hmem
    exact absurd hdigit (by decide)
  have hhead : (documentName count i).toList.head? = some 'o' := by
    unfold documentName
    split
    · rfl
    · simp
  refine ⟨?_, ?_, ?_, ?_⟩
  · unfold documentName
    split
    · decide
    · simpa using hslash
  all_goals
    intro h
    rw [h] at hhead
    exact absurd hhead (by decide)

theorem filePath_injective (folder : String) : Function.Injective (filePath folder) := by
  intro name other h
  unfold filePath at h
  split at h
  · exact (String.append_right_inj _).mp h
  · exact (String.append_right_inj _).mp h

variable {parse : Font.Parser}

namespace Options

/-- The font of a batch, if it can be read and is accepted. -/
def face? {σ : Type} (parse : Font.Parser) (o : Options) (d : Disk σ) (files : σ) :
    Option (Font.Face parse) :=
  match d.read files o.font with
  | .ok bytes => (Font.Face.read parse bytes).toOption
  | .error _ => none

/-- A sequence as it is drawn for a document. -/
def drawn (o : Options) (face : Font.Face parse) (ids : String) : Except RenderError String :=
  ((o.renderer face).document o.fontSize ids).outcome

/-- The documents of the sequences that can be drawn. -/
def documents (o : Options) (face : Font.Face parse) : List String :=
  o.sequences.filterMap fun ids => (o.drawn face ids).toOption

/-- What is done about the sequence with a number. -/
inductive Handles (o : Options) (face : Font.Face parse) (i : Nat) (ids : String) :
    List Event → Prop where
  | printed {svg : String} : o.drawn face ids = .ok svg → o.output = none →
      Handles o face i ids [.printed svg]
  | saved {svg folder path : String} : o.drawn face ids = .ok svg → o.output = some folder →
      path = filePath folder (documentName o.sequences.length i) →
      Handles o face i ids [.wrote path svg (.ok ()), .reported ("Wrote " ++ path)]
  | refused {svg folder path : String} {fault : FileFault} : o.drawn face ids = .ok svg →
      o.output = some folder → path = filePath folder (documentName o.sequences.length i) →
      Handles o face i ids [.wrote path svg (.error fault),
        .reported ("Error writing " ++ path ++ ": " ++ fault.message)]
  | failed {e : RenderError} : o.drawn face ids = .error e →
      Handles o face i ids [.reported ("Error: " ++ ids ++ ": " ++ e.message)]

end Options

/-- Every write among the events succeeded. -/
def AllWritten (events : List Event) : Prop :=
  ∀ path text outcome, .wrote path text outcome ∈ events → outcome = .ok ()

theorem allWritten_append {events more : List Event} :
    AllWritten (events ++ more) ↔ AllWritten events ∧ AllWritten more := by
  simp only [AllWritten, List.mem_append]
  grind

variable {σ : Type} {d : Disk σ} {o : Options} {face : Font.Face parse}

/-! ## One sequence -/

/-- One sequence is handled whatever has happened before. -/
theorem perform_task (d : Disk σ) (o : Options) (face : Font.Face parse) (i : Nat) (ids : String)
    (s : Session σ) :
    ∃ events done files, o.Handles face i ids events ∧
      (done = true ↔ (∃ svg, o.drawn face ids = .ok svg) ∧ AllWritten events) ∧
      d.Leads s.files events files ∧
      ((o.task (o.renderer face) o.sequences.length i ids).perform d.host).run s =
        pure (done, ⟨files, s.events ++ events⟩) := by
  rcases hdrawn : o.drawn face ids with e | svg
  · refine ⟨_, false, s.files, .failed hdrawn, by simp, .reported _ (.nil _), ?_⟩
    unfold Options.drawn at hdrawn
    simp only [Options.task, hdrawn]
    rfl
  rcases hout : o.output with _ | folder
  · refine ⟨_, true, s.files, .printed hdrawn hout, by simp [AllWritten], .printed _ (.nil _), ?_⟩
    unfold Options.drawn at hdrawn
    simp only [Options.task, hdrawn, hout]
    rfl
  generalize hpath : filePath folder (documentName o.sequences.length i) = path
  have htask : o.task (o.renderer face) o.sequences.length i ids = .save path svg := by
    unfold Options.drawn at hdrawn
    simp only [Options.task, hdrawn, hout, hpath]
  have hwrote : d.Leads s.files [.wrote path svg (d.write path svg s.files).1]
      (d.write path svg s.files).2 := .wrote path svg (.nil _)
  rcases hwrite : d.write path svg s.files with ⟨fault | ⟨⟩, files⟩
  · rw [hwrite] at hwrote
    refine ⟨_, false, files, .refused hdrawn hout hpath.symm, by simp [AllWritten],
      leads_append.mpr ⟨_, hwrote, .reported _ (.nil _)⟩, ?_⟩
    rw [List.append_cons, htask, Task.perform, StateT.run_bind, Disk.run_writeFile, hwrite,
      pure_bind]
    rfl
  · rw [hwrite] at hwrote
    refine ⟨_, true, files, .saved hdrawn hout hpath.symm, by simp [AllWritten],
      leads_append.mpr ⟨_, hwrote, .reported _ (.nil _)⟩, ?_⟩
    rw [List.append_cons, htask, Task.perform, StateT.run_bind, Disk.run_writeFile, hwrite,
      pure_bind]
    rfl

/-! ## A run over all sequences -/

theorem tasks_eq (o : Options) (r : Renderer Double) :
    o.tasks r = (o.sequences.zipIdx 1).map fun arg =>
      o.task r o.sequences.length arg.2 arg.1 := by
  rw [Options.tasks, List.mapIdx_eq_zipIdx_map, List.zipIdx_succ, List.map_map]
  rfl

/-- Events in blocks, one for each of some numbered sequences. -/
abbrev Options.HandlesAll (o : Options) (face : Font.Face parse) (args : List (String × Nat))
    (blocks : List (List Event)) : Prop :=
  List.Forall₂ (fun arg => o.Handles face arg.2 arg.1) args blocks

/-- The sequences are handled one after another, and the result tells whether all went well. -/
theorem performAll_tasks (d : Disk σ) (o : Options) (face : Font.Face parse)
    (args : List (String × Nat)) (s : Session σ) :
    ∃ blocks done files, o.HandlesAll face args blocks ∧
      (done = true ↔
        (∀ arg ∈ args, ∃ svg, o.drawn face arg.1 = .ok svg) ∧ AllWritten blocks.flatten) ∧
      d.Leads s.files blocks.flatten files ∧
      (performAll d.host (args.map fun arg =>
          o.task (o.renderer face) o.sequences.length arg.2 arg.1)).run s =
        pure (done, ⟨files, s.events ++ blocks.flatten⟩) := by
  induction args generalizing s with
  | nil =>
    refine ⟨[], true, s.files, .nil, by simp [AllWritten], .nil _, ?_⟩
    rw [List.flatten_nil, List.append_nil]
    rfl
  | cons arg args ih =>
    obtain ⟨events, done, files, hhandles, hdone, hleads, hrun⟩ :=
      perform_task d o face arg.2 arg.1 s
    obtain ⟨blocks, rest, after, hblocks, hrest, hmore, hrunAll⟩ := ih ⟨files, s.events ++ events⟩
    refine ⟨events :: blocks, done && rest, after, .cons hhandles hblocks, ?_, ?_, ?_⟩
    · rw [Bool.and_eq_true, hdone, hrest, List.flatten_cons, allWritten_append,
        List.forall_mem_cons]
      tauto
    · exact leads_append.mpr ⟨files, hleads, hmore⟩
    · rw [List.map_cons, performAll, StateT.run_bind, hrun, pure_bind, StateT.run_bind, hrunAll,
        pure_bind, List.flatten_cons, ← List.append_assoc]
      rfl

/-! ## What a run leaves behind -/

/-- Documents are saved under the numbers of the sequences that can be drawn. -/
theorem Options.Handles.writesTo {i : Nat} {ids : String} {events : List Event}
    (h : o.Handles face i ids events) {folder : String} (hout : o.output = some folder) :
    WritesTo folder (fun name => (∃ svg, o.drawn face ids = .ok svg) ∧
      name = documentName o.sequences.length i) events := by
  intro path text outcome hmem
  cases h with
  | printed hdrawn hnone => simp at hmem
  | failed hdrawn => simp at hmem
  | saved hdrawn hfolder hpath | refused hdrawn hfolder hpath =>
    obtain rfl : folder = _ := Option.some.inj (hout.symm.trans hfolder)
    obtain ⟨rfl, -, -⟩ : path = _ ∧ text = _ ∧ outcome = _ := by simpa using hmem
    exact ⟨_, ⟨⟨_, hdrawn⟩, rfl⟩, isFileName_documentName _ _, hpath⟩

theorem exists_of_mem_flatten {args : List (String × Nat)} {blocks : List (List Event)}
    (h : o.HandlesAll face args blocks) {event : Event} (hevent : event ∈ blocks.flatten) :
    ∃ arg ∈ args, ∃ events, o.Handles face arg.2 arg.1 events ∧ event ∈ events := by
  induction h with
  | nil => simp at hevent
  | cons hfirst _ ih =>
    rw [List.flatten_cons, List.mem_append] at hevent
    rcases hevent with hmem | hmem
    · exact ⟨_, List.mem_cons_self, _, hfirst, hmem⟩
    · obtain ⟨arg, harg, hrest⟩ := ih hmem
      exact ⟨arg, List.mem_cons_of_mem _ harg, hrest⟩

theorem writesTo_flatten {args : List (String × Nat)} {blocks : List (List Event)}
    (h : o.HandlesAll face args blocks) {folder : String} (hout : o.output = some folder) :
    WritesTo folder (fun name => ∃ arg ∈ args, (∃ svg, o.drawn face arg.1 = .ok svg) ∧
      name = documentName o.sequences.length arg.2) blocks.flatten := by
  intro path text outcome hmem
  obtain ⟨arg, harg, events, hhandles, hmem⟩ := exists_of_mem_flatten h hmem
  obtain ⟨name, hname, hfile, hpath⟩ := hhandles.writesTo hout path text outcome hmem
  exact ⟨name, ⟨arg, harg, hname⟩, hfile, hpath⟩

/-- A document that was saved is there at the end, since later ones have other numbers. -/
theorem read_of_wrote {args : List (String × Nat)} {blocks : List (List Event)}
    (h : o.HandlesAll face args blocks) {folder : String} (hout : o.output = some folder)
    (hdistinct : (args.map Prod.snd).Nodup)
    (hrange : ∀ arg ∈ args, 1 ≤ arg.2 ∧ arg.2 ≤ o.sequences.length) {files after : σ}
    (hleads : d.Leads files blocks.flatten after) {path svg : String}
    (hmem : .wrote path svg (.ok ()) ∈ blocks.flatten) :
    d.read after path = .ok svg.toUTF8 := by
  induction h generalizing files with
  | nil => simp at hmem
  | @cons arg events args blocks hfirst hrest ih =>
    rw [List.flatten_cons, List.mem_append] at hmem
    obtain ⟨middle, hevents, hmore⟩ := leads_append.mp hleads
    rw [List.map_cons, List.nodup_cons] at hdistinct
    obtain ⟨hnumber, hrange⟩ := List.forall_mem_cons.mp hrange
    rcases hmem with hmem | hmem
    · cases hfirst with
      | printed | refused | failed => simp at hmem
      | @saved _ _ saved _ hfolder hpath =>
        obtain rfl : folder = _ := Option.some.inj (hout.symm.trans hfolder)
        obtain ⟨rfl, rfl⟩ : path = saved ∧ svg = _ := by simpa using hmem
        obtain ⟨houtcome, hreported⟩ := leads_wrote hevents
        obtain rfl := hreported.eq_of_no_write (by simp)
        -- the later blocks write under other numbers only
        have hlater := hmore.read_of_not_named (writesTo_flatten hrest hout)
          (isFileName_documentName o.sequences.length arg.2) ?_
        · rw [hpath, hlater, ← hpath]
          exact d.read_write path svg files houtcome.symm
        · rintro ⟨other, hother, -, hname⟩
          obtain ⟨hlow, hhigh⟩ := hrange other hother
          exact hdistinct.1 (List.mem_map.mpr
            ⟨other, hother, (documentName_injOn hnumber.1 hnumber.2 hlow hhigh hname).symm⟩)
    · exact ih hdistinct.2 hrange hmore hmem

/-- Without a folder the documents are printed in the order of the sequences. -/
theorem output_flatten {args : List (String × Nat)} {blocks : List (List Event)}
    (h : o.HandlesAll face args blocks) (hout : o.output = none) :
    String.join (blocks.flatten.map Event.output) =
      String.join (((args.map Prod.fst).filterMap fun ids => (o.drawn face ids).toOption).map
        (· ++ "\n")) := by
  induction h with
  | nil => rfl
  | cons hfirst _ ih =>
    rw [List.flatten_cons, List.map_append, String.join_append, ih]
    cases hfirst with
    | printed hdrawn => simp [hdrawn, Except.toOption, Event.output]
    | failed hdrawn => simp [hdrawn, Except.toOption, Event.output]
    | saved _ hfolder | refused _ hfolder => simp [hout] at hfolder

theorem not_wrote {args : List (String × Nat)} {blocks : List (List Event)}
    (h : o.HandlesAll face args blocks) (hout : o.output = none) (path text : String)
    (outcome : Except FileFault Unit) : .wrote path text outcome ∉ blocks.flatten := by
  intro hmem
  obtain ⟨arg, -, events, hhandles, hmem⟩ := exists_of_mem_flatten h hmem
  cases hhandles with
  | printed | failed => simp at hmem
  | saved _ hfolder | refused _ hfolder => simp [hout] at hfolder

namespace Options

theorem run_of_not_face (parse : Font.Parser) (d : Disk σ) (o : Options) (s : Session σ)
    (hface : o.face? parse d s.files = none) :
    ∃ line, (o.run parse d.host).run s = pure (1, s.record (.reported line)) := by
  unfold face? at hface
  rcases hread : d.read s.files o.font with e | bytes
  · refine ⟨"Error: cannot read font " ++ o.font ++ ": " ++ e.message, ?_⟩
    rw [run, StateT.run_bind, Disk.run_readFile, hread, pure_bind]
    rfl
  rcases hbytes : Font.Face.read parse bytes with e | face
  · refine ⟨"Error: " ++ e.message, ?_⟩
    rw [run, StateT.run_bind, Disk.run_readFile, hread, pure_bind]
    simp only [hbytes]
    rfl
  · simp [hread, hbytes, Except.toOption] at hface

theorem run_of_face (d : Disk σ) (o : Options) (s : Session σ)
    (hface : o.face? parse d s.files = some face) :
    ∃ blocks done files, o.HandlesAll face (o.sequences.zipIdx 1) blocks ∧
      (done = true ↔
        (∀ ids ∈ o.sequences, ∃ svg, o.drawn face ids = .ok svg) ∧ AllWritten blocks.flatten) ∧
      d.Leads s.files blocks.flatten files ∧
      (o.run parse d.host).run s =
        pure (if done then 0 else 1, ⟨files, s.events ++ blocks.flatten⟩) := by
  obtain ⟨blocks, done, files, hhandles, hdone, hleads, hrun⟩ :=
    performAll_tasks d o face (o.sequences.zipIdx 1) s
  refine ⟨blocks, done, files, hhandles, ?_, hleads, ?_⟩
  · have hargs := List.forall_mem_map (f := Prod.fst) (l := o.sequences.zipIdx 1)
      (P := fun ids => ∃ svg, o.drawn face ids = .ok svg)
    rw [List.zipIdx_map_fst] at hargs
    rw [hdone, hargs]
  · unfold face? at hface
    rcases hread : d.read s.files o.font with e | bytes
    · simp [hread] at hface
    rcases hbytes : Font.Face.read parse bytes with e | read
    · simp [hread, hbytes, Except.toOption] at hface
    obtain rfl : read = face := by simpa [hread, hbytes, Except.toOption] using hface
    rw [run, StateT.run_bind, Disk.run_readFile, hread, pure_bind]
    simp only [hbytes]
    rw [StateT.run_bind, tasks_eq, hrun]
    rfl

/-- No sequence of a batch stands in the way of another: the events of a run come in one block for
each sequence. -/
structure Isolates (d : Disk σ) (o : Options) (face : Font.Face parse) (s after : Session σ)
    (status : Nat) (blocks : List (List Event)) : Prop where
  handled : o.HandlesAll face (o.sequences.zipIdx 1) blocks
  events : after.events = s.events ++ blocks.flatten
  status_eq : status = 0 ∨ status = 1
  status_eq_zero : status = 0 ↔
    (∀ ids ∈ o.sequences, ∃ svg, o.drawn face ids = .ok svg) ∧ AllWritten blocks.flatten
  printed : o.output = none → after.files = s.files ∧
    after.output = s.output ++ String.join ((o.documents face).map (· ++ "\n"))
  /-- No document is written over by a later one. -/
  saved : ∀ folder, o.output = some folder → ∀ path svg,
    .wrote path svg (.ok ()) ∈ blocks.flatten → d.read after.files path = .ok svg.toUTF8
  /-- Other files in the folder stay, also those with the numbers of sequences that fail. -/
  kept : ∀ folder, o.output = some folder → ∀ name, IsFileName name →
    (∀ ids i svg, (ids, i) ∈ o.sequences.zipIdx 1 → o.drawn face ids = .ok svg →
      name ≠ documentName o.sequences.length i) →
    d.read after.files (filePath folder name) = d.read s.files (filePath folder name)

/-- A batch whose font is accepted goes through all of its sequences, and one without a font only
reports that. No two documents have one path. -/
theorem run_isolated (parse : Font.Parser) (d : Disk σ) (o : Options) (s : Session σ) :
    (match o.face? parse d s.files with
    | none => ∃ line, (o.run parse d.host).run s = (1, s.record (.reported line))
    | some face => ∃ status after blocks,
      (o.run parse d.host).run s = (status, after) ∧ o.Isolates d face s after status blocks) ∧
    ∀ folder i j, 1 ≤ i → i ≤ o.sequences.length → 1 ≤ j → j ≤ o.sequences.length →
      filePath folder (documentName o.sequences.length i) =
        filePath folder (documentName o.sequences.length j) → i = j := by
  refine ⟨?_, fun folder i j hi hin hj hjn h =>
    documentName_injOn hi hin hj hjn (filePath_injective folder h)⟩
  rcases hface : o.face? parse d s.files with _ | face
  · exact run_of_not_face parse d o s hface
  obtain ⟨blocks, done, files, hhandles, hdone, hleads, hrun⟩ := run_of_face d o s hface
  refine ⟨_, _, blocks, hrun, ?_⟩
  constructor
  case handled => exact hhandles
  case events => rfl
  case status_eq => cases done <;> simp
  case status_eq_zero => rw [← hdone]; cases done <;> simp
  case printed =>
    intro hout
    refine ⟨hleads.eq_of_no_write (not_wrote hhandles hout), ?_⟩
    rw [Session.output, Session.output, List.map_append, String.join_append,
      output_flatten hhandles hout, List.zipIdx_map_fst, documents]
  case saved =>
    intro folder hout path svg hmem
    refine read_of_wrote hhandles hout ?_ ?_ hleads hmem
    · rw [List.zipIdx_map_snd]
      exact List.nodup_range'
    · intro arg harg
      have hnumber := List.mem_map_of_mem (f := Prod.snd) harg
      rw [List.zipIdx_map_snd, List.mem_range'_1] at hnumber
      omega
  case kept =>
    intro folder hout name hname hother
    refine hleads.read_of_not_named (writesTo_flatten hhandles hout) hname ?_
    rintro ⟨arg, harg, ⟨svg, hdrawn⟩, rfl⟩
    exact hother arg.1 arg.2 svg harg hdrawn rfl

end Options

/-- A font with an empty glyph for one character. -/
def blankFont : ByteArray :=
  let entry (tag : String) (start size : Nat) : List Nat :=
    tag.toList.map Char.toNat ++ [0, 0, 0, 0, 0, 0, 0, start, 0, 0, 0, size]
  let directory := [0, 1, 0, 0, 0, 4, 0, 0, 0, 0, 0, 0] ++ entry "head" 76 54 ++
    entry "hhea" 76 54 ++ entry "maxp" 130 6 ++ entry "cmap" 136 24
  -- one table is both headers: 900 at the place of the ascender, 1000 at that of the units
  let metrics := [0, 0, 0, 0, 3, 132] ++ List.replicate 12 0 ++ [3, 232] ++ List.replicate 34 0
  let profile := [0, 0, 80, 0, 0, 1]
  let map := [0, 0, 0, 1, 0, 0, 0, 3, 0, 0, 0, 12, 0, 6, 0, 12, 0, 0, 83, 227, 0, 1, 0, 0]
  ⟨((directory ++ metrics ++ profile ++ map).map UInt8.ofNat).toArray⟩

/-- The second of three sequences is cut off, and a folder is in the way of the third. -/
theorem Options.run_isolated_refused :
    let o : Options := {
      font := "font.ttf", fontSize := defaultFontSize, color := "red", output := some "out"
      maxDepth := defaultMaxDepth, sequences := ["口", "⿰口", "口"] }
    let m : Memory := {
      workingFolder := [], folders := [["out", "output.3.svg"]]
      files := [(["font.ttf"], blankFont)], output := "", reports := "" }
    ∃ (face : Font.Face Font.Plain.parse) (after : Session Memory) (blocks : List (List Event)),
      (o.run Font.Plain.parse Memory.disk.host).run ⟨m, []⟩ = (1, after) ∧
      o.Isolates Memory.disk face ⟨m, []⟩ after 1 blocks ∧
      after.events.length = 5 ∧
      (after.files.readFile "out/output.1.svg").toOption.isSome ∧
      (after.files.readFile "out/output.2.svg").toOption.isNone := by
  intro o m
  let ended := (o.run Font.Plain.parse Memory.disk.host).run ⟨m, []⟩
  have hstatus : ended.1 = 1 := by decide +kernel
  have hevents : ended.2.events.length = 5 := by decide +kernel
  have hsaved : (ended.2.files.readFile "out/output.1.svg").toOption.isSome := by decide +kernel
  have hfailed : (ended.2.files.readFile "out/output.2.svg").toOption.isNone := by decide +kernel
  have hisolated := (Options.run_isolated Font.Plain.parse Memory.disk o ⟨m, []⟩).1
  rcases hface : o.face? Font.Plain.parse Memory.disk m with _ | face
  · have hloaded : (o.face? Font.Plain.parse Memory.disk m).isSome := by decide +kernel
    simp [hface] at hloaded
  rw [hface] at hisolated
  obtain ⟨status, after, blocks, hrun, hall⟩ := hisolated
  simp only [ended, hrun] at hstatus hevents hsaved hfailed
  obtain rfl : status = 1 := hstatus
  exact ⟨face, after, blocks, hrun, hall, hevents, hsaved, hfailed⟩

end Ideograph.CommandLine
