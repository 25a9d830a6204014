import Ideograph.CommandLine.Batch

/-! # A machine that keeps a record

The command line is run on any files that keep to two rules: a write that succeeds is read back, and
a write to a file leaves the files with other names in its folder. Whether a write succeeds is left
open, and what a failed one leaves in its own file. All that is printed, reported and written is
recorded in order.
-/

namespace Ideograph.CommandLine

/-- A name that leads to something in a folder, and not on through other folders. -/
def IsFileName (name : String) : Prop :=
  '/' ∉ name.toList ∧ name ≠ "" ∧ name ≠ "." ∧ name ≠ ".."

/-- Files that are read and written by their paths. -/
structure Disk (σ : Type) where
  read : σ → String → Except FileFault ByteArray
  write : String → String → σ → Except FileFault Unit × σ
  read_write : ∀ path text files, (write path text files).1 = .ok () →
    read (write path text files).2 path = .ok text.toUTF8
  read_write_of_ne : ∀ folder name other text files, IsFileName name → IsFileName other →
    name ≠ other →
    read (write (filePath folder name) text files).2 (filePath folder other) =
      read files (filePath folder other)

inductive Event where
  | printed (line : String)
  | reported (line : String)
  | wrote (path text : String) (outcome : Except FileFault Unit)

/-- What an event adds to the output. -/
def Event.output : Event → String
  | printed line => line ++ "\n"
  | _ => ""

/-- What an event adds to the reports. -/
def Event.report : Event → String
  | reported line => line ++ "\n"
  | _ => ""

/-- The files, and all that has happened. -/
structure Session (σ : Type) where
  files : σ
  events : List Event

variable {σ : Type} (d : Disk σ)

namespace Session

/-- The text on the stream for output. -/
def output (s : Session σ) : String :=
  String.join (s.events.map Event.output)

/-- The text on the stream for reports. -/
def reports (s : Session σ) : String :=
  String.join (s.events.map Event.report)

def record (s : Session σ) (event : Event) : Session σ :=
  { s with events := s.events ++ [event] }

theorem output_record (s : Session σ) (event : Event) :
    (s.record event).output = s.output ++ event.output := by
  simp [output, record]

theorem reports_record (s : Session σ) (event : Event) :
    (s.record event).reports = s.reports ++ event.report := by
  simp [reports, record]

end Session

/-- The machine whose state is a session. -/
def Disk.host : Host (StateM (Session σ)) where
  readFile path := return d.read (← get).files path
  writeFile path text := do
    let s ← get
    let (outcome, files) := d.write path text s.files
    set ({ s with files } |>.record (.wrote path text outcome))
    return outcome
  print line := modify (·.record (.printed line))
  report line := modify (·.record (.reported line))

section Run

variable (s : Session σ) (path text : String)

theorem Disk.run_readFile :
    (d.host.readFile path).run s = pure (d.read s.files path, s) :=
  rfl

theorem Disk.run_writeFile :
    (d.host.writeFile path text).run s = pure ((d.write path text s.files).1,
      ⟨(d.write path text s.files).2,
        s.events ++ [.wrote path text (d.write path text s.files).1]⟩) :=
  rfl

end Run

/-- Events that led from some files to others. -/
inductive Disk.Leads : σ → List Event → σ → Prop where
  | nil (files : σ) : Leads files [] files
  | printed {files after : σ} {events : List Event} (line : String) : Leads files events after →
      Leads files (.printed line :: events) after
  | reported {files after : σ} {events : List Event} (line : String) : Leads files events after →
      Leads files (.reported line :: events) after
  | wrote {files after : σ} {events : List Event} (path text : String) :
      Leads (d.write path text files).2 events after →
      Leads files (.wrote path text (d.write path text files).1 :: events) after

variable {d}

theorem leads_append {files after : σ} {events more : List Event} :
    d.Leads files (events ++ more) after ↔
      ∃ middle, d.Leads files events middle ∧ d.Leads middle more after := by
  constructor
  · intro h
    induction events generalizing files with
    | nil => exact ⟨files, .nil files, h⟩
    | cons event events ih =>
      cases h with
      | printed line h =>
        obtain ⟨middle, hfirst, hmore⟩ := ih h
        exact ⟨middle, .printed line hfirst, hmore⟩
      | reported line h =>
        obtain ⟨middle, hfirst, hmore⟩ := ih h
        exact ⟨middle, .reported line hfirst, hmore⟩
      | wrote path text h =>
        obtain ⟨middle, hfirst, hmore⟩ := ih h
        exact ⟨middle, .wrote path text hfirst, hmore⟩
  · rintro ⟨middle, hfirst, hmore⟩
    induction hfirst with
    | nil => exact hmore
    | printed line _ ih => exact .printed line (ih hmore)
    | reported line _ ih => exact .reported line (ih hmore)
    | wrote path text _ ih => exact .wrote path text (ih hmore)

theorem leads_wrote {files after : σ} {path text : String} {outcome : Except FileFault Unit}
    {events : List Event} (h : d.Leads files (.wrote path text outcome :: events) after) :
    outcome = (d.write path text files).1 ∧ d.Leads (d.write path text files).2 events after := by
  generalize hall : Event.wrote path text outcome :: events = all at h
  cases h with
  | nil | printed | reported => simp at hall
  | wrote path text h =>
    obtain ⟨⟨rfl, rfl, rfl⟩, rfl⟩ : (_ ∧ _ ∧ _) ∧ _ := by simpa using hall
    exact ⟨rfl, h⟩

/-- Every write goes to a file in the folder with one of the names. -/
def WritesTo (folder : String) (named : String → Prop) (events : List Event) : Prop :=
  ∀ path text outcome, .wrote path text outcome ∈ events →
    ∃ name, named name ∧ IsFileName name ∧ path = filePath folder name

/-- A file in the folder with another name stays as it is. -/
theorem Disk.Leads.read_of_not_named {files after : σ} {events : List Event}
    (h : d.Leads files events after) {folder other : String} {named : String → Prop}
    (hevents : WritesTo folder named events) (hother : IsFileName other) (hnamed : ¬ named other) :
    d.read after (filePath folder other) = d.read files (filePath folder other) := by
  induction h with
  | nil => rfl
  | printed line _ ih | reported line _ ih =>
    exact ih fun path text outcome hmem => hevents path text outcome (List.mem_cons_of_mem _ hmem)
  | wrote path text _ ih =>
    rw [ih fun path text outcome hmem => hevents path text outcome (List.mem_cons_of_mem _ hmem)]
    obtain ⟨name, hname, hfile, rfl⟩ := hevents path text _ List.mem_cons_self
    exact d.read_write_of_ne folder name other text _ hfile hother fun heq => hnamed (heq ▸ hname)

/-- Where nothing is written the files stay as they are. -/
theorem Disk.Leads.eq_of_no_write {files after : σ} {events : List Event}
    (h : d.Leads files events after)
    (hevents : ∀ path text outcome, .wrote path text outcome ∉ events) : after = files := by
  induction h with
  | nil => rfl
  | printed line _ ih | reported line _ ih =>
    exact ih fun path text outcome hmem => hevents path text outcome (List.mem_cons_of_mem _ hmem)
  | wrote path text _ _ => exact absurd List.mem_cons_self (hevents path text _)

end Ideograph.CommandLine
