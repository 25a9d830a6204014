import Mathlib.Data.List.Basic
import Mathlib.Data.String.Basic
import Ideograph.CommandLine.Memory
import Ideograph.Proofs.CommandLine.Session

/-! # The tree in memory as files

Writing a file makes no folder and takes none away, so paths lead where they led before. The tree in
memory therefore keeps to the rules for files that sessions are about.
-/

namespace Ideograph.CommandLine.Memory

variable {m after : Memory} {here l k : Location} {name path : String}

/-! ## Folders -/

theorem isFolder_iff (m : Memory) (l : Location) :
    m.isFolder l ↔ (∃ folder ∈ m.workingFolder :: m.folders, l <+: folder) ∨
      ∃ file ∈ m.files, l <+: file.1.dropLast := by
  rw [isFolder, List.any_append, Bool.or_eq_true, List.any_eq_true, List.any_map, List.any_eq_true]
  simp only [Function.comp_apply, List.isPrefixOf_iff_prefix]

theorem isFolder_mono (h : m.isFolder l) (hk : k <+: l) : m.isFolder k := by
  rw [isFolder_iff] at h ⊢
  rcases h with ⟨folder, hmem, hl⟩ | ⟨file, hmem, hl⟩
  · exact .inl ⟨folder, hmem, hk.trans hl⟩
  · exact .inr ⟨file, hmem, hk.trans hl⟩

theorem isFolder_of_enter (h : m.enter here name = .ok l) : m.isFolder here := by
  unfold enter at h
  split at h
  · assumption
  · split at h <;> simp at h

theorem isFolder_dropLast_of_enter (h : m.enter here name = .ok l) : m.isFolder l.dropLast := by
  unfold enter at h
  split at h
  · next hhere =>
    have hup : m.isFolder here.dropLast := isFolder_mono hhere (List.dropLast_prefix here)
    split at h
    · obtain rfl := Except.ok.inj h
      exact hup
    split at h
    · obtain rfl := Except.ok.inj h
      exact isFolder_mono hup (List.dropLast_prefix _)
    split at h
    · simp at h
    · obtain rfl := Except.ok.inj h
      rwa [List.dropLast_concat]
  · split at h <;> simp at h

theorem isFolder_dropLast_of_foldlM {names : List String} (hhere : m.isFolder here.dropLast)
    (h : names.foldlM m.enter here = .ok l) : m.isFolder l.dropLast := by
  induction names generalizing here with
  | nil =>
    obtain rfl := Except.ok.inj h
    exact hhere
  | cons name names ih =>
    rw [List.foldlM_cons] at h
    rcases hname : m.enter here name with e | next
    · rw [hname] at h
      cases h
    · rw [hname] at h
      exact ih (isFolder_dropLast_of_enter hname) h

/-- The folder from which a path leads on. -/
def start (m : Memory) (cs : List Char) : Location :=
  if cs.head? = some '/' then [] else m.workingFolder

theorem isFolder_start (m : Memory) (cs : List Char) : m.isFolder (m.start cs) := by
  unfold start isFolder
  split <;> simp

/-- The names between slashes. -/
def namesIn (cs : List Char) : List String :=
  (cs.splitOn '/').map String.ofList

theorem locate_eq (m : Memory) (path : String) :
    m.locate path =
      if maxPathSize < path.utf8ByteSize then .error .nameTooLong
      else (namesIn path.toList).foldlM m.enter (m.start path.toList) :=
  rfl

/-- What a path leads to lies in a folder. -/
theorem isFolder_dropLast_of_locate (h : m.locate path = .ok l) : m.isFolder l.dropLast := by
  rw [locate_eq] at h
  split at h
  · simp at h
  · exact isFolder_dropLast_of_foldlM
      (isFolder_mono (m.isFolder_start _) (List.dropLast_prefix _)) h

/-! ## Paths in a folder -/

/-- The path of a folder without a slash behind it. -/
def trunk (folder : String) : List Char :=
  if folder.toList.getLast? = some '/' then folder.toList.dropLast else folder.toList

theorem toList_filePath (folder name : String) :
    (filePath folder name).toList = trunk folder ++ '/' :: name.toList := by
  unfold filePath trunk
  split
  · next hlast =>
    rw [String.toList_append, List.append_cons, List.dropLast_append_getLast? '/' hlast]
  · simp

/-- Where the path of a folder leads. -/
def folderAt (m : Memory) (folder : String) : Except FileFault Location :=
  (namesIn (trunk folder)).foldlM m.enter (m.start (trunk folder ++ ['/']))

theorem locate_filePath (m : Memory) (folder : String) (hname : '/' ∉ name.toList) :
    m.locate (filePath folder name) =
      if maxPathSize < (filePath folder name).utf8ByteSize then .error .nameTooLong
      else m.folderAt folder >>= (m.enter · name) := by
  have hnames : namesIn (filePath folder name).toList = namesIn (trunk folder) ++ [name] := by
    unfold namesIn
    rw [toList_filePath, List.splitOn_append_cons_self, List.splitOn_eq_singleton hname]
    simp
  have hstart : m.start (filePath folder name).toList = m.start (trunk folder ++ ['/']) := by
    rw [start, start, toList_filePath]
    cases trunk folder <;> rfl
  rw [locate_eq, hnames, hstart, List.foldlM_append]
  simp [folderAt]

theorem enter_of_isFileName (hhere : m.isFolder here) (hname : IsFileName name) :
    m.enter here name =
      if maxNameSize < name.utf8ByteSize then .error .nameTooLong else .ok (here ++ [name]) := by
  obtain ⟨-, hempty, hdot, hdots⟩ := hname
  rw [enter, if_pos hhere, if_neg (by tauto), if_neg hdots]

theorem eq_of_enter (hname : IsFileName name) (h : m.enter here name = .ok l) :
    l = here ++ [name] := by
  rw [enter_of_isFileName (isFolder_of_enter h) hname] at h
  split at h
  · cases h
  · exact (Except.ok.inj h).symm

/-! ## Writing a file -/

/-- The tree with a file put in it. -/
def put (m : Memory) (l : Location) (bytes : ByteArray) : Memory :=
  { m with files := (l, bytes) :: m.files.filter (·.1 != l) }

theorem writeFile_eq_ok {text : String} (h : m.writeFile path text = .ok after) :
    ∃ l, m.locate path = .ok l ∧ m.isFolder l = false ∧ after = m.put l text.toUTF8 := by
  unfold writeFile at h
  rcases hlocate : m.locate path with e | l
  · rw [hlocate] at h
    cases h
  · rw [hlocate] at h
    change (if m.isFolder l then Except.error FileFault.folder
      else .ok (m.put l text.toUTF8)) = .ok after at h
    split at h
    · cases h
    · next hfolder => exact ⟨l, rfl, by simpa using hfolder, (Except.ok.inj h).symm⟩

/-- A file in a folder makes no folder, and none is lost with the file that was there. -/
theorem isFolder_put (bytes : ByteArray) (h : m.isFolder l.dropLast) (k : Location) :
    (m.put l bytes).isFolder k = m.isFolder k := by
  rw [Bool.eq_iff_iff]
  constructor
  · rw [isFolder_iff]
    rintro (hfolder | ⟨file, hmem, hbelow⟩)
    · exact (isFolder_iff _ _).mpr (.inl hfolder)
    rcases List.mem_cons.mp hmem with rfl | hmem
    · exact isFolder_mono h hbelow
    · exact (isFolder_iff _ _).mpr (.inr ⟨file, List.mem_of_mem_filter hmem, hbelow⟩)
  · rw [isFolder_iff, isFolder_iff]
    rintro (hfolder | ⟨file, hmem, hbelow⟩)
    · exact .inl hfolder
    by_cases hfile : file.1 = l
    · exact .inr ⟨_, List.mem_cons_self, hfile ▸ hbelow⟩
    · exact .inr ⟨file, List.mem_cons_of_mem _ (List.mem_filter.mpr ⟨hmem, by simpa using hfile⟩),
        hbelow⟩

theorem file?_put_self (m : Memory) (l : Location) (bytes : ByteArray) :
    (m.put l bytes).file? l = some bytes :=
  List.lookup_cons_self

theorem lookup_filter_of_ne (files : List (Location × ByteArray)) (h : k ≠ l) :
    (files.filter (·.1 != l)).lookup k = files.lookup k := by
  induction files with
  | nil => rfl
  | cons file files ih =>
    obtain ⟨place, bytes⟩ := file
    by_cases hfile : place = l
    · rw [List.filter_cons_of_neg (by simpa using hfile), ih, List.lookup_cons, hfile,
        beq_false_of_ne h]
    · rw [List.filter_cons_of_pos (by simpa using hfile), List.lookup_cons, List.lookup_cons, ih]

theorem file?_put_of_ne (m : Memory) (bytes : ByteArray) (h : k ≠ l) :
    (m.put l bytes).file? k = m.file? k := by
  rw [file?, put, List.lookup_cons, beq_false_of_ne h]
  exact lookup_filter_of_ne m.files h

/-! ## The rules for files -/

variable {bytes : ByteArray}

theorem enter_eq_ok_of_isFolder_eq (hfolders : ∀ l, after.isFolder l = m.isFolder l)
    (h : m.enter here name = .ok l) : after.enter here name = .ok l := by
  unfold enter at h ⊢
  rw [hfolders]
  split at h
  · next hhere => rwa [if_pos hhere]
  · split at h <;> simp at h

theorem foldlM_eq_ok_of_isFolder_eq (hfolders : ∀ l, after.isFolder l = m.isFolder l)
    {names : List String} (h : names.foldlM m.enter here = .ok l) :
    names.foldlM after.enter here = .ok l := by
  induction names generalizing here with
  | nil => exact h
  | cons name names ih =>
    rw [List.foldlM_cons] at h ⊢
    rcases hname : m.enter here name with e | next
    · rw [hname] at h
      cases h
    · rw [hname] at h
      rw [enter_eq_ok_of_isFolder_eq hfolders hname]
      exact ih h

theorem readFile_put (h : m.locate path = .ok l) (hfile : m.isFolder l = false) :
    (m.put l bytes).readFile path = .ok bytes := by
  have hfolders := isFolder_put bytes (isFolder_dropLast_of_locate h)
  have hlocate : (m.put l bytes).locate path = .ok l := by
    rw [locate_eq] at h ⊢
    split at h
    · cases h
    · next hsize =>
      rw [if_neg hsize]
      exact foldlM_eq_ok_of_isFolder_eq hfolders h
  rw [readFile, hlocate]
  simp [bind, Except.bind, hfolders, hfile, file?_put_self]

theorem readFile_put_of_ne {folder other : String} (hname : IsFileName name)
    (hother : IsFileName other) (hne : name ≠ other)
    (h : m.locate (filePath folder name) = .ok l) :
    (m.put l bytes).readFile (filePath folder other) = m.readFile (filePath folder other) := by
  have hfolders := isFolder_put bytes (isFolder_dropLast_of_locate h)
  rw [locate_filePath m folder hname.1] at h
  split at h
  · cases h
  rcases hhere : m.folderAt folder with e | here
  · rw [hhere] at h
    cases h
  rw [hhere] at h
  -- the write went through the same folders, so the new file is none of them
  have hafter : (m.put l bytes).folderAt folder = .ok here :=
    foldlM_eq_ok_of_isFolder_eq hfolders hhere
  have hfolder : m.isFolder here := isFolder_of_enter h
  have henter : (m.put l bytes).enter here other = m.enter here other := by
    rw [enter_of_isFileName hfolder hother,
      enter_of_isFileName ((hfolders here).trans hfolder) hother]
  rw [readFile, readFile, locate_filePath _ _ hother.1, locate_filePath _ _ hother.1, hhere, hafter]
  split
  · rfl
  change ((m.put l bytes).enter here other >>= _) = m.enter here other >>= _
  rw [henter]
  rcases hk : m.enter here other with e | k
  · rfl
  have hkl : k ≠ l := by
    rintro rfl
    have hnames := (eq_of_enter hname h).symm.trans (eq_of_enter hother hk)
    exact hne (by simpa using hnames)
  simp only [bind, Except.bind, hfolders, file?_put_of_ne m bytes hkl]

/-- The tree in memory as files of sessions. -/
def disk : Disk Memory where
  read := readFile
  write path text m :=
    match m.writeFile path text with
    | .ok after => (.ok (), after)
    | .error e => (.error e, m)
  read_write path text m h := by
    rcases hwrite : m.writeFile path text with e | after
    · simp [hwrite] at h
    · obtain ⟨l, hlocate, hfile, rfl⟩ := writeFile_eq_ok hwrite
      exact readFile_put hlocate hfile
  read_write_of_ne folder name other text m hname hother hne := by
    rcases hwrite : m.writeFile (filePath folder name) text with e | after
    · rfl
    · obtain ⟨l, hlocate, -, rfl⟩ := writeFile_eq_ok hwrite
      exact readFile_put_of_ne hname hother hne hlocate

theorem disk_write (m : Memory) (path text : String) :
    disk.write path text m =
      match m.writeFile path text with
      | .ok after => (.ok (), after)
      | .error e => (.error e, m) :=
  rfl

/-! ## Sessions in memory -/

/-- What a session leaves behind: its files, and its text behind that on the streams. -/
def ofSession (s : Session Memory) : Memory :=
  { s.files with
    output := s.files.output ++ s.output
    reports := s.files.reports ++ s.reports }

variable {β γ : Type}

/-- A computation on the tree does what another one does in a session. -/
def Simulates (x : StateM Memory β) (y : StateM (Session Memory) β) : Prop :=
  ∀ s, x.run (ofSession s) = pure ((y.run s).1, ofSession (y.run s).2)

theorem simulates_pure (b : β) : Simulates (pure b) (pure b) :=
  fun _ => rfl

theorem simulates_bind {x : StateM Memory β} {y : StateM (Session Memory) β}
    {f : β → StateM Memory γ} {g : β → StateM (Session Memory) γ} (h : Simulates x y)
    (hf : ∀ b, Simulates (f b) (g b)) : Simulates (x >>= f) (y >>= g) := by
  intro s
  rw [StateT.run_bind, h s, pure_bind]
  exact hf _ _

theorem simulates_readFile (path : String) :
    Simulates (host.readFile path) (disk.host.readFile path) :=
  fun _ => rfl

theorem run_writeFile (m : Memory) (path text : String) :
    (host.writeFile path text).run m = pure (disk.write path text m) := by
  change StateT.run (match m.writeFile path text with | .ok _ => _ | .error _ => _) m = _
  rw [disk_write]
  rcases m.writeFile path text with e | after <;> rfl

theorem writeFile_ofSession (s : Session Memory) (path text : String) :
    (ofSession s).writeFile path text =
      (fun after => ofSession { s with files := after }) <$> s.files.writeFile path text := by
  have hlocate : (ofSession s).locate path = s.files.locate path := rfl
  rw [writeFile, writeFile, hlocate]
  rcases s.files.locate path with e | l
  · rfl
  change (if s.files.isFolder l then _ else _) = _ <$> (if s.files.isFolder l then _ else _)
  split <;> rfl

theorem simulates_writeFile (path text : String) :
    Simulates (host.writeFile path text) (disk.host.writeFile path text) := by
  intro s
  have hrecord : ∀ files outcome,
      ofSession ({ s with files }.record (.wrote path text outcome)) =
        ofSession { s with files } := by
    intro files outcome
    rw [ofSession, Session.output_record, Session.reports_record]
    simp [ofSession, Session.record, Event.output, Event.report]
  have hwrite : disk.write path text (ofSession s) = ((disk.write path text s.files).1,
      ofSession { s with files := (disk.write path text s.files).2 }) := by
    rw [disk_write, disk_write, writeFile_ofSession]
    rcases s.files.writeFile path text with e | after <;> rfl
  rw [run_writeFile, hwrite, Disk.run_writeFile]
  exact congrArg (Prod.mk _) (hrecord _ _).symm

theorem simulates_print (line : String) : Simulates (host.print line) (disk.host.print line) := by
  intro s
  have hrecord : ofSession (s.record (.printed line)) =
      { ofSession s with output := (ofSession s).output ++ line ++ "\n" } := by
    rw [ofSession, Session.output_record, Session.reports_record]
    simp [ofSession, Session.record, Event.output, Event.report, String.append_assoc]
  exact congrArg (Prod.mk ()) hrecord.symm

theorem simulates_report (line : String) :
    Simulates (host.report line) (disk.host.report line) := by
  intro s
  have hrecord : ofSession (s.record (.reported line)) =
      { ofSession s with reports := (ofSession s).reports ++ line ++ "\n" } := by
    rw [ofSession, Session.output_record, Session.reports_record]
    simp [ofSession, Session.record, Event.output, Event.report, String.append_assoc]
  exact congrArg (Prod.mk ()) hrecord.symm

theorem simulates_perform (task : Task) :
    Simulates (task.perform host) (task.perform disk.host) := by
  cases task with
  | print svg => exact simulates_bind (simulates_print svg) fun _ => simulates_pure true
  | complain message =>
    exact simulates_bind (simulates_report message) fun _ => simulates_pure false
  | save path svg =>
    refine simulates_bind (simulates_writeFile path svg) ?_
    rintro (e | _)
    · exact simulates_bind (simulates_report _) fun _ => simulates_pure false
    · exact simulates_bind (simulates_report _) fun _ => simulates_pure true

theorem simulates_performAll (tasks : List Task) :
    Simulates (performAll host tasks) (performAll disk.host tasks) := by
  induction tasks with
  | nil => exact simulates_pure true
  | cons task tasks ih =>
    exact simulates_bind (simulates_perform task) fun done =>
      simulates_bind ih fun rest => simulates_pure (done && rest)

/-- What is proved of sessions holds of the runs on the tree in memory. -/
theorem simulates_run (parse : Font.Parser) (arguments : List String) :
    Simulates (run parse host arguments) (run parse disk.host arguments) := by
  unfold run
  split
  · exact simulates_bind (simulates_report _) fun _ => simulates_pure 2
  · exact simulates_bind (simulates_print _) fun _ => simulates_pure 0
  · exact simulates_bind (simulates_print _) fun _ => simulates_pure 0
  · refine simulates_bind (simulates_readFile _) ?_
    rintro (e | bytes)
    · exact simulates_bind (simulates_report _) fun _ => simulates_pure 1
    dsimp only
    cases Font.Face.read parse bytes with
    | error e => exact simulates_bind (simulates_report _) fun _ => simulates_pure 1
    | ok face =>
      exact simulates_bind (simulates_performAll _) fun done =>
        simulates_pure (if done then 0 else 1)

end Ideograph.CommandLine.Memory
