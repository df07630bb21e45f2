import DialogueBuild.Proofs.FileSystem.Walk
/-!
Replacing a file by way of a scratch file.

The scratch file is put where nothing was, so that taking it away again gives the file system from
before. What is moved in place of the old file is all that changes.

Results:

1. `remove_put`          taking away what was put where nothing was gives back the file system;
2. `replaceFile_cases`   a replacement that is refused changes nothing, else a file with the
                         contents is put, and nothing else changes;
3. `readText_put_file`   and it is read back.
-/
namespace DialogueBuild.FileSystem

variable {disk : Disk} {fs fs' created filled moved : FileSystem} {directory p : Path}
  {loc scratch : Location} {contents : ByteArray}

/-! ## Putting and taking away -/

theorem eq_of_entries (hentries : fs'.entries = fs.entries)
    (hworking : fs'.workingDirectory = fs.workingDirectory) : fs' = fs := by
  cases fs
  cases fs'
  cases hentries
  cases hworking
  rfl

theorem put_put (fs : FileSystem) (loc : Location) (e e' : Entry) :
    (fs.put loc e).put loc e' = fs.put loc e' :=
  eq_of_entries (insertEntry_insertEntry loc e e' fs.entries) rfl

/-- Nothing is at a location if and only if it has no entry. -/
theorem entryAt?_eq_none_iff :
    fs.entryAt? loc = none ↔ loc ≠ [] ∧ loc ∉ fs.entries.map Prod.fst := by
  cases loc with
  | nil => simp [entryAt?]
  | cons name rest => simp [entryAt?, findEntry?_eq_none_iff]

theorem remove_put {e : Entry} (h : fs.entryAt? loc = none) : (fs.put loc e).remove loc = fs := by
  have hnot := (entryAt?_eq_none_iff.mp h).2
  have hstay : ∀ entry ∈ fs.entries, decide (entry.1 ≠ loc) = true := by
    intro entry hentry
    rw [decide_eq_true_iff]
    rintro rfl
    exact hnot (List.mem_map_of_mem hentry)
  refine eq_of_entries ?_ rfl
  show (insertEntry loc e fs.entries).filter (fun entry => entry.1 ≠ loc) = fs.entries
  rw [insertEntry_of_notMem hnot, List.filter_append, List.filter_eq_self.mpr hstay]
  simp

theorem filter_insertEntry {l : Location} (e : Entry) (h : l ≠ loc)
    (entries : List (Location × Entry)) :
    (insertEntry l e entries).filter (fun (l, _) => l ≠ loc)
      = insertEntry l e (entries.filter fun (l, _) => l ≠ loc) := by
  induction entries with
  | nil => simp [insertEntry, h]
  | cons entry rest ih =>
    obtain ⟨m, old⟩ := entry
    by_cases hm : m = l
    · subst hm
      simp [insertEntry, h]
    · by_cases hloc : m = loc
      · subst hloc
        simpa [insertEntry, hm] using ih
      · simpa [insertEntry, hm, hloc] using ih

theorem remove_put_of_ne {l : Location} {e : Entry} (h : l ≠ loc) :
    (fs.put l e).remove loc = (fs.remove loc).put l e :=
  eq_of_entries (filter_insertEntry e h fs.entries) rfl

/-! ## Scratch files -/

theorem createScratch_ok (h : createScratch disk fs directory = .ok (scratch, created)) :
    fs.entryAt? scratch = none ∧ created = fs.put scratch (.file .blank) := by
  unfold createScratch at h
  obtain ⟨loc, hlocate, h⟩ := bind_eq_ok.mp h
  split at h
  · cases h
  · cases h
  · split at h
    · cases h
    · cases h
    · rename_i name _ hname
      cases h
      have hfree := List.find?_some hname
      exact ⟨Option.isNone_iff_eq_none.mp hfree, rfl⟩

/-- A scratch file is filled, be it in part. -/
theorem fillScratch_eq (disk : Disk) (fs : FileSystem) (scratch : Location) (contents : ByteArray)
    (mode? : Option Nat) :
    (∃ f fault, fillScratch disk fs scratch contents mode?
        = (fs.put scratch (.file f), .error fault))
      ∨ fillScratch disk fs scratch contents mode?
        = (fs.put scratch (.file ⟨contents, mode?.getD File.defaultMode⟩), .ok ()) := by
  unfold fillScratch
  split
  · exact .inl ⟨_, _, rfl⟩
  · exact .inl ⟨_, _, rfl⟩
  · exact .inl ⟨_, _, rfl⟩
  · exact .inr rfl
  · exact .inr rfl

theorem directory_of_put_file {l : Location} {f : File} (hscratch : scratch ≠ [])
    (h : (fs.put scratch (.file f)).entryAt? l = some .directory) :
    fs.entryAt? l = some .directory := by
  by_cases hl : l = scratch
  · rw [hl, entryAt?_put_self hscratch] at h
    cases h
  · rwa [entryAt?_put_of_ne hl] at h

/-- What was moved is at its place, and the scratch file is gone. -/
theorem moved_eq {f : File} (hfree : fs.entryAt? scratch = none)
    (h : (if loc = scratch then pure (fs.put scratch (.file f))
      else pure (((fs.put scratch (.file f)).put loc (.file f)).remove scratch)
        : Except Fault FileSystem) = .ok moved) : moved = fs.put loc (.file f) := by
  split at h
  · rename_i heq
    cases h
    rw [heq]
  · rename_i hne
    cases h
    rw [remove_put_of_ne hne, remove_put hfree]

/-- What a scratch file is moved to is no directory, and is all that changes. -/
theorem moveScratch_ok {f : File} (hfree : fs.entryAt? scratch = none)
    (h : moveScratch disk (fs.put scratch (.file f)) scratch p = .ok moved) :
    ∃ loc, fs.slot p = .ok (.named loc false) ∧ checkName loc = .ok ()
      ∧ fs.entryAt? loc ≠ some .directory ∧ moved = fs.put loc (.file f) := by
  have hscratch : scratch ≠ [] := (entryAt?_eq_none_iff.mp hfree).1
  unfold moveScratch at h
  split at h
  · cases h
  obtain ⟨target, hslot, h⟩ := bind_eq_ok.mp h
  cases target with
  | inside => cases h
  | named loc slash =>
    cases slash with
    | true => cases h
    | false =>
      obtain ⟨⟨⟩, hname, h⟩ := bind_eq_ok.mp h
      obtain ⟨hnames, hslash⟩ := slot_eq_named_iff.mp hslot
      have hnames' : fs.Names p loc := by
        refine names_of_directories ?_ ?_ hnames
        · rfl
        · exact fun _ => directory_of_put_file hscratch
      refine ⟨loc, slot_eq_named_iff.mpr ⟨hnames', hslash⟩, hname, ?_⟩
      rw [entryAt?_put_self hscratch] at h
      have hentry : (fs.put scratch (.file f)).entryAt? loc ≠ some .directory
          ∧ moved = fs.put loc (.file f) := by
        split at h
        · rename_i hf hg _
          cases hf
          exact ⟨by rw [hg]; simp, moved_eq hfree h⟩
        · rename_i hf hnone _
          cases hf
          exact ⟨by rw [hnone]; simp, moved_eq hfree h⟩
        · cases h
        · cases h
        · cases h
      refine ⟨fun hdirectory => ?_, hentry.2⟩
      by_cases hloc : loc = scratch
      · rw [hloc, hfree] at hdirectory
        cases hdirectory
      · exact hentry.1 (by rw [entryAt?_put_of_ne hloc, hdirectory])

/-! ## Replacing -/

/-- The mode that a file passes on to the one that replaces it. -/
def modeAt (fs : FileSystem) (loc : Location) : Nat :=
  match fs.entryAt? loc with
  | some (.file f) => f.mode
  | _ => File.defaultMode

theorem mode?_getD (hslot : fs.slot p = .ok (.named loc false)) (hname : checkName loc = .ok ())
    (hentry : fs.entryAt? loc ≠ some .directory) :
    (fs.mode? p).getD File.defaultMode = fs.modeAt loc := by
  have hlookup : ∀ {e}, fs.lookup p = .ok e ↔ fs.entryAt? loc = some e :=
    lookup_of_slot hslot hname
  unfold mode? modeAt
  split
  · rename_i e he
    rw [hlookup.mp he]
    cases e with
    | file f => rfl
    | directory => exact absurd (hlookup.mp he) hentry
  · rename_i fault hfault
    split
    · rename_i f hf
      rw [hlookup.mpr hf] at hfault
      cases hfault
    · rfl

/-- A replacement changes nothing, or puts a file with the contents. -/
theorem replaceFile_cases (disk : Disk) (fs : FileSystem) (directory p : Path)
    (contents : ByteArray) :
    (∃ fault, fs.replaceFile disk directory p contents = (fs, .error fault))
      ∨ ∃ loc, fs.slot p = .ok (.named loc false) ∧ checkName loc = .ok ()
        ∧ fs.entryAt? loc ≠ some .directory
        ∧ fs.replaceFile disk directory p contents
          = (fs.put loc (.file ⟨contents, fs.modeAt loc⟩), .ok ()) := by
  unfold replaceFile
  split
  · exact .inl ⟨_, rfl⟩
  · rename_i scratch created hcreated
    obtain ⟨hfree, rfl⟩ := createScratch_ok hcreated
    rcases fillScratch_eq disk (fs.put scratch (.file .blank)) scratch contents
      (fs.mode? p) with ⟨f, reason, hfill⟩ | hfill <;> simp only [hfill, put_put]
    · exact .inl ⟨_, by rw [remove_put hfree]⟩
    · split
      · exact .inl ⟨_, by rw [remove_put hfree]⟩
      · rename_i moved hmoved
        obtain ⟨loc, hslot, hname, hentry, rfl⟩ := moveScratch_ok hfree hmoved
        exact .inr ⟨loc, hslot, hname, hentry, by rw [mode?_getD hslot hname hentry]⟩

/-- A replacement that is refused changes nothing. -/
theorem replaceFile_error {fault : Path × Fault}
    (h : fs.replaceFile disk directory p contents = (fs', .error fault)) : fs' = fs := by
  rcases replaceFile_cases disk fs directory p contents with ⟨fault', heq⟩ | ⟨loc, -, -, -, heq⟩
  · exact (Prod.mk.inj (heq.symm.trans h)).1.symm
  · cases heq.symm.trans h

/-- After a replacement a file with the contents is at the path, and nothing else has changed. -/
theorem replaceFile_ok (h : fs.replaceFile disk directory p contents = (fs', .ok ())) :
    ∃ loc, fs.slot p = .ok (.named loc false) ∧ checkName loc = .ok ()
      ∧ fs.entryAt? loc ≠ some .directory
      ∧ fs' = fs.put loc (.file ⟨contents, fs.modeAt loc⟩) := by
  rcases replaceFile_cases disk fs directory p contents with
    ⟨fault, heq⟩ | ⟨loc, hslot, hname, hentry, heq⟩
  · cases heq.symm.trans h
  · exact ⟨loc, hslot, hname, hentry, (Prod.mk.inj (heq.symm.trans h)).1.symm⟩

/-! ## Reading back -/

theorem slot_put_file {f : File} (hslot : fs.slot p = .ok (.named loc false))
    (hentry : fs.entryAt? loc ≠ some .directory) :
    (fs.put loc (.file f)).slot p = .ok (.named loc false) := by
  obtain ⟨hnames, hslash⟩ := slot_eq_named_iff.mp hslot
  exact slot_eq_named_iff.mpr ⟨names_mono (grows_put_file hnames.ne_nil hentry) hnames, hslash⟩

theorem lookup_put_file {f : File} (hslot : fs.slot p = .ok (.named loc false))
    (hname : checkName loc = .ok ()) (hentry : fs.entryAt? loc ≠ some .directory) :
    (fs.put loc (.file f)).lookup p = .ok (.file f) := by
  rw [lookup_of_slot (slot_put_file hslot hentry) hname]
  exact entryAt?_put_self (slot_eq_named_iff.mp hslot).1.ne_nil

theorem readText_of_lookup {mode : Nat} {text : String}
    (h : fs.lookup p = .ok (.file ⟨text.toUTF8, mode⟩)) : fs.readText p = .ok text := by
  have htext : (⟨text.toUTF8, mode⟩ : File).text? = some text :=
    dif_pos text.isValidUTF8
  unfold readText fileAt
  simp only [h, bind, Except.bind, pure, Except.pure, htext]

theorem readText_put_file {mode : Nat} {text : String} (hslot : fs.slot p = .ok (.named loc false))
    (hname : checkName loc = .ok ()) (hentry : fs.entryAt? loc ≠ some .directory) :
    (fs.put loc (.file ⟨text.toUTF8, mode⟩)).readText p = .ok text :=
  readText_of_lookup (lookup_put_file hslot hname hentry)

end DialogueBuild.FileSystem
