import DialogueBuild.Proofs.FileSystem.Walk
/-!
Creating a directory and all that lead to it.

Nothing but directories on the way is added, also when a step is refused. After a success all of
them are there. The second time nothing is left to be done, and what was refused is refused again.

Results:

1. `createDirectory_eq_ok_iff`     when a single directory is created;
2. `addsDirectories_createFirst`   what is added on the way, whatever the outcome;
3. `isDirectory_of_createFirst`    after a success all of the directories are there;
4. `createFirst_again`             the second time changes nothing.
-/
namespace DialogueBuild.FileSystem

variable {fs fs' : FileSystem} {p q : Path} {loc l : Location} {paths : List Path}
  {result : Except Fault Unit}

/-! ## One directory -/

theorem createDirectory_eq_ok_iff :
    fs.createDirectory p = .ok fs'
      ↔ ∃ loc, fs.Names p loc ∧ checkName loc = .ok () ∧ fs.entryAt? loc = none
        ∧ fs' = fs.put loc .directory := by
  unfold createDirectory
  rw [bind_eq_ok]
  constructor
  · rintro ⟨target, hslot, h⟩
    cases target with
    | inside => cases h
    | named loc slash =>
      obtain ⟨⟨⟩, hname, h⟩ := bind_eq_ok.mp h
      split at h
      · cases h
      · rename_i hfree
        cases h
        exact ⟨loc, (slot_eq_named_iff.mp hslot).1, hname, hfree, rfl⟩
  · rintro ⟨loc, hnames, hname, hfree, rfl⟩
    refine ⟨.named loc (endsInSlash p), slot_eq_named_iff.mpr ⟨hnames, rfl⟩, ?_⟩
    simp only [hname, hfree, bind, Except.bind]
    rfl

/-- A directory that is there is not created again. -/
theorem createDirectory_of_isDirectory (h : fs.isDirectory p = true) :
    fs.createDirectory p = .error .exists := by
  obtain ⟨hcheck, hwalk, hentry⟩ := isDirectory_iff.mp h
  unfold createDirectory
  rcases List.eq_nil_or_concat (Path.names p.text.toList) with hnil | ⟨front, last, hnames⟩
  · rw [slot_of_names_nil hcheck hnil]
    rfl
  unfold FileSystem.destination at hentry
  rw [List.concat_eq_append] at hnames
  rw [hnames] at hwalk hentry
  obtain ⟨hfront, hdirectory⟩ := directory_of_walkable hwalk hentry
  rw [slot_of_names_concat hcheck hnames hfront hdirectory]
  by_cases hdots : IsDots last
  · rw [if_pos hdots]
    rfl
  · rw [walkable_append] at hwalk
    rw [follow_append] at hentry
    have hname : checkName (follow (fs.start p) front ++ [last]) = .ok () :=
      (checkName_concat _ _).mpr (hwalk.2.1.notTooLong hdots)
    have hlast : fs.entryAt? (follow (fs.start p) front ++ [last]) = some .directory := by
      rw [← turn_name hdots]
      exact hentry
    simp only [if_neg hdots, hname, hlast, bind, Except.bind]
    rfl

/-! ## Added directories -/

/-- All that is new are directories, at some of these locations. -/
structure AddsDirectories (trail : List Location) (fs fs' : FileSystem) : Prop where
  workingDirectory : fs'.workingDirectory = fs.workingDirectory
  entry : ∀ l, fs'.entryAt? l = fs.entryAt? l
    ∨ l ∈ trail ∧ fs.entryAt? l = none ∧ fs'.entryAt? l = some .directory

section AddsDirectories

variable {trail trail' : List Location} {f : File}

theorem AddsDirectories.refl (trail : List Location) (fs : FileSystem) :
    AddsDirectories trail fs fs :=
  ⟨rfl, fun _ => .inl rfl⟩

theorem AddsDirectories.trans {fs₁ fs₂ fs₃ : FileSystem} (h : AddsDirectories trail fs₁ fs₂)
    (h' : AddsDirectories trail fs₂ fs₃) : AddsDirectories trail fs₁ fs₃ := by
  refine ⟨h'.workingDirectory.trans h.workingDirectory, fun l => ?_⟩
  rcases h.entry l with heq | ⟨hl, hfree, hnew⟩
  · rw [← heq]
    exact h'.entry l
  · rcases h'.entry l with heq | ⟨-, -, hnew'⟩
    · exact .inr ⟨hl, hfree, heq.trans hnew⟩
    · exact .inr ⟨hl, hfree, hnew'⟩

theorem AddsDirectories.mono (h : AddsDirectories trail fs fs') (hsub : trail ⊆ trail') :
    AddsDirectories trail' fs fs' := by
  refine ⟨h.workingDirectory, fun l => ?_⟩
  rcases h.entry l with heq | ⟨hl, hnew⟩
  · exact .inl heq
  · exact .inr ⟨hsub hl, hnew⟩

theorem AddsDirectories.grows (h : AddsDirectories trail fs fs') : Grows fs fs' where
  workingDirectory := h.workingDirectory
  directory l hl := by
    rcases h.entry l with heq | ⟨-, -, hnew⟩
    · rw [heq, hl]
    · exact hnew
  present l hl := by
    rcases h.entry l with heq | ⟨-, -, hnew⟩
    · rwa [heq]
    · rw [hnew]
      rfl

/-- The files are the same. -/
theorem AddsDirectories.file_iff (h : AddsDirectories trail fs fs') :
    fs'.entryAt? l = some (.file f) ↔ fs.entryAt? l = some (.file f) := by
  rcases h.entry l with heq | ⟨-, hfree, hnew⟩
  · rw [heq]
  · rw [hfree, hnew]
    simp

theorem addsDirectories_createDirectory (h : fs.createDirectory p = .ok fs') :
    AddsDirectories [fs.destination p] fs fs' := by
  obtain ⟨loc, hnames, -, hfree, rfl⟩ := createDirectory_eq_ok_iff.mp h
  refine ⟨rfl, fun l => ?_⟩
  by_cases hl : l = loc
  · subst hl
    rw [← hnames.destination, entryAt?_put_self hnames.ne_nil]
    exact .inr ⟨List.mem_singleton_self l, hfree, rfl⟩
  · exact .inl (entryAt?_put_of_ne hl)

end AddsDirectories

theorem isDirectory_of_createDirectory (h : fs.createDirectory p = .ok fs') :
    fs'.isDirectory p = true := by
  have hgrows := (addsDirectories_createDirectory h).grows
  obtain ⟨loc, hnames, hname, -, rfl⟩ := createDirectory_eq_ok_iff.mp h
  have hthere : (fs.put loc .directory).entryAt? loc = some .directory :=
    entryAt?_put_self hnames.ne_nil
  have hnames' := names_mono hgrows hnames
  refine isDirectory_iff.mpr ⟨hnames'.check, hnames'.walkable_iff.mpr ⟨hname, ?_⟩, ?_⟩
  · rw [hthere]
    rfl
  · rw [← hnames'.destination]
    exact hthere

/-! ## Directories on the way -/

theorem isTooLong_mono {limit : Nat} {cs ds : List Char} (h : cs <+: ds)
    (hds : isTooLong limit ds = false) : isTooLong limit cs = false := by
  obtain ⟨rest, rfl⟩ := h
  unfold isTooLong at *
  rw [decide_eq_false_iff_not, Nat.not_lt] at *
  rw [String.ofList_append, String.utf8ByteSize_append] at hds
  omega

theorem checkPath_eq_ok_iff :
    checkPath p = .ok ()
      ↔ '\x00' ∉ p.text.toList ∧ p.isEmpty = false ∧ isTooLong maxPath p.text.toList = false := by
  unfold checkPath
  split
  · simp [*]
  split
  · simp [*]
  split <;> simp [*]

theorem start_of_prefix (fs : FileSystem) (h : q.text.toList <+: p.text.toList)
    (hq : q.isEmpty = false) : fs.start q = fs.start p := by
  have hne : q.text.toList ≠ [] := by
    intro hnil
    unfold Path.isEmpty at hq
    rw [String.toList_eq_nil_iff.mp hnil] at hq
    simp at hq
  obtain ⟨rest, hrest⟩ := h
  unfold FileSystem.start Path.isAbsolute Path.isAbsoluteText
  rw [← hrest, List.head?_append, List.head?_eq_some_head hne]
  rfl

/-- What leads to a directory that is there, part by part, is a directory as well. -/
theorem isDirectory_of_prefix {front : List (List Char)} (hcheck : checkPath p = .ok ())
    (hwalk : fs.Walkable (fs.start p) front)
    (hdirectory : fs.entryAt? (follow (fs.start p) front) = some .directory)
    (htext : q.text.toList <+: p.text.toList) (hq : q.isEmpty = false)
    (hnames : Path.names q.text.toList <+: front) : fs.isDirectory q = true := by
  obtain ⟨back, rfl⟩ := hnames
  obtain ⟨hfront, hentry⟩ := directory_of_walkable hwalk hdirectory
  rw [← start_of_prefix fs htext hq] at hfront hentry
  obtain ⟨hnul, -, hlength⟩ := checkPath_eq_ok_iff.mp hcheck
  have hcheck' : checkPath q = .ok () := checkPath_eq_ok_iff.mpr
    ⟨fun hmem => hnul (htext.subset hmem), hq, isTooLong_mono htext hlength⟩
  exact isDirectory_iff.mpr ⟨hcheck', hfront, hentry⟩

theorem isDirectory_of_leadsTo (hlead : q.LeadsTo p) (hq : q.isEmpty = false)
    (h : fs.isDirectory p = true) : fs.isDirectory q = true := by
  obtain ⟨hcheck, hwalk, hdirectory⟩ := isDirectory_iff.mp h
  exact isDirectory_of_prefix hcheck hwalk hdirectory hlead.text hq
    (hlead.names.trans (List.dropLast_prefix _))

theorem isDirectory_of_names (hlead : q.LeadsTo p) (hq : q.isEmpty = false)
    (h : fs.Names p loc) : fs.isDirectory q = true := by
  obtain ⟨hcheck, front, last, hnames, -, hwalk, hdirectory, -⟩ := h
  refine isDirectory_of_prefix hcheck hwalk hdirectory hlead.text hq ?_
  have hfront := hlead.names
  rwa [hnames, List.dropLast_concat] at hfront

/-! ## One step after the other -/

theorem createFirst_of_isDirectory (h : fs.isDirectory p = true) (parents : List Path) :
    fs.createFirst (p :: parents) = (fs, .ok ()) := by
  unfold createFirst
  rw [createDirectory_of_isDirectory h]
  unfold createFirst.settle
  simp only [h, ↓reduceIte]

/-- How a directory is settled for: it was created, or was there, or there is an error. -/
theorem settle_cases (h : createFirst.settle fs p (fs.createDirectory p) = (fs', result)) :
    fs'.isDirectory p = true ∧ result = .ok ()
        ∧ (fs.createDirectory p = .ok fs' ∨ fs' = fs)
      ∨ fs' = fs ∧ ∃ fault, fs.createDirectory p = .error fault ∧ result = .error fault := by
  unfold createFirst.settle at h
  split at h
  · rename_i hcreated
    cases h
    exact .inl ⟨isDirectory_of_createDirectory hcreated, rfl, .inl hcreated⟩
  · rename_i hexists
    split at h
    · rename_i hdirectory
      cases h
      exact .inl ⟨hdirectory, rfl, .inr rfl⟩
    · cases h
      exact .inr ⟨rfl, _, hexists, rfl⟩
  · rename_i fault hfault
    cases h
    exact .inr ⟨rfl, _, hfault, rfl⟩

variable {parents : List Path}

theorem createFirst_cons_of_ne (h : fs.createDirectory p ≠ .error .notFound) :
    fs.createFirst (p :: parents) = createFirst.settle fs p (fs.createDirectory p) := by
  rw [createFirst]
  split
  · rename_i hcreated
    rw [hcreated, createFirst.settle]
  · rename_i hmissing
    exact absurd hmissing h
  · rename_i fault _ hfault
    rw [hfault]

theorem createFirst_cons_of_error {fault : Fault} (h : fs.createDirectory p = .error .notFound)
    (hparents : fs.createFirst parents = (fs', .error fault)) :
    fs.createFirst (p :: parents) = (fs', .error fault) := by
  rw [createFirst, h]
  simp only [hparents]

theorem createFirst_cons_of_ok (h : fs.createDirectory p = .error .notFound)
    (hparents : fs.createFirst parents = (fs', .ok ())) :
    fs.createFirst (p :: parents) = createFirst.settle fs' p (fs'.createDirectory p) := by
  rw [createFirst, h]
  simp only [hparents]

/-- Either the parents of a directory cannot be created, or it is settled for after them. -/
theorem createFirst_cases (h : fs.createFirst (p :: parents) = (fs', result)) :
    (∃ fault, fs.createFirst parents = (fs', .error fault) ∧ result = .error fault
        ∧ fs.createDirectory p = .error .notFound)
      ∨ ∃ fs₁, createFirst.settle fs₁ p (fs₁.createDirectory p) = (fs', result)
        ∧ (fs₁ = fs ∧ fs.createDirectory p ≠ .error .notFound
          ∨ fs.createFirst parents = (fs₁, .ok ())) := by
  by_cases hmissing : fs.createDirectory p = .error .notFound
  · cases hparents : fs.createFirst parents with
    | mk fs₁ r =>
      cases r with
      | error fault =>
        rw [createFirst_cons_of_error hmissing hparents] at h
        cases h
        exact .inl ⟨fault, rfl, rfl, hmissing⟩
      | ok u =>
        rw [createFirst_cons_of_ok hmissing hparents] at h
        exact .inr ⟨fs₁, h, .inr rfl⟩
  · rw [createFirst_cons_of_ne hmissing] at h
    exact .inr ⟨fs, h, .inl ⟨rfl, hmissing⟩⟩

/-! ## All of them -/

/-- What is added are directories to which the paths lead. -/
theorem addsDirectories_createFirst (h : fs.createFirst paths = (fs', result)) :
    AddsDirectories (paths.map fs.destination) fs fs' := by
  induction paths generalizing fs' result with
  | nil =>
    cases h
    exact .refl _ _
  | cons p parents ih =>
    have hsub : parents.map fs.destination ⊆ (p :: parents).map fs.destination :=
      List.subset_cons_self _ _
    rcases createFirst_cases h with ⟨fault, hparents, -, -⟩ | ⟨fs₁, hsettle, hbefore⟩
    · exact (ih hparents).mono hsub
    · have hadds : AddsDirectories ((p :: parents).map fs.destination) fs fs₁ := by
        rcases hbefore with ⟨rfl, -⟩ | hparents
        · exact .refl _ _
        · exact (ih hparents).mono hsub
      rcases settle_cases hsettle with ⟨-, -, hcreated | rfl⟩ | ⟨rfl, -⟩
      · have hlast := addsDirectories_createDirectory hcreated
        rw [hadds.grows.destination] at hlast
        exact hadds.trans (hlast.mono (by simp))
      · exact hadds
      · exact hadds

theorem isDirectory_head_of_createFirst (h : fs.createFirst (p :: parents) = (fs', .ok ())) :
    fs'.isDirectory p = true := by
  rcases createFirst_cases h with ⟨fault, -, hresult, -⟩ | ⟨fs₁, hsettle, -⟩
  · cases hresult
  · rcases settle_cases hsettle with ⟨hdirectory, -, -⟩ | ⟨-, fault, -, hresult⟩
    · exact hdirectory
    · cases hresult

theorem isDirectory_of_createFirst (hup : Path.LeadUp paths)
    (h : fs.createFirst paths = (fs', .ok ())) : ∀ q ∈ paths, fs'.isDirectory q = true := by
  intro q hq
  cases paths with
  | nil => cases hq
  | cons p parents =>
    have hp := isDirectory_head_of_createFirst h
    rcases List.mem_cons.mp hq with rfl | hparent
    · exact hp
    · exact isDirectory_of_leadsTo (hup.leadsTo hparent) (hup.notEmpty q hq) hp

theorem createFirst_of_directories (h : ∀ q ∈ paths, fs.isDirectory q = true) :
    fs.createFirst paths = (fs, .ok ()) := by
  cases paths with
  | nil => rfl
  | cons p parents => exact createFirst_of_isDirectory (h p (List.mem_cons_self)) parents

/-- Where the parents of a directory were refused, the directory cannot be created either. -/
theorem createFirst_cons_of_refused {fault : Fault} (hup : Path.LeadUp (p :: parents))
    (hparents : fs.createFirst parents = (fs, .error fault)) :
    ∃ fault', fs.createFirst (p :: parents) = (fs, .error fault') := by
  have hstuck : ¬ ∀ q ∈ parents, fs.isDirectory q = true := by
    intro hall
    rw [createFirst_of_directories hall] at hparents
    cases hparents
  have hno : fs.isDirectory p = true → False := fun hp => hstuck fun q hq =>
    isDirectory_of_leadsTo (hup.leadsTo hq) (hup.tail.notEmpty q hq) hp
  by_cases hmissing : fs.createDirectory p = .error .notFound
  · exact ⟨fault, createFirst_cons_of_error hmissing hparents⟩
  · rw [createFirst_cons_of_ne hmissing]
    cases hsettle : createFirst.settle fs p (fs.createDirectory p) with
    | mk fs₁ r =>
      rcases settle_cases hsettle with ⟨hp, -, hcreated | rfl⟩ | ⟨rfl, fault', -, rfl⟩
      · obtain ⟨loc, hnames, -⟩ := createDirectory_eq_ok_iff.mp hcreated
        exact absurd (fun q hq => isDirectory_of_names (hup.leadsTo hq) (hup.tail.notEmpty q hq)
          hnames) hstuck
      · exact (hno hp).elim
      · exact ⟨fault', rfl⟩

/-- The second time nothing changes, and the outcome is of the same kind. -/
theorem createFirst_again (hup : Path.LeadUp paths) (h : fs.createFirst paths = (fs', result)) :
    ∃ result', fs'.createFirst paths = (fs', result') ∧ (result' = .ok () ↔ result = .ok ()) := by
  induction paths generalizing fs' result with
  | nil =>
    cases h
    exact ⟨.ok (), rfl, Iff.rfl⟩
  | cons p parents ih =>
    rcases createFirst_cases h with ⟨fault, hparents, rfl, -⟩ | ⟨fs₁, hsettle, hbefore⟩
    · obtain ⟨result', hagain, hkind⟩ := ih hup.tail hparents
      cases result' with
      | ok u => simp at hkind
      | error fault₁ =>
        obtain ⟨fault', hall⟩ := createFirst_cons_of_refused hup hagain
        exact ⟨.error fault', hall, by simp⟩
    · rcases settle_cases hsettle with ⟨hp, rfl, -⟩ | ⟨rfl, fault, hfault, rfl⟩
      · exact ⟨.ok (), createFirst_of_isDirectory hp parents, Iff.rfl⟩
      · refine ⟨.error fault, ?_, Iff.rfl⟩
        by_cases hmissing : fs'.createDirectory p = .error .notFound
        · rcases hbefore with ⟨rfl, hne⟩ | hparents
          · exact absurd hmissing hne
          · obtain ⟨result', hagain, hkind⟩ := ih hup.tail hparents
            rw [hkind.mpr rfl] at hagain
            rw [createFirst_cons_of_ok hmissing hagain, hsettle]
        · rw [createFirst_cons_of_ne hmissing, hsettle]

end DialogueBuild.FileSystem
