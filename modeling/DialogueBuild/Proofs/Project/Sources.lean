import DialogueBuild.Project.Sources
import DialogueBuild.Proofs.Glob.Escaping
import DialogueBuild.Proofs.Project.Saving
import Mathlib.Data.List.Sort
/-!
Which files are the sources of a project.

A source is a file that a source pattern finds below the directory of the project, unless an exclude
pattern stands for what is left of its path below that directory. The list of the sources is told by
this alone: it ascends, and paths with the same components count as one.

Results:

1. `pairwise_mergeSame`, `exists_mem_mergeSame_iff`   of sorted paths one of each kind stays;
2. `exists_sources_iff`      there is a list of sources if all patterns can be read;
3. `lists_of_sources`        and it lists the sources;
4. `Lists.unique`            it is the only list that does;
5. `trail_eq_append`         exclude patterns see the rest of a path below the directory;
6. `sources_are_a_set`       all of this together.
-/
namespace DialogueBuild.Project

open Glob (Readable TextFinds FoundBelow)

variable {p p' : Project} {fs : FileSystem} {f q : Path} {files : List Path}

/-! ## One of each kind -/

theorem mergeSame_cons {path next : Path} {rest others : List Path}
    (h : mergeSame rest = next :: others) :
    mergeSame (path :: rest)
      = if path.same next then path :: others else path :: next :: others := by
  rw [mergeSame, h]

theorem mergeSame_cons_of_nil {path : Path} {rest : List Path} (h : mergeSame rest = []) :
    mergeSame (path :: rest) = [path] := by
  rw [mergeSame, h]

theorem mergeSame_sublist (files : List Path) : (mergeSame files).Sublist files := by
  induction files with
  | nil => exact .slnil
  | cons path rest ih =>
    cases hmerged : mergeSame rest with
    | nil =>
      rw [mergeSame_cons_of_nil hmerged]
      exact (List.nil_sublist rest).cons_cons path
    | cons next others =>
      rw [hmerged] at ih
      rw [mergeSame_cons hmerged]
      split
      · exact ((List.sublist_cons_self next others).trans ih).cons_cons path
      · exact ih.cons_cons path

/-- Of sorted paths those that stay ascend. -/
theorem pairwise_mergeSame (h : files.Pairwise fun f q => f.key ≤ q.key) :
    (mergeSame files).Pairwise fun f q => f.key < q.key := by
  induction files with
  | nil => exact .nil
  | cons path rest ih =>
    obtain ⟨hpath, hrest⟩ := List.pairwise_cons.mp h
    have hsublist := mergeSame_sublist rest
    have hstrict := ih hrest
    cases hmerged : mergeSame rest with
    | nil =>
      rw [mergeSame_cons_of_nil hmerged]
      exact List.pairwise_singleton _ _
    | cons next others =>
      rw [hmerged] at hstrict hsublist
      obtain ⟨hnext, hothers⟩ := List.pairwise_cons.mp hstrict
      rw [mergeSame_cons hmerged]
      by_cases hsame : path.same next = true
      · have hkey : path.key = next.key := Path.key_inj.mpr (Path.same_iff.mp hsame)
        rw [if_pos hsame]
        refine List.pairwise_cons.mpr ⟨fun other hother => ?_, hothers⟩
        rw [hkey]
        exact hnext other hother
      · have hkey : path.key ≠ next.key := fun heq =>
          hsame (Path.same_iff.mpr (Path.key_inj.mp heq))
        have hlt : path.key < next.key :=
          lt_of_le_of_ne (hpath next (hsublist.subset List.mem_cons_self)) hkey
        rw [if_neg hsame]
        refine List.pairwise_cons.mpr ⟨fun other hother => ?_, hstrict⟩
        rcases List.mem_cons.mp hother with rfl | hother
        · exact hlt
        · exact hlt.trans (hnext other hother)

/-- Of paths with the same components one stays. -/
theorem exists_mem_mergeSame_iff :
    (∃ f ∈ mergeSame files, f.same q = true) ↔ ∃ f ∈ files, f.same q = true := by
  induction files with
  | nil => rfl
  | cons path rest ih =>
    rw [List.exists_mem_cons_iff, ← ih]
    cases hmerged : mergeSame rest with
    | nil => simp [mergeSame_cons_of_nil hmerged]
    | cons next others =>
      rw [mergeSame_cons hmerged]
      by_cases hsame : path.same next = true
      · have hnext : next.same q = true ↔ path.same q = true := by
          rw [Path.same_iff, Path.same_iff, Path.same_iff.mp hsame]
        rw [if_pos hsame, List.exists_mem_cons_iff, List.exists_mem_cons_iff, hnext, or_self_left]
      · rw [if_neg hsame, List.exists_mem_cons_iff]

/-! ## Patterns of a project -/

/-- All patterns can be read, those of sources component by component. -/
def PatternsValid (p : Project) : Prop :=
  (∀ pattern ∈ p.manifest.excludePatterns, Readable pattern.toList)
    ∧ ∀ pattern ∈ p.manifest.sourcePatterns,
      ∀ part ∈ Path.splitSlashes pattern.toList, Readable part

/-- Below the directory of the project a source pattern finds a path. -/
def PatternFinds (p : Project) (fs : FileSystem) (pattern : String) (f : Path) : Prop :=
  if p.directory.isEmpty then TextFinds fs pattern.toList f
  else FoundBelow fs p.directory pattern.toList f

/-- An exclude pattern stands for what is left of a path below the directory of the project. -/
def PatternExcludes (p : Project) (pattern : String) (f : Path) : Prop :=
  ∃ compiled, Glob.Pattern.ofText pattern.toList = .ok compiled
    ∧ compiled.StandsFor (f.relativeTo p.directory).text.toList

/-- A file that a source pattern finds and that no exclude pattern leaves out. -/
structure IsSource (p : Project) (fs : FileSystem) (f : Path) : Prop where
  file : fs.isFile f = true
  found : ∃ pattern ∈ p.manifest.sourcePatterns, p.PatternFinds fs pattern f
  kept : ∀ pattern ∈ p.manifest.excludePatterns, ¬ p.PatternExcludes pattern f

/-- Paths that ascend, and among which a path is, up to its spelling, if it is a source. -/
structure Lists (p : Project) (fs : FileSystem) (files : List Path) : Prop where
  ascending : files.Pairwise fun f q => f.key < q.key
  mem : ∀ q, (∃ f ∈ files, f.same q = true) ↔ ∃ f, f.same q = true ∧ p.IsSource fs f

theorem excludes_eq_ok_iff {compiled : List Glob.Pattern} :
    p.excludes = .ok compiled
      ↔ p.manifest.excludePatterns.mapM (fun pattern => Glob.Pattern.ofText pattern.toList)
        = .ok compiled := by
  unfold excludes
  rw [mapM_eq_ok, mapM_eq_ok]
  refine ⟨fun h => h.imp fun pattern c hc => ?_, fun h => h.imp fun pattern c hc => ?_⟩
  · split at hc
    · rename_i hread
      cases hc
      exact hread
    · cases hc
  · rw [hc]

theorem filesOf_eq_ok_iff {compiled : List Glob.Pattern} {pattern : String} :
    p.filesOf fs compiled pattern = .ok files
      ↔ ∃ found, Glob.files fs (p.placed pattern) = .ok found
        ∧ files = found.filter fun path => !p.isExcluded compiled path := by
  unfold filesOf
  cases hfiles : Glob.files fs (p.placed pattern) <;> simp [eq_comm]

theorem sources_eq_ok_iff :
    p.sources fs = .ok files
      ↔ ∃ compiled, p.excludes = .ok compiled
        ∧ ∃ found, p.manifest.sourcePatterns.mapM (p.filesOf fs compiled) = .ok found
        ∧ files = mergeSame (found.flatten.mergeSort Path.le) := by
  unfold sources
  rw [bind_eq_ok]
  refine exists_congr fun compiled => and_congr_right fun _ => ?_
  rw [bind_eq_ok]
  refine exists_congr fun found => and_congr_right fun _ => ⟨fun h => ?_, fun h => ?_⟩
  · cases h
    rfl
  · rw [h]
    rfl

theorem exists_files_placed_iff {pattern : String} :
    (∃ found, Glob.files fs (p.placed pattern) = .ok found)
      ↔ ∀ part ∈ Path.splitSlashes pattern.toList, Readable part := by
  rw [Glob.exists_files_iff, placed]
  split
  · rfl
  · rw [Glob.splitSlashes_placed, List.forall_mem_append, and_iff_right]
    intro _ hescaped
    obtain ⟨part, -, rfl⟩ := List.mem_map.mp hescaped
    exact ⟨_, Glob.ofText_escape part⟩

theorem mem_files_placed_iff {pattern : String} {found : List Path} (hnames : fs.WellNamed)
    (h : Glob.files fs (p.placed pattern) = .ok found) :
    f ∈ found ↔ fs.isFile f = true ∧ p.PatternFinds fs pattern f := by
  rw [Glob.mem_files_iff hnames h, PatternFinds, placed]
  refine and_congr_right fun hf => ?_
  split
  · rfl
  · rename_i hdirectory
    exact Glob.textFinds_placed_iff (Bool.eq_false_iff.mpr hdirectory) hf

theorem isExcluded_iff {compiled : List Glob.Pattern} (h : p.excludes = .ok compiled) :
    p.isExcluded compiled f = true
      ↔ ∃ pattern ∈ p.manifest.excludePatterns, p.PatternExcludes pattern f := by
  unfold isExcluded
  rw [List.any_eq_true]
  simp only [Glob.Pattern.accepts_iff]
  exact exists_mem_mapM_iff (excludes_eq_ok_iff.mp h)

/-! ## Lists of sources -/

theorem mem_flatten_iff {compiled : List Glob.Pattern} {found : List (List Path)}
    (hnames : fs.WellNamed) (hexcludes : p.excludes = .ok compiled)
    (hfound : p.manifest.sourcePatterns.mapM (p.filesOf fs compiled) = .ok found) :
    f ∈ found.flatten ↔ p.IsSource fs f := by
  rw [List.mem_flatten, exists_mem_mapM_iff hfound]
  simp only [filesOf_eq_ok_iff]
  constructor
  · rintro ⟨pattern, hpattern, _, ⟨all, hall, rfl⟩, hf⟩
    obtain ⟨hf, hkept⟩ := List.mem_filter.mp hf
    obtain ⟨hfile, hfinds⟩ := (mem_files_placed_iff hnames hall).mp hf
    refine ⟨hfile, ⟨pattern, hpattern, hfinds⟩, fun exclude hexclude hout => ?_⟩
    rw [(isExcluded_iff hexcludes).mpr ⟨exclude, hexclude, hout⟩] at hkept
    cases hkept
  · rintro ⟨hfile, ⟨pattern, hpattern, hfinds⟩, hkept⟩
    obtain ⟨_, hread⟩ := exists_forall₂_iff.mp ⟨found, mapM_eq_ok.mp hfound⟩ pattern hpattern
    obtain ⟨all, hall, -⟩ := filesOf_eq_ok_iff.mp hread
    refine ⟨pattern, hpattern, _, ⟨all, hall, rfl⟩, List.mem_filter.mpr
      ⟨(mem_files_placed_iff hnames hall).mpr ⟨hfile, hfinds⟩, ?_⟩⟩
    rw [Bool.not_eq_true', ← Bool.not_eq_true, isExcluded_iff hexcludes]
    rintro ⟨exclude, hexclude, hout⟩
    exact hkept exclude hexclude hout

/-- There is a list of sources if all patterns can be read. -/
theorem exists_sources_iff : (∃ files, p.sources fs = .ok files) ↔ p.PatternsValid := by
  have hexcludes : (∃ compiled, p.excludes = .ok compiled)
      ↔ ∀ pattern ∈ p.manifest.excludePatterns, Readable pattern.toList := by
    simp only [excludes_eq_ok_iff, mapM_eq_ok]
    exact exists_forall₂_iff
  have hsources (compiled : List Glob.Pattern) :
      (∃ found, p.manifest.sourcePatterns.mapM (p.filesOf fs compiled) = .ok found)
        ↔ ∀ pattern ∈ p.manifest.sourcePatterns,
          ∀ part ∈ Path.splitSlashes pattern.toList, Readable part := by
    simp only [mapM_eq_ok, exists_forall₂_iff, filesOf_eq_ok_iff]
    refine forall₂_congr fun pattern _ => ?_
    have hplaced : (∃ all, Glob.files fs (p.placed pattern) = .ok all)
        ↔ ∀ part ∈ Path.splitSlashes pattern.toList, Readable part := exists_files_placed_iff
    rw [← hplaced]
    exact ⟨fun ⟨_, all, hall, _⟩ => ⟨all, hall⟩, fun ⟨all, hall⟩ => ⟨_, all, hall, rfl⟩⟩
  unfold PatternsValid
  rw [← hexcludes]
  constructor
  · rintro ⟨files, h⟩
    obtain ⟨compiled, hcompiled, found, hfound, -⟩ := sources_eq_ok_iff.mp h
    exact ⟨⟨compiled, hcompiled⟩, (hsources compiled).mp ⟨found, hfound⟩⟩
  · rintro ⟨⟨compiled, hcompiled⟩, hreadable⟩
    obtain ⟨found, hfound⟩ := (hsources compiled).mpr hreadable
    exact ⟨_, sources_eq_ok_iff.mpr ⟨compiled, hcompiled, found, hfound, rfl⟩⟩

/-- Otherwise the project is at fault. -/
theorem sources_error (h : ¬ p.PatternsValid) :
    ∃ fault, p.sources fs = .error (.project p.path fault) := by
  cases hsources : p.sources fs with
  | ok files => exact absurd (exists_sources_iff.mp ⟨files, hsources⟩) h
  | error failure =>
    unfold sources excludes at hsources
    rcases bind_eq_error.mp hsources with hexcludes | ⟨compiled, -, hfiles⟩
    · obtain ⟨_, pattern, _, -, -, hpattern⟩ := mapM_eq_error.mp hexcludes
      split at hpattern
      · cases hpattern
      · cases hpattern
        exact ⟨_, rfl⟩
    · rcases bind_eq_error.mp hfiles with hfiles | ⟨found, -, hreturn⟩
      · obtain ⟨_, pattern, _, -, -, hpattern⟩ := mapM_eq_error.mp hfiles
        unfold filesOf at hpattern
        split at hpattern
        · cases hpattern
        · cases hpattern
          exact ⟨_, rfl⟩
      · cases hreturn

/-- What is listed are the sources. -/
theorem lists_of_sources (hnames : fs.WellNamed) (h : p.sources fs = .ok files) :
    p.Lists fs files := by
  obtain ⟨compiled, hcompiled, found, hfound, rfl⟩ := sources_eq_ok_iff.mp h
  have hsorted := List.pairwise_mergeSort Path.le_trans Path.le_or_le found.flatten
  refine ⟨pairwise_mergeSame (hsorted.imp Path.le_iff.mp), fun q => ?_⟩
  simp only [exists_mem_mergeSame_iff, List.mem_mergeSort, mem_flatten_iff hnames hcompiled hfound]
  exact ⟨fun ⟨f, hf, hsame⟩ => ⟨f, hsame, hf⟩, fun ⟨f, hsame, hf⟩ => ⟨f, hf, hsame⟩⟩

/-- There is one list of sources, up to the spelling of paths. -/
theorem Lists.unique {files' : List Path} (h : p.Lists fs files) (h' : p'.Lists fs files')
    (hsources : ∀ f, p.IsSource fs f ↔ p'.IsSource fs f) :
    files.map Path.components = files'.map Path.components := by
  have hmem {files : List Path} (k : List (List Nat)) :
      k ∈ files.map Path.key ↔ ∃ q : Path, q.key = k ∧ ∃ f ∈ files, f.same q = true := by
    simp only [List.mem_map, Path.same_iff, ← Path.key_inj]
    exact ⟨fun ⟨f, hf, hk⟩ => ⟨f, hk, f, hf, rfl⟩, fun ⟨q, hq, f, hf, hk⟩ => ⟨f, hf, hk.trans hq⟩⟩
  have hkeys : files.map Path.key = files'.map Path.key := by
    refine List.Pairwise.eq_of_mem_iff (List.pairwise_map.mpr h.ascending)
      (List.pairwise_map.mpr h'.ascending) fun k => ?_
    simp only [hmem, h.mem, h'.mem, hsources]
  have hcomponents {files : List Path} :
      files.map Path.key = (files.map Path.components).map (List.map Path.Component.key) := by
    rw [List.map_map]
    rfl
  rw [hcomponents, hcomponents] at hkeys
  exact List.map_injective_iff.mpr (List.map_injective_iff.mpr Path.Component.key_injective) hkeys

/-! ## Projects in one place -/

theorem directory_eq_of_path (h : p'.path = p.path) : p'.directory = p.directory := by
  unfold directory
  rw [h]

/-- With more source patterns and fewer exclude patterns no source is lost. -/
theorem IsSource.mono (hf : p.IsSource fs f) (hpath : p'.path = p.path)
    (hfound : p.manifest.sourcePatterns ⊆ p'.manifest.sourcePatterns)
    (hkept : p'.manifest.excludePatterns ⊆ p.manifest.excludePatterns) : p'.IsSource fs f := by
  have hdirectory := directory_eq_of_path hpath
  refine ⟨hf.file, ?_, fun pattern hpattern hout => hf.kept pattern (hkept hpattern) ?_⟩
  · obtain ⟨pattern, hpattern, hfinds⟩ := hf.found
    refine ⟨pattern, hfound hpattern, ?_⟩
    unfold PatternFinds at *
    rwa [hdirectory]
  · unfold PatternExcludes at *
    rwa [hdirectory] at hout

/-- What is left of a path below the directory of the project is the rest of its trail, if the path
of the directory does not start with a `.` or is the working directory. -/
theorem trail_eq_append {pattern : String} (h : p.PatternFinds fs pattern f)
    (hdirectory : p.directory.components = [.here]
      ∨ p.directory.components.head? ≠ some .here) :
    f.trail = p.directory.trail ++ (f.relativeTo p.directory).trail := by
  unfold PatternFinds at h
  split at h
  · rename_i hempty
    have hnil : p.directory.components = [] := by
      unfold Path.components
      rw [String.isEmpty_iff.mp hempty]
      rfl
    rw [Path.relativeTo_of_components_nil hnil, Path.trail, Path.trail, hnil]
    rfl
  · rename_i hempty
    rcases hdirectory with hhere | hhere
    · rw [Path.trail_relativeTo_here hhere, Path.trail.eq_1 p.directory, hhere]
      rfl
    · have hne : p.directory.isEmpty = false := Bool.eq_false_iff.mpr hempty
      obtain ⟨rest, hrest⟩ := h.components_prefix hne hhere
      unfold Path.trail
      rw [Path.components_relativeTo (Path.components_ne_nil hne) hrest.symm, ← hrest,
        List.filter_append]

/-- Below any other directory nothing is taken off the path, which is written without the `.`. -/
theorem relativeTo_directory_eq_self {pattern : String} (h : p.PatternFinds fs pattern f)
    (hhere : p.directory.components.head? = some .here) (hmore : p.directory.components ≠ [.here]) :
    f.relativeTo p.directory = f := by
  unfold PatternFinds at h
  split at h
  · rename_i hempty
    unfold Path.components at hhere
    rw [String.isEmpty_iff.mp hempty] at hhere
    cases hhere
  · exact Path.relativeTo_of_head? hhere (h.head?_components hhere hmore)

/-- The list of the sources is a set of files. Patterns that cannot be read are a fault of the
project, which then has no list. Otherwise the list ascends and holds, up to the spelling of paths,
the files that a source pattern finds below the directory of the project, without those for whose
paths below it an exclude pattern stands. Where the path of the directory starts with a `.` and goes
on, exclude patterns stand for whole paths instead. Neither the order of the patterns matters nor
how often they are there, a further source pattern takes no file away, and a further exclude pattern
adds none. -/
theorem sources_are_a_set (p : Project) (fs : FileSystem) (hnames : fs.WellNamed) :
    (¬ p.PatternsValid → ∃ fault, p.sources fs = .error (.project p.path fault))
    ∧ (p.PatternsValid → ∃ files, p.sources fs = .ok files ∧ p.Lists fs files
      ∧ (∀ pattern f, p.PatternFinds fs pattern f →
        (p.directory.components = [.here] ∨ p.directory.components.head? ≠ some .here →
          f.trail = p.directory.trail ++ (f.relativeTo p.directory).trail)
        ∧ (p.directory.components.head? = some .here → p.directory.components ≠ [.here] →
          f.relativeTo p.directory = f))
      ∧ ∀ p' : Project, p'.path = p.path → p'.PatternsValid →
        ∃ files', p'.sources fs = .ok files'
        ∧ (p.manifest.sourcePatterns ⊆ p'.manifest.sourcePatterns →
            p'.manifest.excludePatterns ⊆ p.manifest.excludePatterns →
            ∀ f ∈ files, ∃ f' ∈ files', f'.same f = true)
        ∧ ((∀ pattern, pattern ∈ p'.manifest.sourcePatterns
              ↔ pattern ∈ p.manifest.sourcePatterns) →
            (∀ pattern, pattern ∈ p'.manifest.excludePatterns
              ↔ pattern ∈ p.manifest.excludePatterns) →
            files'.map Path.components = files.map Path.components)) := by
  refine ⟨sources_error, fun hvalid => ?_⟩
  obtain ⟨files, hfiles⟩ := exists_sources_iff.mpr hvalid
  have hlists := lists_of_sources hnames hfiles
  refine ⟨files, hfiles, hlists,
    fun _ _ h => ⟨trail_eq_append h, relativeTo_directory_eq_self h⟩, ?_⟩
  intro p' hpath hvalid'
  obtain ⟨files', hfiles'⟩ := exists_sources_iff.mpr hvalid'
  have hlists' := lists_of_sources hnames hfiles'
  refine ⟨files', hfiles', fun hfound hkept f hf => ?_, fun hfound hkept => ?_⟩
  · obtain ⟨f', hsame, hf'⟩ := (hlists.mem f).mp ⟨f, hf, Path.same_iff.mpr rfl⟩
    exact (hlists'.mem f).mpr ⟨f', hsame, hf'.mono hpath hfound hkept⟩
  · refine hlists'.unique hlists fun f => ⟨fun h => ?_, fun h => ?_⟩
    · exact h.mono hpath.symm (fun _ => (hfound _).mp) fun _ => (hkept _).mpr
    · exact h.mono hpath (fun _ => (hfound _).mpr) fun _ => (hkept _).mp

/-- A directory whose name is a set of characters is found all the same. -/
theorem sources_are_a_set_bracketed :
    let manifest : Manifest :=
      { Manifest.new false with sourcePatterns := ["*.yarn"], excludePatterns := ["b*"] }
    let p : Project := ⟨manifest, ⟨"[x]/G.yarnproject"⟩⟩
    let fs : FileSystem :=
      ⟨[(["[x]".toList], .directory), (["[x]".toList, "a.yarn".toList], .file (.ofText "")),
          (["[x]".toList, "b.yarn".toList], .file (.ofText ""))], by decide, []⟩
    fs.WellNamed ∧ p.PatternsValid
      ∧ ∃ files, p.sources fs = .ok files ∧ p.Lists fs files
        ∧ ∃ f ∈ files, f.same ⟨"[x]/a.yarn"⟩ = true := by
  intro manifest p fs
  have hnames : fs.WellNamed := by decide
  have hvalid : p.PatternsValid := by
    refine ⟨fun pattern h => ?_, fun pattern h part hpart => ?_⟩
    · rw [List.mem_singleton.mp h]
      exact ⟨_, rfl⟩
    · rw [List.mem_singleton.mp h, Path.splitSlashes, Text.split_of_notMem (by decide)] at hpart
      rw [List.mem_singleton.mp hpart]
      exact ⟨_, rfl⟩
  obtain ⟨files, hfiles, hlists, -⟩ := (sources_are_a_set p fs hnames).2 hvalid
  have hdirectory : p.directory = ⟨"[x]"⟩ := by decide
  have hfinds : FoundBelow fs ⟨"[x]"⟩ "*.yarn".toList ⟨"[x]/a.yarn"⟩ := by
    have hstands : Glob.Pattern.StandsFor (.anyRun :: Glob.literal ".yarn".toList)
        "a.yarn".toList := (Glob.Pattern.accepts_iff _ _).mp (by decide)
    have hentry : Glob.Finds fs [.anyRun :: Glob.literal ".yarn".toList] ⟨"[x]"⟩
        (Glob.inside ⟨"[x]"⟩ "a.yarn".toList) :=
      .name rfl (by decide) (by decide) (by decide) hstands (.done _)
    have htexts : Glob.componentTexts "[x]".toList = ["[x]".toList] := by decide
    have hpath : Glob.inside ⟨"[x]"⟩ "a.yarn".toList = ⟨"[x]/a.yarn"⟩ := by decide
    have hhere : Glob.inside Glob.here "[x]".toList = ⟨"[x]"⟩ := by decide
    have hleads : Glob.leads fs Glob.here "[x]".toList = true := by decide
    rw [hpath, ← hhere] at hentry
    refine ⟨[.anyRun :: Glob.literal ".yarn".toList], by decide, ?_⟩
    rw [htexts]
    exact Glob.finds_literal_iff.mpr ⟨by decide, hleads, hentry⟩
  have hsource : p.IsSource fs ⟨"[x]/a.yarn"⟩ := by
    refine ⟨by decide, ⟨"*.yarn", List.mem_singleton_self _, ?_⟩, fun pattern h => ?_⟩
    · rw [PatternFinds, hdirectory, if_neg (by decide)]
      exact hfinds
    · rw [List.mem_singleton.mp h]
      rintro ⟨compiled, hcompiled, hstands⟩
      cases hcompiled
      rw [← Glob.Pattern.accepts_iff] at hstands
      exact absurd hstands (by decide)
  exact ⟨hnames, hvalid, files, hfiles, hlists, (hlists.mem _).mpr ⟨_, by decide, hsource⟩⟩

/-- Below a directory whose path starts with a `.` and goes on, a file stays in the list although an
exclude pattern stands for what is left of its path. -/
theorem exists_excluded_source :
    let manifest : Manifest :=
      { Manifest.new false with sourcePatterns := ["a.yarn"], excludePatterns := ["a.yarn"] }
    let p : Project := ⟨manifest, ⟨"./x/G.yarnproject"⟩⟩
    let fs : FileSystem :=
      ⟨[(["x".toList], .directory), (["x".toList, "a.yarn".toList], .file (.ofText "")),
          (["x".toList, "G.yarnproject".toList], .file (.ofText manifest.text))], by decide, []⟩
    let f : Path := ⟨"x/a.yarn"⟩
    let rest : Path := ⟨"a.yarn"⟩
    fs.WellNamed ∧ load fs ⟨"./x/G.yarnproject"⟩ = .ok p ∧ p.PatternsValid
      ∧ p.sources fs = .ok [f] ∧ f.trail = p.directory.trail ++ rest.trail
      ∧ ∃ pattern ∈ p.manifest.excludePatterns, ∃ compiled,
        Glob.Pattern.ofText pattern.toList = .ok compiled
          ∧ compiled.StandsFor rest.text.toList := by
  intro manifest p fs f rest
  have hload : load fs ⟨"./x/G.yarnproject"⟩ = .ok p := by
    have hsound : manifest.Sound := Manifest.sound_new false
    have htext := FileSystem.readText_of_lookup
      (show fs.lookup ⟨"./x/G.yarnproject"⟩ = .ok (.file (.ofText manifest.text)) from rfl)
    exact load_eq_ok_iff.mpr ⟨_, htext, Manifest.ofText_text hsound nofun, rfl⟩
  have hread : Glob.Pattern.ofText "a.yarn".toList = .ok (Glob.literal "a.yarn".toList) := by decide
  have hfiles : Glob.files fs (p.placed "a.yarn") = .ok [f] := by decide
  have hlisted : p.sources fs = .ok [f] := by
    refine sources_eq_ok_iff.mpr ⟨[Glob.literal "a.yarn".toList], ?_, [[f]], ?_, ?_⟩
    · exact excludes_eq_ok_iff.mpr (mapM_eq_ok.mpr (.cons hread .nil))
    · exact mapM_eq_ok.mpr (.cons (filesOf_eq_ok_iff.mpr ⟨[f], hfiles, by decide⟩) .nil)
    · simp [mergeSame]
  refine ⟨by decide, hload, exists_sources_iff.mp ⟨_, hlisted⟩, hlisted, by decide, "a.yarn",
    List.mem_singleton_self _, _, hread, ?_⟩
  exact (Glob.Pattern.accepts_iff _ _).mp (by decide)

end DialogueBuild.Project
