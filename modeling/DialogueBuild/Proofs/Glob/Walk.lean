import DialogueBuild.Proofs.Glob.Finding
/-!
The files to which the walk of a pattern comes.

The walk lists directories, and below `**` everything in them. It comes to the same files as the
components of the pattern do one after the other.

Results:

1. `mem_expand_iff`     the walk comes to the files that some components find;
2. `exists_files_iff`   a pattern has files if its components can be read;
3. `mem_files_iff`      and these are the files that it finds.
-/
namespace DialogueBuild.Glob

open FileSystem

variable {fs : FileSystem} {d q : Path} {n : List Char} {ps : List Pattern}

/-! ## Walks -/

theorem mem_entriesIn_iff {path : Path} (hd : fs.isDirectory d = true) :
    (path, n) ∈ entriesIn fs d
      ↔ path = inside d n ∧ (fs.entryAt? (fs.destination d ++ [n])).isSome := by
  unfold entriesIn
  rw [locate_of_isDirectory hd]
  simp only [List.mem_map, Prod.mk.injEq]
  constructor
  · rintro ⟨_, hmem, rfl, rfl⟩
    exact ⟨rfl, mem_names_iff.mp hmem⟩
  · rintro ⟨rfl, hentry⟩
    exact ⟨n, mem_names_iff.mpr hentry, rfl, rfl⟩

theorem mem_entriesBelow_iff {path : Path} (hd : fs.isDirectory d = true) :
    (path, n) ∈ entriesBelow fs d
      ↔ ∃ names, path = inside (names.foldl inside d) n
        ∧ (fs.entryAt? (fs.destination d ++ (names ++ [n]))).isSome := by
  unfold entriesBelow
  rw [locate_of_isDirectory hd]
  simp only [List.mem_map, Prod.mk.injEq, mem_below_iff]
  constructor
  · rintro ⟨_, ⟨names, hne, rfl, hentry⟩, hpath, hlast⟩
    rcases List.eq_nil_or_concat' names with hnil | ⟨front, last, rfl⟩
    · exact absurd hnil hne
    · rw [List.drop_left, List.foldl_append] at hpath
      rw [← List.append_assoc, List.getLast?_concat, Option.getD_some] at hlast
      subst hlast
      exact ⟨front, hpath.symm, hentry⟩
  · rintro ⟨names, rfl, hentry⟩
    refine ⟨_, ⟨_, List.concat_ne_nil _ _, rfl, hentry⟩, ?_, ?_⟩
    · rw [List.drop_left, List.foldl_append]
      rfl
    · rw [← List.append_assoc, List.getLast?_concat]
      rfl

theorem mem_dotPaths_iff {p : Pattern} {path : Path} :
    path ∈ dotPaths d p ↔ p.head? = some (.char '.') ∧ ∃ n, IsDots n ∧ p.StandsFor n
      ∧ path = d.join ⟨String.ofList n⟩ := by
  unfold dotPaths IsDots
  split
  · rename_i hstart
    simp only [List.mem_map, List.mem_filter, List.mem_cons, List.not_mem_nil, or_false,
      Pattern.accepts_iff, hstart, true_and, and_assoc]
    constructor
    · rintro ⟨name, hname, hstands, rfl⟩
      exact ⟨name, hname.symm, hstands, rfl⟩
    · rintro ⟨name, hname, hstands, rfl⟩
      exact ⟨name, hname.symm, hstands, rfl⟩
  · rename_i hstart
    simp [hstart]

theorem mem_expand_literal {p : Pattern} {name : List Char} (hliteral : p.literal? = some name) :
    q ∈ expand fs (p :: ps) d ↔ leads fs d name = true ∧ q ∈ expand fs ps (inside d name) := by
  rw [expand]
  simp only [hliteral]
  split
  · rename_i hleads
    rw [and_iff_right hleads]
  · rename_i hleads
    simp [hleads]

theorem mem_ite_accepts {p : Pattern} {paths : List Path} :
    q ∈ (if p.accepts n = true then paths else []) ↔ p.StandsFor n ∧ q ∈ paths := by
  rw [← Pattern.accepts_iff]
  split <;> simp_all

theorem mem_expand_wild {p : Pattern} (hwild : p.literal? = none)
    (hsingle : p.isAnyDirectories = false) :
    q ∈ expand fs (p :: ps) d ↔ fs.isDirectory d = true
      ∧ ((p.head? = some (.char '.') ∧ ∃ n, IsDots n ∧ p.StandsFor n
          ∧ q ∈ expand fs ps (d.join ⟨String.ofList n⟩))
        ∨ ∃ n, (fs.entryAt? (fs.destination d ++ [n])).isSome ∧ p.StandsFor n
          ∧ q ∈ expand fs ps (inside d n)) := by
  rw [expand]
  simp only [hwild, hsingle, Bool.false_eq_true, if_false]
  by_cases hd : fs.isDirectory d = true
  · simp only [hd, Bool.not_true, Bool.false_eq_true, if_false, true_and, List.mem_append,
      List.mem_flatMap, mem_dotPaths_iff, Prod.exists, mem_entriesIn_iff hd, mem_ite_accepts]
    refine or_congr ?_ ?_
    · constructor
      · rintro ⟨_, ⟨hstart, n, hdots, hstands, rfl⟩, hq⟩
        exact ⟨hstart, n, hdots, hstands, hq⟩
      · rintro ⟨hstart, n, hdots, hstands, hq⟩
        exact ⟨_, ⟨hstart, n, hdots, hstands, rfl⟩, hq⟩
    · constructor
      · rintro ⟨_, n, ⟨rfl, hentry⟩, hstands, hq⟩
        exact ⟨n, hentry, hstands, hq⟩
      · rintro ⟨n, hentry, hstands, hq⟩
        exact ⟨_, n, ⟨rfl, hentry⟩, hstands, hq⟩
  · simp [hd]

theorem mem_expand_anyDirectories {p : Pattern} (hwild : p.literal? = none)
    (hany : p.isAnyDirectories = true) :
    q ∈ expand fs (p :: ps) d ↔ fs.isDirectory d = true ∧ q ∈ expandBelow fs ps d := by
  rw [expand]
  simp only [hwild, hany, if_true]
  by_cases hd : fs.isDirectory d = true <;> simp [hd]

theorem mem_expandBelow_single {p : Pattern} (hsingle : p.isAnyDirectories = false)
    (hd : fs.isDirectory d = true) :
    q ∈ expandBelow fs (p :: ps) d
      ↔ ∃ names n, (fs.entryAt? (fs.destination d ++ (names ++ [n]))).isSome ∧ p.StandsFor n
        ∧ q ∈ expand fs ps (inside (names.foldl inside d) n) := by
  rw [expandBelow]
  simp only [hsingle, Bool.false_eq_true, if_false, List.mem_flatMap, Prod.exists,
    mem_entriesBelow_iff hd, mem_ite_accepts]
  constructor
  · rintro ⟨_, n, ⟨names, rfl, hentry⟩, hstands, hq⟩
    exact ⟨names, n, hentry, hstands, hq⟩
  · rintro ⟨names, n, hentry, hstands, hq⟩
    exact ⟨_, n, ⟨names, rfl, hentry⟩, hstands, hq⟩

theorem literal?_of_isAnyDirectories {p : Pattern} (h : p.isAnyDirectories = true) :
    p.literal? = none := by
  rw [Option.eq_none_iff_forall_ne_some]
  intro name hliteral
  rw [literal?_eq_some_iff.mp hliteral, Pattern.isAnyDirectories, List.contains_iff_mem] at h
  obtain ⟨c, -, hc⟩ := List.mem_map.mp h
  cases hc

/-- The walk comes to nothing but what the components find. -/
theorem finds_of_mem_expand (hnames : fs.WellNamed) (hps : ∀ p ∈ ps, .char '/' ∉ p)
    (hq : fs.isFile q = true) :
    (∀ d, q ∈ expand fs ps d → Finds fs ps d q)
      ∧ ∀ p d, p.isAnyDirectories = true → fs.isDirectory d = true → q ∈ expandBelow fs ps d →
        Finds fs (p :: ps) d q := by
  -- both walks at once, since the one below a directory goes on with the other behind a name
  induction ps with
  | nil =>
    refine ⟨fun d h => ?_, fun p d _ _ h => ?_⟩
    · rw [List.mem_singleton.mp h]
      exact .done _
    · rw [expandBelow, List.mem_filter, not_isDirectory_of_isFile hq] at h
      exact absurd h.2 Bool.false_ne_true
  | cons p ps ih =>
    rw [List.forall_mem_cons] at hps
    obtain ⟨ih, ihBelow⟩ := ih hps.2
    refine ⟨fun d h => ?_, fun p₀ d hany₀ hd h => ?_⟩
    · cases hliteral : p.literal? with
      | some name =>
        obtain ⟨hleads, h⟩ := (mem_expand_literal hliteral).mp h
        exact .literal hliteral (slash_notMem_of_literal? hps.1 hliteral) hleads (ih _ h)
      | none =>
        cases hany : p.isAnyDirectories with
        | true =>
          obtain ⟨hd, h⟩ := (mem_expand_anyDirectories hliteral hany).mp h
          exact ihBelow p d hany hd h
        | false =>
          obtain ⟨hd, ⟨hstart, n, hdots, hstands, h⟩ | ⟨n, hentry, hstands, h⟩⟩ :=
            (mem_expand_wild hliteral hany).mp h
          · exact .dots hliteral hany hd hdots hstart hstands (ih _ h)
          · exact .name hliteral hany hd (hnames.isName hentry List.mem_cons_self) hstands (ih _ h)
    · cases hany : p.isAnyDirectories with
      | true =>
        rw [expandBelow, if_pos hany] at h
        exact .again hany₀ hany (ihBelow p d hany hd h)
      | false =>
        obtain ⟨names, n, hentry, hstands, h⟩ := (mem_expandBelow_single hany hd).mp h
        have hall : ∀ m ∈ names ++ [n], IsName m := fun m hm => hnames.isName hentry hm
        rw [List.forall_mem_append, List.forall_mem_singleton] at hall
        exact .deeper hany₀ hany hd hall.1 hall.2 hstands (ih _ h)

theorem isEmpty_foldl_inside {names : List (List Char)} (hd : d.isEmpty = false)
    (hnames : ∀ n ∈ names, IsName n) : (names.foldl inside d).isEmpty = false := by
  induction names generalizing d with
  | nil => exact hd
  | cons n rest ih =>
    rw [List.forall_mem_cons] at hnames
    exact ih (leaves_inside hd hnames.1).notEmpty hnames.2

theorem destination_foldl_inside {names : List (List Char)} (hd : d.isEmpty = false)
    (hnames : ∀ n ∈ names, IsName n) :
    fs.destination (names.foldl inside d) = fs.destination d ++ names := by
  induction names generalizing d with
  | nil => exact (List.append_nil _).symm
  | cons n rest ih =>
    rw [List.forall_mem_cons] at hnames
    rw [List.foldl_cons, ih (leaves_inside hd hnames.1).notEmpty hnames.2,
      destination_inside fs hd hnames.1, List.append_assoc]
    rfl

/-- Where a file is found behind a name there is an entry with this name. -/
theorem Finds.entry (h : Finds fs ps (inside d n) q) (hq : fs.isFile q = true)
    (hd : d.isEmpty = false) (hn : IsName n) :
    (fs.entryAt? (fs.destination d ++ [n])).isSome := by
  -- the path of the entry is there because the file is, and it leads to the entry
  have hcheck := h.check (leaves_inside hd hn) hq
  obtain ⟨e, he⟩ := isPresent_iff.mp (h.isPresent hcheck (isPresent_of_isFile hq))
  rw [← destination_inside fs hd hn, (lookup_eq_ok_iff.mp he).2.2]
  rfl

/-- The walk misses nothing that the components find. -/
theorem Finds.mem_expand (h : Finds fs ps d q) (hq : fs.isFile q = true) :
    q ∈ expand fs ps d := by
  have hempty : ∀ {d : Path}, fs.isDirectory d = true → d.isEmpty = false := fun hd =>
    isEmpty_of_checkPath (checkPath_of_isPresent (isPresent_of_isDirectory hd))
  induction h with
  | done path => exact List.mem_cons_self
  | literal hliteral _ hleads _ ih => exact (mem_expand_literal hliteral).mpr ⟨hleads, ih hq⟩
  | name hwild hsingle hd hname hstands h ih =>
    exact (mem_expand_wild hwild hsingle).mpr
      ⟨hd, .inr ⟨_, h.entry hq (hempty hd) hname, hstands, ih hq⟩⟩
  | dots hwild hsingle hd hdots hstart hstands _ ih =>
    exact (mem_expand_wild hwild hsingle).mpr ⟨hd, .inl ⟨hstart, _, hdots, hstands, ih hq⟩⟩
  | deeper hany hsingle hd hnames hname hstands h ih =>
    refine (mem_expand_anyDirectories (literal?_of_isAnyDirectories hany) hany).mpr
      ⟨hd, (mem_expandBelow_single hsingle hd).mpr ⟨_, _, ?_, hstands, ih hq⟩⟩
    have hentry := h.entry hq (isEmpty_foldl_inside (hempty hd) hnames) hname
    rwa [destination_foldl_inside (hempty hd) hnames, List.append_assoc] at hentry
  | again hany hagain _ ih =>
    have hmem := ih hq
    rw [mem_expand_anyDirectories (literal?_of_isAnyDirectories hagain) hagain] at hmem
    refine (mem_expand_anyDirectories (literal?_of_isAnyDirectories hany) hany).mpr ⟨hmem.1, ?_⟩
    rw [expandBelow, if_pos hagain]
    exact hmem.2

/-- The walk comes to the files that some components find. -/
theorem mem_expand_iff (hnames : fs.WellNamed) (hps : ∀ p ∈ ps, .char '/' ∉ p)
    (hq : fs.isFile q = true) : q ∈ expand fs ps d ↔ Finds fs ps d q :=
  ⟨(finds_of_mem_expand hnames hps hq).1 d, fun h => h.mem_expand hq⟩

/-! ## The files of a pattern -/

variable {cs : List Char}

/-- Where a path or a pattern starts: at the root or in the working directory. -/
def origin (cs : List Char) : Path := if Path.isAbsoluteText cs then ⟨"/"⟩ else here

/-- What is left of a path or a pattern below its start. -/
def belowOrigin (cs : List Char) : List Char := if Path.isAbsoluteText cs then cs.drop 1 else cs

theorem origin_of_relative (h : Path.isAbsoluteText cs = false) : origin cs = here := by
  rw [origin, h]
  rfl

theorem belowOrigin_of_relative (h : Path.isAbsoluteText cs = false) : belowOrigin cs = cs := by
  rw [belowOrigin, h]
  rfl

/-- The texts of the components of a path or a pattern. -/
def componentTexts (cs : List Char) : List (List Char) := Path.splitSlashes (belowOrigin cs)

/-- The pattern with a text finds a path. -/
def TextFinds (fs : FileSystem) (cs : List Char) (q : Path) : Prop :=
  ∃ ps, (componentTexts cs).mapM Pattern.ofText = .ok ps ∧ Finds fs ps (origin cs) q

theorem exists_mapM_ofText_iff {parts : List (List Char)} :
    (∃ ps, parts.mapM Pattern.ofText = .ok ps) ↔ ∀ part ∈ parts, Readable part := by
  simp only [mapM_eq_ok]
  exact exists_forall₂_iff

theorem readable_nil : Readable [] := ⟨[], rfl⟩

/-- The root apart, a text and its components can be read if the parts between slashes can. -/
theorem readable_componentTexts_iff :
    (∀ part ∈ componentTexts cs, Readable part) ↔ ∀ part ∈ Path.splitSlashes cs, Readable part := by
  unfold componentTexts belowOrigin
  split
  · rename_i habsolute
    obtain ⟨rest, rfl⟩ := List.head?_eq_some_iff.mp (of_decide_eq_true habsolute)
    have hsplit : Path.splitSlashes ('/' :: rest) = [] :: Path.splitSlashes rest := by
      simp [Path.splitSlashes, Text.split]
    rw [hsplit, List.forall_mem_cons, and_iff_right readable_nil]
    rfl
  · rfl

theorem getLast?_splitSlashes_iff :
    (Path.splitSlashes cs).getLast? = some [] ↔ cs = [] ∨ cs.getLast? = some '/' := by
  obtain ⟨back, hback⟩ := Path.exists_endsWith cs
  rw [hback.getLast?_splitSlashes, Option.some.injEq, hback.eq_nil_iff]

theorem getLast?_componentTexts_iff :
    (componentTexts cs).getLast? = some [] ↔ cs = [] ∨ cs.getLast? = some '/' := by
  unfold componentTexts belowOrigin
  rw [getLast?_splitSlashes_iff]
  split
  · rename_i habsolute
    obtain ⟨rest, rfl⟩ := List.head?_eq_some_iff.mp (of_decide_eq_true habsolute)
    cases rest <;> simp
  · rfl

/-- A slash at the end of a pattern is no fault in it. -/
theorem componentPatterns_eq (cs : List Char) :
    (componentPatterns cs = (Path.splitSlashes cs).mapM Pattern.ofText
        ∧ (Path.splitSlashes cs).getLast? ≠ some [])
      ∨ ∃ front, Path.splitSlashes cs = front ++ [[]]
        ∧ componentPatterns cs = front.mapM Pattern.ofText := by
  unfold componentPatterns
  by_cases hlast : (Path.splitSlashes cs).getLast? = some []
  · obtain ⟨front, hfront⟩ := List.getLast?_eq_some_iff.mp hlast
    exact .inr ⟨front, hfront, by simp [hfront]⟩
  · exact .inl ⟨by simp [hlast], hlast⟩

theorem exists_componentPatterns_iff :
    (∃ ps, componentPatterns cs = .ok ps) ↔ ∀ part ∈ Path.splitSlashes cs, Readable part := by
  rcases componentPatterns_eq cs with ⟨heq, -⟩ | ⟨front, hfront, heq⟩
  · rw [heq]
    exact exists_mapM_ofText_iff
  · rw [heq, hfront, List.forall_mem_append, List.forall_mem_singleton, and_iff_left readable_nil]
    exact exists_mapM_ofText_iff

theorem files_eq_ok_iff {found : List Path} :
    files fs cs = .ok found
      ↔ Readable cs ∧ ∃ ps, componentPatterns (belowOrigin cs) = .ok ps
        ∧ found = if cs.getLast? = some '/' then [] else (expand fs ps (origin cs)).filter fs.isFile
    := by
  have hreturn : ∀ ps : List Pattern, (if cs.getLast? = some '/' then (.ok [] : Except Fault _)
      else .ok ((expand fs ps (origin cs)).filter fs.isFile)) = .ok found
        ↔ found = if cs.getLast? = some '/' then []
          else (expand fs ps (origin cs)).filter fs.isFile := by
    intro ps
    split <;> simp [eq_comm]
  unfold files
  rw [bind_eq_ok]
  simp only [bind_eq_ok]
  constructor
  · rintro ⟨p, hp, ps, hps, h⟩
    exact ⟨⟨p, hp⟩, ps, hps, (hreturn ps).mp h⟩
  · rintro ⟨⟨p, hp⟩, ps, hps, h⟩
    exact ⟨p, hp, ps, hps, (hreturn ps).mpr h⟩

/-- A pattern has files, or none, if its components can be read. -/
theorem exists_files_iff :
    (∃ found, files fs cs = .ok found) ↔ ∀ part ∈ Path.splitSlashes cs, Readable part := by
  simp only [files_eq_ok_iff]
  rw [← readable_componentTexts_iff]
  constructor
  · rintro ⟨_, -, ps, hps, -⟩
    exact exists_componentPatterns_iff.mp ⟨ps, hps⟩
  · intro h
    obtain ⟨ps, hps⟩ := exists_componentPatterns_iff.mpr h
    exact ⟨_, readable_of_parts (readable_componentTexts_iff.mp h), ps, hps, rfl⟩

theorem not_isFile_inside_nil : fs.isFile (inside d []) = false := by
  have hempty : fs.isFile ⟨String.ofList []⟩ = false := rfl
  by_cases hhere : d.components = [.here]
  · rw [inside_of_here hhere, hempty]
  cases hd : d.isEmpty with
  | true =>
    have hd : d = ⟨""⟩ := congrArg Path.mk (String.isEmpty_iff.mp hd)
    rw [hd]
    exact hempty
  | false =>
    rw [inside_of_leaves ⟨hd, hhere⟩]
    exact not_isFile_of_endsInSlash (endsInSlash_join_nil hd)

theorem not_isFile_here : ¬ fs.isFile here = true := by
  rw [isFile_iff]
  rintro ⟨f, hf⟩
  obtain ⟨-, hwalk, hfile⟩ := lookup_eq_ok_iff.mp hf
  have hdirectory : fs.entryAt? (fs.destination here) = some .directory := hwalk.1.directory
  rw [hdirectory] at hfile
  cases hfile

/-- Behind a slash at its end a pattern finds directories. -/
theorem Finds.exists_inside_nil {m : Path} (h : Finds fs (ps ++ [[]]) m q) :
    ∃ d, q = inside d [] := by
  generalize hall : ps ++ [[]] = all at h
  have hliteral : Pattern.literal? [] = some [] := rfl
  induction h generalizing ps with
  | done path => simp at hall
  | @literal p rest d q name hname _ _ h ih =>
    cases ps with
    | nil =>
      cases hall
      cases hname
      cases h
      exact ⟨d, rfl⟩
    | cons _ ps =>
      cases hall
      exact ih rfl
  | name hwild _ _ _ _ h ih =>
    cases ps with
    | nil =>
      cases hall
      cases hwild
    | cons _ ps =>
      cases hall
      exact ih rfl
  | dots hwild _ _ _ _ _ h ih =>
    cases ps with
    | nil =>
      cases hall
      cases hwild
    | cons _ ps =>
      cases hall
      exact ih rfl
  | deeper hany hsingle _ _ hname hstands h ih =>
    rcases ps with _ | ⟨_, _ | ⟨_, ps⟩⟩
    · cases hall
    · cases hall
      exact absurd hstands hname.notEmpty
    · cases hall
      exact ih rfl
  | again hany hagain _ ih =>
    rcases ps with _ | ⟨_, ps⟩
    · cases hall
    · exact ih (List.cons.inj hall).2

/-- The files of a pattern are those that it finds. -/
theorem mem_files_iff {found : List Path} (hnames : fs.WellNamed) (h : files fs cs = .ok found) :
    q ∈ found ↔ fs.isFile q = true ∧ TextFinds fs cs q := by
  obtain ⟨-, ps, hps, rfl⟩ := files_eq_ok_iff.mp h
  rcases componentPatterns_eq (belowOrigin cs) with ⟨heq, hlast⟩ | ⟨front, hfront, -⟩
  · have hslash : ¬ cs.getLast? = some '/' := fun hslash =>
      hlast (getLast?_componentTexts_iff.mpr (.inr hslash))
    rw [heq] at hps
    have hplain : ∀ p ∈ ps, .char '/' ∉ p := by
      intro p hp
      obtain ⟨part, hpart, _, hread, rfl⟩ := (exists_mem_mapM_iff hps).mp ⟨p, hp, rfl⟩
      exact slash_notMem_ofText (Text.sep_notMem_split hpart) hread
    rw [if_neg hslash, List.mem_filter, and_comm]
    refine and_congr_right fun hq => (mem_expand_iff hnames hplain hq).trans ?_
    exact ⟨fun h => ⟨ps, hps, h⟩, fun ⟨ps', hps', h⟩ => by
      cases hps.symm.trans hps'
      exact h⟩
  · -- behind a slash there are directories, on either side
    refine iff_of_false (fun hmem => ?_) ?_
    · have hend := getLast?_componentTexts_iff.mp (hfront ▸ List.getLast?_concat)
      rcases hend with rfl | hslash
      · have hnil : componentPatterns (belowOrigin []) = .ok [] := rfl
        cases hnil.symm.trans hps
        rw [if_neg (by decide), expand, List.mem_filter, List.mem_singleton] at hmem
        rw [hmem.1] at hmem
        exact not_isFile_here hmem.2
      · rw [if_pos hslash] at hmem
        cases hmem
    · rintro ⟨hq, ps', hps', h⟩
      rw [componentTexts, hfront, mapM_append_eq_ok] at hps'
      obtain ⟨ps₁, ps₂, -, hnil, rfl⟩ := hps'
      cases hnil
      obtain ⟨d, rfl⟩ := h.exists_inside_nil
      rw [not_isFile_inside_nil] at hq
      cases hq

end DialogueBuild.Glob
