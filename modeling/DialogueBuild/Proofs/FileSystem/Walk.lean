import DialogueBuild.FileSystem.Disk
import DialogueBuild.Proofs.Except
import DialogueBuild.Proofs.Path.Ancestors
/-!
Where paths lead, and what of this stays when a file system grows.

Without links a path can lead to one location only, which does not depend on what is there. The
entries decide whether it leads there at all.

Results:

1. `walk_eq_ok_iff`      a walk ends where its parts lead if every step can be taken;
2. `walkable_mono`       what can be walked stays so while directories stay directories;
3. `isDirectory_iff`     what a path leads to when it leads to a directory;
4. `slot_cases`, `slot_eq_named_iff`
                         where a path leads whose last part need not be there;
5. `lookup_of_slot`      and what is found there.
-/
namespace DialogueBuild.FileSystem

/-! ## Destinations -/

/-- Parts that are no names. -/
def IsDots (part : List Char) : Prop := part = ['.'] ∨ part = ['.', '.']

instance (part : List Char) : Decidable (IsDots part) := inferInstanceAs (Decidable (_ ∨ _))

/-- Where a part leads from a location. -/
def turn (loc : Location) (part : List Char) : Location :=
  if part = ['.'] then loc else if part = ['.', '.'] then loc.dropLast else loc ++ [part]

theorem turn_name {loc : Location} {part : List Char} (h : ¬ IsDots part) :
    turn loc part = loc ++ [part] := by
  unfold IsDots at h
  rw [not_or] at h
  rw [turn, if_neg h.1, if_neg h.2]

/-- Where parts lead, one after the other. -/
def follow (loc : Location) (parts : List (List Char)) : Location := parts.foldl turn loc

theorem follow_append (loc : Location) (front back : List (List Char)) :
    follow loc (front ++ back) = follow (follow loc front) back :=
  List.foldl_append

/-- The location that a path leads to, if it leads anywhere. -/
def destination (fs : FileSystem) (p : Path) : Location :=
  follow (fs.start p) (Path.names p.text.toList)

/-! ## Walks -/

variable {fs fs' : FileSystem} {p : Path} {loc l : Location} {part : List Char}
  {parts : List (List Char)}

/-- A part can be taken from a location. -/
structure Passable (fs : FileSystem) (loc : Location) (part : List Char) : Prop where
  directory : fs.entryAt? loc = some .directory
  notTooLong : ¬ IsDots part → isTooLong maxName part = false
  present : ¬ IsDots part → (fs.entryAt? (loc ++ [part])).isSome

theorem step_eq_ok_iff : fs.step loc part = .ok l ↔ fs.Passable loc part ∧ l = turn loc part := by
  constructor
  · intro h
    unfold step at h
    split at h
    · cases h
    · cases h
    · rename_i hdirectory
      unfold turn
      split at h
      · rename_i hdot
        cases h
        exact ⟨⟨hdirectory, fun hn => absurd (.inl hdot) hn, fun hn => absurd (.inl hdot) hn⟩,
          (if_pos hdot).symm⟩
      split at h
      · rename_i hdot hdots
        cases h
        exact ⟨⟨hdirectory, fun hn => absurd (.inr hdots) hn, fun hn => absurd (.inr hdots) hn⟩,
          by rw [if_neg hdot, if_pos hdots]⟩
      · rename_i hdot hdots
        split at h
        · cases h
        · rename_i hlength
          split at h
          · cases h
          · rename_i hentry
            cases h
            exact ⟨⟨hdirectory, fun _ => by simpa using hlength, fun _ => by rw [hentry]; rfl⟩,
              by rw [if_neg hdot, if_neg hdots]⟩
  · rintro ⟨⟨hdirectory, hlength, hpresent⟩, rfl⟩
    unfold step turn
    rw [hdirectory]
    by_cases hdot : part = ['.']
    · simp only [if_pos hdot]
    by_cases hdots : part = ['.', '.']
    · simp only [if_neg hdot, if_pos hdots]
    · have hname : ¬ IsDots part := not_or.mpr ⟨hdot, hdots⟩
      obtain ⟨e, he⟩ := Option.isSome_iff_exists.mp (hpresent hname)
      simp only [if_neg hdot, if_neg hdots, hlength hname, he, Bool.false_eq_true, ↓reduceIte]

/-- Parts can be taken from a location, one after the other. -/
def Walkable (fs : FileSystem) (loc : Location) : List (List Char) → Prop
  | [] => True
  | part :: rest => fs.Passable loc part ∧ fs.Walkable (turn loc part) rest

theorem walk_eq_ok_iff :
    fs.walk loc parts = .ok l ↔ fs.Walkable loc parts ∧ l = follow loc parts := by
  induction parts generalizing loc with
  | nil => simp [walk, Walkable, follow, eq_comm]
  | cons part rest ih =>
    rw [walk, bind_eq_ok, Walkable]
    constructor
    · rintro ⟨m, hstep, hrest⟩
      obtain ⟨hpart, rfl⟩ := step_eq_ok_iff.mp hstep
      obtain ⟨hwalk, hl⟩ := ih.mp hrest
      exact ⟨⟨hpart, hwalk⟩, hl⟩
    · rintro ⟨⟨hpart, hwalk⟩, hl⟩
      exact ⟨turn loc part, step_eq_ok_iff.mpr ⟨hpart, rfl⟩, ih.mpr ⟨hwalk, hl⟩⟩

theorem walkable_append {front back : List (List Char)} :
    fs.Walkable loc (front ++ back)
      ↔ fs.Walkable loc front ∧ fs.Walkable (follow loc front) back := by
  induction front generalizing loc with
  | nil => simp [Walkable, follow]
  | cons part rest ih =>
    rw [List.cons_append, Walkable, Walkable, ih, and_assoc]
    rfl

theorem walk_append {front : List (List Char)} (h : fs.Walkable loc front)
    (back : List (List Char)) : fs.walk loc (front ++ back) = fs.walk (follow loc front) back := by
  induction front generalizing loc with
  | nil => rfl
  | cons part rest ih =>
    rw [List.cons_append, walk, step_eq_ok_iff.mpr ⟨h.1, rfl⟩]
    exact ih h.2

/-- A directory that can be walked to has directories on the way. -/
theorem directory_of_walkable {front back : List (List Char)}
    (hwalk : fs.Walkable loc (front ++ back))
    (hdirectory : fs.entryAt? (follow loc (front ++ back)) = some .directory) :
    fs.Walkable loc front ∧ fs.entryAt? (follow loc front) = some .directory := by
  rw [walkable_append] at hwalk
  refine ⟨hwalk.1, ?_⟩
  cases back with
  | nil => rwa [List.append_nil] at hdirectory
  | cons part rest => exact hwalk.2.1.directory

/-! ## Growing file systems -/

/-- Whatever can be walked in a file system can be walked in another one. -/
structure Grows (fs fs' : FileSystem) : Prop where
  workingDirectory : fs'.workingDirectory = fs.workingDirectory
  directory : ∀ l, fs.entryAt? l = some .directory → fs'.entryAt? l = some .directory
  present : ∀ l, (fs.entryAt? l).isSome → (fs'.entryAt? l).isSome

theorem Grows.passable (h : Grows fs fs') (hpart : fs.Passable loc part) :
    fs'.Passable loc part :=
  ⟨h.directory loc hpart.directory, hpart.notTooLong,
    fun hname => h.present _ (hpart.present hname)⟩

theorem walkable_mono (h : Grows fs fs') (hwalk : fs.Walkable loc parts) :
    fs'.Walkable loc parts := by
  induction parts generalizing loc with
  | nil => trivial
  | cons part rest ih => exact ⟨h.passable hwalk.1, ih hwalk.2⟩

theorem Grows.start (h : Grows fs fs') (p : Path) : fs'.start p = fs.start p := by
  unfold FileSystem.start
  rw [h.workingDirectory]

theorem Grows.destination (h : Grows fs fs') (p : Path) : fs'.destination p = fs.destination p := by
  unfold FileSystem.destination
  rw [h.start]

/-- A new file takes no directory away. -/
theorem grows_put_file {f : File} (hloc : loc ≠ []) (h : fs.entryAt? loc ≠ some .directory) :
    Grows fs (fs.put loc (.file f)) where
  workingDirectory := rfl
  directory l hl := by
    have hne : l ≠ loc := by
      rintro rfl
      exact h hl
    rw [entryAt?_put_of_ne hne, hl]
  present l hl := by
    by_cases hne : l = loc
    · rw [hne, entryAt?_put_self hloc]
      rfl
    · rwa [entryAt?_put_of_ne hne]

/-! ## Paths that lead somewhere -/

def endsInSlash (p : Path) : Bool := p.text.toList.getLast? = some '/'

theorem parts_eq (p : Path) :
    FileSystem.parts p = Path.names p.text.toList ++ if endsInSlash p then [['.']] else [] := by
  unfold FileSystem.parts endsInSlash
  simp only [decide_eq_true_eq]
  rfl

/-- A slash at the end of a path leads nowhere else. -/
theorem follow_parts (loc : Location) (p : Path) :
    follow loc (FileSystem.parts p) = follow loc (Path.names p.text.toList) := by
  rw [parts_eq]
  split
  · exact follow_append loc (Path.names p.text.toList) [['.']]
  · rw [List.append_nil]

theorem locate_eq_ok_iff :
    fs.locate p = .ok l
      ↔ checkPath p = .ok () ∧ fs.Walkable (fs.start p) (FileSystem.parts p)
        ∧ l = fs.destination p := by
  unfold locate
  rw [bind_eq_ok]
  constructor
  · rintro ⟨⟨⟩, hcheck, hwalk⟩
    rw [walk_eq_ok_iff, follow_parts] at hwalk
    exact ⟨hcheck, hwalk⟩
  · rintro ⟨hcheck, hwalk⟩
    refine ⟨(), hcheck, ?_⟩
    rwa [walk_eq_ok_iff, follow_parts]

theorem lookup_eq_ok_iff {e : Entry} :
    fs.lookup p = .ok e
      ↔ checkPath p = .ok () ∧ fs.Walkable (fs.start p) (FileSystem.parts p)
        ∧ fs.entryAt? (fs.destination p) = some e := by
  unfold lookup
  rw [bind_eq_ok]
  constructor
  · rintro ⟨l, hlocate, hentry⟩
    obtain ⟨hcheck, hwalk, rfl⟩ := locate_eq_ok_iff.mp hlocate
    refine ⟨hcheck, hwalk, ?_⟩
    split at hentry
    · rename_i heq
      cases hentry
      exact heq
    · cases hentry
  · rintro ⟨hcheck, hwalk, hentry⟩
    refine ⟨_, locate_eq_ok_iff.mpr ⟨hcheck, hwalk, rfl⟩, ?_⟩
    rw [hentry]
    rfl

/-- A path that leads to a directory does so with or without a slash at its end. -/
theorem isDirectory_iff :
    fs.isDirectory p = true
      ↔ checkPath p = .ok () ∧ fs.Walkable (fs.start p) (Path.names p.text.toList)
        ∧ fs.entryAt? (fs.destination p) = some .directory := by
  have hlookup : fs.isDirectory p = true ↔ fs.lookup p = .ok .directory := by
    unfold isDirectory
    split
    · rename_i heq
      simp [heq]
    · rename_i hne
      simp only [Bool.false_eq_true, false_iff]
      exact hne
  rw [hlookup, lookup_eq_ok_iff]
  refine and_congr_right fun _ => and_congr_left fun hdirectory => ?_
  rw [parts_eq, walkable_append]
  refine ⟨And.left, fun hwalk => ⟨hwalk, ?_⟩⟩
  split
  · exact ⟨⟨hdirectory, fun hn => absurd (.inl rfl) hn, fun hn => absurd (.inl rfl) hn⟩, trivial⟩
  · trivial

theorem isDirectory_mono (h : Grows fs fs') (hp : fs.isDirectory p = true) :
    fs'.isDirectory p = true := by
  obtain ⟨hcheck, hwalk, hentry⟩ := isDirectory_iff.mp hp
  refine isDirectory_iff.mpr ⟨hcheck, ?_, ?_⟩
  · rw [h.start]
    exact walkable_mono h hwalk
  · rw [h.destination]
    exact h.directory _ hentry

/-! ## Paths to something new -/

/-- A path has a name in a directory that is there; `loc` is the place with this name. -/
structure Names (fs : FileSystem) (p : Path) (loc : Location) : Prop where
  check : checkPath p = .ok ()
  exists_name : ∃ front last, Path.names p.text.toList = front ++ [last] ∧ ¬ IsDots last ∧
    fs.Walkable (fs.start p) front ∧
    fs.entryAt? (follow (fs.start p) front) = some .directory ∧
    loc = follow (fs.start p) front ++ [last]

theorem filter_splitSlashes (p : Path) :
    (Path.splitSlashes p.text.toList).filter (fun part => !part.isEmpty)
      = Path.names p.text.toList := rfl

theorem slot_of_names_nil (hcheck : checkPath p = .ok ()) (hnames : Path.names p.text.toList = []) :
    fs.slot p = .ok .inside := by
  unfold slot
  simp only [filter_splitSlashes, hcheck, hnames, List.getLast?_nil, bind, Except.bind]
  rfl

theorem slot_of_names_concat {front : List (List Char)} {last : List Char}
    (hcheck : checkPath p = .ok ()) (hnames : Path.names p.text.toList = front ++ [last])
    (hwalk : fs.Walkable (fs.start p) front)
    (hdirectory : fs.entryAt? (follow (fs.start p) front) = some .directory) :
    fs.slot p = .ok (if IsDots last then .inside
      else .named (follow (fs.start p) front ++ [last]) (endsInSlash p)) := by
  have hparent : fs.walk (fs.start p) front = .ok (follow (fs.start p) front) :=
    walk_eq_ok_iff.mpr ⟨hwalk, rfl⟩
  unfold slot
  simp only [filter_splitSlashes, hcheck, hnames, List.getLast?_concat, List.dropLast_concat,
    hparent, hdirectory, bind, Except.bind]
  by_cases hdots : IsDots last
  · rw [if_pos hdots]
    unfold IsDots at hdots
    simp only [if_pos hdots]
    rfl
  · rw [if_neg hdots]
    unfold IsDots at hdots
    simp only [if_neg hdots]
    rfl

/-- What a path to something new leads to: into a directory, or to a name in one. -/
theorem slot_cases {s : Slot} (h : fs.slot p = .ok s) :
    checkPath p = .ok () ∧ (Path.names p.text.toList = [] ∧ s = .inside
      ∨ ∃ front last, Path.names p.text.toList = front ++ [last]
        ∧ fs.Walkable (fs.start p) front
        ∧ fs.entryAt? (follow (fs.start p) front) = some .directory
        ∧ s = if IsDots last then .inside
          else .named (follow (fs.start p) front ++ [last]) (endsInSlash p)) := by
  have hslot := h
  unfold slot at h
  obtain ⟨⟨⟩, hcheck, h⟩ := bind_eq_ok.mp h
  refine ⟨hcheck, ?_⟩
  simp only [filter_splitSlashes] at h
  split at h
  · rename_i hnone
    cases h
    exact .inl ⟨List.getLast?_eq_none_iff.mp hnone, rfl⟩
  · rename_i last hlast
    obtain ⟨front, hnames⟩ := List.getLast?_eq_some_iff.mp hlast
    rw [hnames, List.dropLast_concat] at h
    obtain ⟨m, hm, h⟩ := bind_eq_ok.mp h
    obtain ⟨hwalk, rfl⟩ := walk_eq_ok_iff.mp hm
    split at h
    · rename_i hdirectory
      refine .inr ⟨front, last, hnames, hwalk, hdirectory, ?_⟩
      rw [slot_of_names_concat hcheck hnames hwalk hdirectory] at hslot
      exact (Except.ok.inj hslot).symm
    · cases h
    · cases h

theorem slot_eq_named_iff {b : Bool} :
    fs.slot p = .ok (.named loc b) ↔ fs.Names p loc ∧ b = endsInSlash p := by
  constructor
  · intro h
    obtain ⟨hcheck, ⟨-, hinside⟩ | ⟨front, last, hnames, hwalk, hdirectory, hslot⟩⟩ := slot_cases h
    · cases hinside
    · by_cases hdots : IsDots last
      · rw [if_pos hdots] at hslot
        cases hslot
      · rw [if_neg hdots] at hslot
        cases hslot
        exact ⟨⟨hcheck, front, last, hnames, hdots, hwalk, hdirectory, rfl⟩, rfl⟩
  · rintro ⟨⟨hcheck, front, last, hnames, hdots, hwalk, hdirectory, rfl⟩, rfl⟩
    rw [slot_of_names_concat hcheck hnames hwalk hdirectory, if_neg hdots]

theorem Names.destination (h : fs.Names p loc) : loc = fs.destination p := by
  obtain ⟨front, last, hnames, hdots, -, -, rfl⟩ := h.exists_name
  unfold FileSystem.destination
  rw [hnames, follow_append]
  exact (turn_name hdots).symm

theorem Names.ne_nil (h : fs.Names p loc) : loc ≠ [] := by
  obtain ⟨front, last, -, -, -, -, rfl⟩ := h.exists_name
  exact List.concat_ne_nil _ _

theorem names_mono (hgrows : Grows fs fs') (h : fs.Names p loc) : fs'.Names p loc := by
  obtain ⟨hcheck, front, last, hnames, hdots, hwalk, hdirectory, rfl⟩ := h
  rw [← hgrows.start p] at hwalk hdirectory ⊢
  exact ⟨hcheck, front, last, hnames, hdots, walkable_mono hgrows hwalk,
    hgrows.directory _ hdirectory, rfl⟩

/-- Walks to a directory go through directories only, and need nothing else to be there. -/
theorem names_of_directories (hworking : fs'.workingDirectory = fs.workingDirectory)
    (hdirectories : ∀ l, fs'.entryAt? l = some .directory → fs.entryAt? l = some .directory)
    (h : fs'.Names p loc) : fs.Names p loc := by
  have hstart : fs'.start p = fs.start p := by
    unfold FileSystem.start
    rw [hworking]
  obtain ⟨hcheck, front, last, hnames, hdots, hwalk, hentry, rfl⟩ := h
  rw [hstart] at hwalk hentry ⊢
  have hfront : ∀ l, fs'.Walkable l front → fs'.entryAt? (follow l front) = some .directory →
      fs.Walkable l front := by
    clear hnames hwalk hentry
    induction front with
    | nil => exact fun _ _ _ => trivial
    | cons part rest ih =>
      intro l hwalk hend
      have hnext : fs'.entryAt? (turn l part) = some .directory :=
        (directory_of_walkable (show fs'.Walkable l ([part] ++ rest) from hwalk) hend).2
      refine ⟨⟨hdirectories l hwalk.1.directory, hwalk.1.notTooLong, fun hname => ?_⟩,
        ih _ hwalk.2 hend⟩
      rw [← turn_name hname, hdirectories _ hnext]
      rfl
  exact ⟨hcheck, front, last, hnames, hdots, hfront _ hwalk hentry, hdirectories _ hentry, rfl⟩

@[simp] theorem checkName_concat (loc : Location) (part : List Char) :
    checkName (loc ++ [part]) = .ok () ↔ isTooLong maxName part = false := by
  unfold checkName
  rw [List.getLast?_concat]
  cases h : isTooLong maxName part <;> simp [h]

/-- A last name can be taken if something is there, and the name is none that is refused. -/
theorem Names.walkable_iff (h : fs.Names p loc) :
    fs.Walkable (fs.start p) (Path.names p.text.toList)
      ↔ checkName loc = .ok () ∧ (fs.entryAt? loc).isSome := by
  obtain ⟨-, front, last, hnames, hdots, hwalk, hdirectory, rfl⟩ := h
  rw [hnames, walkable_append, checkName_concat]
  constructor
  · rintro ⟨-, hlast, -⟩
    exact ⟨hlast.notTooLong hdots, hlast.present hdots⟩
  · rintro ⟨hlength, hpresent⟩
    exact ⟨hwalk, ⟨hdirectory, fun _ => hlength, fun _ => hpresent⟩, trivial⟩

/-- What is found at the end of a path to a name in a directory. -/
theorem lookup_of_slot {e : Entry} (h : fs.slot p = .ok (.named loc false))
    (hname : checkName loc = .ok ()) : fs.lookup p = .ok e ↔ fs.entryAt? loc = some e := by
  obtain ⟨hnames, hslash⟩ := slot_eq_named_iff.mp h
  have hparts : FileSystem.parts p = Path.names p.text.toList := by
    rw [parts_eq, ← hslash, if_neg Bool.false_ne_true, List.append_nil]
  rw [lookup_eq_ok_iff, hparts, hnames.walkable_iff, ← hnames.destination]
  constructor
  · rintro ⟨-, -, he⟩
    exact he
  · intro he
    exact ⟨hnames.check, ⟨hname, by rw [he]; rfl⟩, he⟩

end DialogueBuild.FileSystem
