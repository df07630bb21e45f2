import DialogueBuild.FileSystem.Change
import Mathlib.Data.List.TakeWhile
/-!
The paths on the way to a path.

The parent of a path is read off its components, and its text is cut off at a slash. What a file
system sees are the parts between the slashes, those that count for nothing included.

Results:

1. `EndsWith.exists_names`   what is written behind a text goes on with its last part;
2. `names_trimEnd`           what is trimmed off the end of a path are parts that stay where they
                             are;
3. `lastPart_ne_nil`         a path with a parent has a last part in front of them;
4. `leadsTo_parent`          so that the parts of the parent come before the last part of a path;
5. `leadUp_ancestors`        the ancestors of a path lead up to one another.
-/
namespace DialogueBuild.Path

variable {cs back : List Char}

/-- The parts of a text between slashes, without empty ones. -/
def names (cs : List Char) : List (List Char) :=
  (splitSlashes cs).filter fun part => !part.isEmpty

/-! ## Parts -/

@[simp] theorem names_nil : names [] = [] := rfl

theorem names_append_slash (front back : List Char) :
    names (front ++ '/' :: back) = names front ++ names back := by
  unfold names splitSlashes
  rw [Text.split_append, List.filter_append]

theorem names_slash_end (front : List Char) : names (front ++ ['/']) = names front := by
  rw [names_append_slash, names_nil, List.append_nil]

/-- A text without slashes is a single part. -/
theorem names_of_notMem {cs : List Char} (h : '/' ∉ cs) (hne : cs ≠ []) : names cs = [cs] := by
  unfold names splitSlashes
  rw [Text.split_of_notMem h]
  cases cs with
  | nil => exact absurd rfl hne
  | cons c rest => rfl

/-- What stands behind the last slash of a text, be it all of it. -/
inductive EndsWith (back : List Char) : List Char → Prop
  | whole (h : '/' ∉ back) : EndsWith back back
  | behind (front : List Char) (h : '/' ∉ back) : EndsWith back (front ++ '/' :: back)

theorem exists_endsWith (cs : List Char) : ∃ back, EndsWith back cs := by
  by_cases h : '/' ∈ cs
  · obtain ⟨front, back, rfl, hback⟩ := Text.exists_last h
    exact ⟨back, .behind front hback⟩
  · exact ⟨cs, .whole h⟩

/-- Nothing stands behind the last slash of a text if the text is empty or ends in it. -/
theorem EndsWith.eq_nil_iff (h : EndsWith back cs) :
    back = [] ↔ cs = [] ∨ cs.getLast? = some '/' := by
  cases h with
  | whole hslash =>
    refine ⟨.inl, ?_⟩
    rintro (rfl | hlast)
    · rfl
    · exact absurd (List.mem_of_getLast? hlast) hslash
  | behind front hslash =>
    constructor
    · rintro rfl
      exact .inr (List.getLast?_concat ..)
    · rintro (hnil | hlast)
      · exact absurd hnil (by simp)
      · cases back with
        | nil => rfl
        | cons c rest =>
          rw [List.getLast?_append, List.getLast?_cons_cons] at hlast
          have hmem : '/' ∈ c :: rest := List.mem_of_getLast? (by simpa using hlast)
          exact absurd hmem hslash

theorem EndsWith.getLast?_splitSlashes (h : EndsWith back cs) :
    (splitSlashes cs).getLast? = some back := by
  unfold splitSlashes
  cases h with
  | whole hback => rw [Text.split_of_notMem hback, List.getLast?_singleton]
  | behind front hback =>
    rw [Text.split_append, Text.split_of_notMem hback, List.getLast?_concat]

/-- What is written behind a text goes on with its last part. -/
theorem EndsWith.exists_names (h : EndsWith back cs) {more : List Char} (hmore : '/' ∉ more)
    (hne : more ≠ []) : ∃ front, names (cs ++ more) = front ++ [back ++ more] := by
  have hpart (hback : '/' ∉ back) : names (back ++ more) = [back ++ more] :=
    names_of_notMem (by simp [hback, hmore]) (by simp [hne])
  cases h with
  | whole hback => exact ⟨[], hpart hback⟩
  | behind front hback =>
    refine ⟨names front, ?_⟩
    rw [List.append_assoc, List.cons_append, names_append_slash, hpart hback]

/-- The last part of a text that does not end in a slash ends as the text does. -/
theorem names_concat (cs : List Char) {c : Char} (hc : c ≠ '/') :
    ∃ front part, names (cs ++ [c]) = front ++ [part ++ [c]] := by
  obtain ⟨back, hback⟩ := exists_endsWith cs
  obtain ⟨front, hfront⟩ :=
    hback.exists_names (mt List.mem_singleton.mp (Ne.symm hc)) (List.cons_ne_nil c [])
  exact ⟨front, back, hfront⟩

/-- The parts of a relative path come behind those of the path it is appended to. -/
theorem names_join_of_relative (p : Path) {q : Path} (hq : q.isAbsolute = false) :
    names (p.join q).text.toList = names p.text.toList ++ names q.text.toList := by
  unfold join
  rw [if_neg (by rw [hq]; exact Bool.false_ne_true)]
  split
  · rename_i hempty
    rw [Bool.or_eq_true, decide_eq_true_iff] at hempty
    rw [String.toList_append]
    rcases hempty with hempty | hslash
    · unfold isEmpty at hempty
      rw [String.isEmpty_iff.mp hempty]
      rfl
    · obtain ⟨front, hfront⟩ := List.getLast?_eq_some_iff.mp hslash
      rw [hfront, List.append_assoc, List.singleton_append, names_append_slash, names_slash_end]
  · rw [String.toList_append, String.toList_append, List.append_assoc]
    exact names_append_slash p.text.toList q.text.toList

/-- The parts of a path that was appended come last. -/
theorem names_join (p q : Path) :
    ∃ front, names (p.join q).text.toList = front ++ names q.text.toList := by
  by_cases hq : q.isAbsolute
  · refine ⟨[], ?_⟩
    rw [join, if_pos hq]
    rfl
  · exact ⟨_, names_join_of_relative p (Bool.eq_false_iff.mpr hq)⟩

/-- Only the root has no parts, the empty path apart. -/
theorem isAbsolute_of_names_nil {p : Path} (hnames : names p.text.toList = [])
    (hne : p.isEmpty = false) : p.isAbsolute = true := by
  unfold isAbsolute isAbsoluteText
  cases hcs : p.text.toList with
  | nil =>
    unfold isEmpty at hne
    rw [String.toList_eq_nil_iff.mp hcs] at hne
    exact absurd hne (by decide)
  | cons c rest =>
    by_cases hc : c = '/'
    · rw [hc]
      rfl
    · rw [hcs] at hnames
      unfold names splitSlashes at hnames
      rw [Text.split, if_neg hc] at hnames
      cases hs : Text.split '/' rest with
      | nil => exact absurd hs (Text.split_ne_nil '/' rest)
      | cons part parts =>
        rw [hs] at hnames
        simp at hnames

/-- Empty parts stand for no component. -/
theorem filterMap_names (cs : List Char) :
    (names cs).filterMap componentOfPart = (splitSlashes cs).filterMap componentOfPart := by
  unfold names
  induction splitSlashes cs with
  | nil => rfl
  | cons part rest ih =>
    cases part with
    | nil =>
      have hempty : componentOfPart [] = none := rfl
      simpa [hempty] using ih
    | cons c part => simp [List.filterMap_cons, ih]

/-! ## What is trimmed off -/

/-- Parts that stay where they are. -/
def Stays (parts : List (List Char)) : Prop := ∀ part ∈ parts, part = ['.']

theorem stays_nil : Stays [] := by
  intro part h
  cases h

theorem Stays.concat {parts : List (List Char)} (h : Stays parts) : Stays (parts ++ [['.']]) := by
  intro part hp
  rcases List.mem_append.mp hp with hp | hp
  · exact h part hp
  · exact List.mem_singleton.mp hp

theorem Stays.filterMap {parts : List (List Char)} (h : Stays parts) :
    parts.filterMap componentOfPart = [] := by
  rw [List.filterMap_eq_nil_iff]
  intro part hp
  rw [h part hp]
  rfl

/-- What is left of a reversed text is the end of it, and it has lost nothing but parts that stay
where they are. -/
theorem go_spec (cs : List Char) (free : Nat) :
    trimEnd.go cs free <:+ cs ∧
      ∃ lost, Stays lost ∧ names cs.reverse = names (trimEnd.go cs free).reverse ++ lost := by
  fun_induction trimEnd.go cs free with
  | case1 rest free ih =>
    obtain ⟨hsuffix, lost, hstays, hnames⟩ := ih
    refine ⟨hsuffix.trans (List.suffix_cons '/' rest), lost, hstays, ?_⟩
    rw [List.reverse_cons, names_slash_end, hnames]
  | case2 rest free ih =>
    obtain ⟨hsuffix, lost, hstays, hnames⟩ := ih
    refine ⟨hsuffix.trans (List.suffix_cons '.' _), lost ++ [['.']], hstays.concat, ?_⟩
    have hdot : names ('.' :: '/' :: rest).reverse = names rest.reverse ++ [['.']] := by
      have htext : ('.' :: '/' :: rest).reverse = rest.reverse ++ '/' :: ['.'] := by simp
      rw [htext, names_append_slash]
      rfl
    rw [List.reverse_cons, names_slash_end] at hnames
    rw [hdot, hnames, List.append_assoc]
  | case3 free cs _ _ => exact ⟨List.suffix_refl _, [], stays_nil, by rw [List.append_nil]⟩

/-- Trimming stops at a slash only where nothing more may go. -/
theorem length_go {cs : List Char} {free : Nat} (h : free ≤ cs.length) :
    cs.length - free ≤ (trimEnd.go cs free).length ∧
      ((trimEnd.go cs free).head? = some '/' → (trimEnd.go cs free).length = cs.length - free) := by
  fun_induction trimEnd.go cs free with
  | case1 rest free ih =>
    obtain ⟨hle, heq⟩ := ih (Nat.le_of_succ_le_succ h)
    rw [List.length_cons, Nat.add_sub_add_right]
    exact ⟨hle, heq⟩
  | case2 rest free ih =>
    have hlength : ('.' :: '/' :: rest).length - (free + 2)
        = ('/' :: rest).length - (free + 1) := by
      simp only [List.length_cons]
      omega
    rw [hlength]
    simp only [List.length_cons] at h ih ⊢
    exact ih (by omega)
  | case3 free cs hslash _ =>
    refine ⟨Nat.sub_le _ _, fun hhead => ?_⟩
    cases cs with
    | nil => simp
    | cons c rest =>
      obtain rfl : c = '/' := Option.some_inj.mp hhead
      cases free with
      | zero => rfl
      | succ free => exact absurd rfl (hslash rest free rfl)

/-- The characters at the start of a path that are never trimmed off. -/
def kept (cs : List Char) : Nat := if isAbsoluteText cs || startsHere cs then 1 else 0

theorem names_trimEnd (cs : List Char) :
    trimEnd cs <+: cs ∧ ∃ lost, Stays lost ∧ names cs = names (trimEnd cs) ++ lost := by
  obtain ⟨hsuffix, lost, hstays, hnames⟩ := go_spec cs.reverse (cs.length - kept cs)
  rw [List.reverse_reverse] at hnames
  refine ⟨?_, lost, hstays, hnames⟩
  rw [← List.reverse_suffix]
  show (trimEnd.go cs.reverse (cs.length - kept cs)).reverse.reverse <:+ cs.reverse
  rwa [List.reverse_reverse]

/-! ## The last part -/

/-- What stands in front of the last part of a text, up to the slash. -/
def front (cs : List Char) : List Char := ((trimEnd cs).reverse.dropWhile (· ≠ '/')).reverse

/-- The last part of a text that may be a component. -/
def lastPart (cs : List Char) : List Char := ((trimEnd cs).reverse.takeWhile (· ≠ '/')).reverse

theorem trimEnd_eq (cs : List Char) : trimEnd cs = front cs ++ lastPart cs := by
  unfold front lastPart
  rw [← List.reverse_append, List.takeWhile_append_dropWhile, List.reverse_reverse]

theorem slash_notMem_lastPart (cs : List Char) : '/' ∉ lastPart cs := by
  intro h
  have hne := List.mem_takeWhile_imp (List.mem_reverse.mp h)
  simp at hne

theorem front_eq_nil_or (cs : List Char) : front cs = [] ∨ ∃ rest, front cs = rest ++ ['/'] := by
  unfold front
  cases hdrop : (trimEnd cs).reverse.dropWhile (· ≠ '/') with
  | nil => exact .inl rfl
  | cons c rest =>
    have hhead := List.head?_dropWhile_not (· ≠ '/') (trimEnd cs).reverse
    rw [hdrop] at hhead
    have hc : c = '/' := by simpa using hhead
    exact .inr ⟨rest.reverse, by rw [hc, List.reverse_cons]⟩

/-- The parts of a trimmed text are those in front of the last one, and the last one. -/
theorem names_trimEnd_eq {cs : List Char} (h : lastPart cs ≠ []) :
    names (trimEnd cs) = names (front cs) ++ [lastPart cs] := by
  have hlast := names_of_notMem (slash_notMem_lastPart cs) h
  rw [trimEnd_eq]
  rcases front_eq_nil_or cs with hfront | ⟨rest, hfront⟩
  · rw [hfront, List.nil_append, names_nil, List.nil_append, hlast]
  · rw [hfront, List.append_assoc, List.singleton_append, names_append_slash, names_slash_end,
      hlast]

theorem kept_le_length (cs : List Char) : kept cs ≤ cs.length := by
  cases cs with
  | nil => decide
  | cons c rest =>
    unfold kept
    split <;> simp

/-- A text that is trimmed to nothing but slashes is that of the root, or empty. -/
theorem trimEnd_of_lastPart_eq_nil {cs : List Char} (h : lastPart cs = []) :
    trimEnd cs = ['/'] ∨ trimEnd cs = [] ∧ kept cs = 0 := by
  have hkept := kept_le_length cs
  have hbound : cs.length - kept cs ≤ cs.reverse.length := by simp
  obtain ⟨hle, heq⟩ := length_go hbound
  have hlength : cs.reverse.length - (cs.length - kept cs) = kept cs := by
    rw [List.length_reverse]
    omega
  rw [hlength] at hle heq
  have hreverse : (trimEnd cs).reverse = trimEnd.go cs.reverse (cs.length - kept cs) :=
    List.reverse_reverse _
  rw [← hreverse] at hle heq
  cases htrim : (trimEnd cs).reverse with
  | nil =>
    rw [htrim] at hle
    exact .inr ⟨List.reverse_eq_nil_iff.mp htrim, Nat.le_zero.mp hle⟩
  | cons c rest =>
    -- without a last part the trimmed text ends in a slash
    have hc : c = '/' := by
      unfold lastPart at h
      rw [htrim, List.takeWhile_cons] at h
      simpa using h
    subst hc
    rw [htrim] at heq
    have hone : rest.length + 1 = kept cs := heq rfl
    have hsmall : kept cs ≤ 1 := by
      unfold kept
      split <;> simp
    have hrest : rest = [] := List.length_eq_zero_iff.mp (by omega)
    refine .inl ?_
    rw [← List.reverse_reverse (trimEnd cs), htrim, hrest]
    rfl

/-- A path that has a parent has a last part. -/
theorem lastPart_ne_nil {p q : Path} (h : p.parent? = some q) : lastPart p.text.toList ≠ [] := by
  intro hlast
  obtain ⟨hfront, lost, hstays, hnames⟩ := names_trimEnd p.text.toList
  have hparts : (splitSlashes p.text.toList).filterMap componentOfPart
      = (names (trimEnd p.text.toList)).filterMap componentOfPart := by
    rw [← filterMap_names, hnames, List.filterMap_append, hstays.filterMap, List.append_nil]
  unfold parent? components componentsOfText at h
  rw [hparts] at h
  rcases trimEnd_of_lastPart_eq_nil hlast with htrim | ⟨htrim, hkept⟩
  · have habsolute : isAbsoluteText p.text.toList = true := by
      obtain ⟨rest, hrest⟩ := hfront
      rw [htrim] at hrest
      rw [← hrest]
      rfl
    have hroot : names ['/'] = [] := rfl
    simp [htrim, habsolute, hroot] at h
  · have hstart : isAbsoluteText p.text.toList = false ∧ startsHere p.text.toList = false := by
      unfold kept at hkept
      simpa using hkept
    simp [htrim, hstart.1, hstart.2] at h

/-! ## Leading up to a path -/

/-- A path leads up to another one: it is the start of its text, and its parts all come before the
last part of the other. -/
structure LeadsTo (q p : Path) : Prop where
  text : q.text.toList <+: p.text.toList
  names : names q.text.toList <+: (names p.text.toList).dropLast

theorem LeadsTo.trans {p q r : Path} (h : r.LeadsTo q) (h' : q.LeadsTo p) : r.LeadsTo p :=
  ⟨h.text.trans h'.text, h.names.trans ((List.dropLast_prefix _).trans h'.names)⟩

theorem leadsTo_parent {p q : Path} (h : p.parent? = some q) : q.LeadsTo p := by
  have hlast := lastPart_ne_nil h
  have hq : q.text.toList = trimEnd (front p.text.toList) := by
    unfold parent? at h
    split at h
    · cases h
    · cases h
    · rw [← Option.some_inj.mp h, String.toList_ofList]
      rfl
  obtain ⟨hp, lost, -, hnames⟩ := names_trimEnd p.text.toList
  obtain ⟨hfront, before, -, hbefore⟩ := names_trimEnd (front p.text.toList)
  rw [names_trimEnd_eq hlast, hbefore] at hnames
  refine ⟨?_, ?_⟩
  · have hback : front p.text.toList <+: trimEnd p.text.toList := by
      rw [trimEnd_eq]
      exact List.prefix_append _ _
    rw [hq]
    exact hfront.trans (hback.trans hp)
  · rw [hq, hnames, List.append_assoc, List.append_assoc,
      List.dropLast_append_of_ne_nil (by simp)]
    exact List.prefix_append _ _

/-- Paths that lead up to one another, the longest first. -/
structure LeadUp (paths : List Path) : Prop where
  pairwise : paths.Pairwise fun p q => q.LeadsTo p
  notEmpty : ∀ q ∈ paths, q.isEmpty = false

section LeadUp

variable {p q : Path} {parents : List Path}

theorem LeadUp.tail (h : LeadUp (p :: parents)) : LeadUp parents :=
  ⟨h.pairwise.tail, fun q hq => h.notEmpty q (List.mem_cons_of_mem p hq)⟩

theorem LeadUp.leadsTo (h : LeadUp (p :: parents)) (hq : q ∈ parents) : q.LeadsTo p :=
  List.rel_of_pairwise_cons h.pairwise hq

end LeadUp

/-- Paths that lead up to one another, and to a path if they are not that path itself. -/
structure Ascends (p : Path) (paths : List Path) : Prop extends LeadUp paths where
  leadsTo : ∀ q ∈ paths, q = p ∨ q.LeadsTo p

theorem ascends_nil (p : Path) : Ascends p [] := ⟨⟨.nil, by simp⟩, by simp⟩

theorem ascends_go (n : Nat) (p : Path) : Ascends p (FileSystem.ancestors.go n p) := by
  induction n generalizing p with
  | zero => exact ascends_nil p
  | succ n ih =>
    unfold FileSystem.ancestors.go
    split
    · rename_i parent hparent
      split
      · exact ascends_nil p
      · rename_i hne
        have habove : ∀ q ∈ FileSystem.ancestors.go n parent, q.LeadsTo p := by
          intro q hq
          rcases (ih parent).leadsTo q hq with rfl | hq
          · exact leadsTo_parent hparent
          · exact hq.trans (leadsTo_parent hparent)
        refine ⟨⟨.cons habove (ih parent).pairwise, ?_⟩, ?_⟩
        · intro q hq
          rcases List.mem_cons.mp hq with rfl | hq
          · exact Bool.eq_false_iff.mpr hne
          · exact (ih parent).notEmpty q hq
        · intro q hq
          rcases List.mem_cons.mp hq with rfl | hq
          · exact .inl rfl
          · exact .inr (habove q hq)
    · exact ascends_nil p

theorem leadUp_ancestors (p : Path) : LeadUp (FileSystem.ancestors p) := (ascends_go _ p).toLeadUp

end DialogueBuild.Path
