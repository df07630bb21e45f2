import DialogueBuild.Proofs.Path.Ancestors
import Mathlib.Data.List.Lex
import Mathlib.Data.Nat.Basic
import Mathlib.Order.Basic
/-!
What the components of a path tell: its place in the order of paths, and what is left of it below
another path.

Results:

1. `key_inj`                 paths with the same components have the same place in the order;
2. `components_join`         the component of a name comes behind those of the path before it;
3. `Leaves.extends`          a path that has left the working directory goes on as it is written;
4. `components_relativeTo`   what is left of a path below another one are its other components;
5. `trail_relativeTo_here`   and nothing is missing below the working directory.
-/
namespace DialogueBuild.Path

variable {p q base : Path} {cs n : List Char}

/-! ## Order -/

theorem Component.key_injective : Function.Injective Component.key := by
  have hcodes : Function.Injective codes :=
    List.map_injective_iff.mpr fun c d h => Char.toNat_inj.mp h
  intro a b h
  cases a <;> cases b <;> simp_all [Component.key, Component.rank, hcodes.eq_iff]

theorem key_inj : p.key = q.key ↔ p.components = q.components :=
  (List.map_injective_iff.mpr Component.key_injective).eq_iff

theorem same_iff : p.same q = true ↔ p.components = q.components := decide_eq_true_iff

theorem le_iff : p.le q = true ↔ p.key ≤ q.key := by
  unfold le
  rw [Bool.not_eq_true', decide_eq_false_iff_not, not_lt]

theorem le_trans (p q r : Path) (h : p.le q = true) (h' : q.le r = true) : p.le r = true :=
  le_iff.mpr ((le_iff.mp h).trans (le_iff.mp h'))

theorem le_or_le (p q : Path) : (p.le q || q.le p) = true := by
  rw [Bool.or_eq_true, le_iff, le_iff]
  exact le_total p.key q.key

/-! ## Components of texts -/

/-- The component that a path has in front of those of its parts. -/
def leading (cs : List Char) : List Component :=
  if isAbsoluteText cs then [.root] else if startsHere cs then [.here] else []

/-- The components of the parts of a path. -/
def steps (cs : List Char) : List Component := (splitSlashes cs).filterMap componentOfPart

theorem componentsOfText_eq (cs : List Char) : componentsOfText cs = leading cs ++ steps cs := rfl

theorem components_eq (p : Path) :
    p.components = leading p.text.toList ++ steps p.text.toList := rfl

@[simp] theorem components_ofList (cs : List Char) :
    (Path.mk (String.ofList cs)).components = componentsOfText cs := by
  unfold components
  rw [String.toList_ofList]

/-- Only in front of all others a component can be that of the root or of a leading `.`. -/
theorem steps_ne {c : Component} (h : c ∈ steps cs) : c ≠ .root ∧ c ≠ .here := by
  obtain ⟨part, -, hpart⟩ := List.mem_filterMap.mp h
  unfold componentOfPart at hpart
  split at hpart <;> cases hpart <;> simp

theorem steps_append_slash (front back : List Char) :
    steps (front ++ '/' :: back) = steps front ++ steps back := by
  unfold steps splitSlashes
  rw [Text.split_append, List.filterMap_append]

theorem steps_of_notMem (h : '/' ∉ cs) : steps cs = (componentOfPart cs).toList := by
  unfold steps splitSlashes
  rw [Text.split_of_notMem h]
  cases hcs : componentOfPart cs <;> simp [hcs]

@[simp] theorem steps_nil : steps [] = [] := rfl

theorem head?_splitSlashes (cs : List Char) :
    (splitSlashes cs).head? = some (cs.takeWhile (· ≠ '/')) := by
  unfold splitSlashes
  induction cs with
  | nil => rfl
  | cons c rest ih =>
    by_cases hc : c = '/'
    · simp [Text.split, hc]
    · rw [Text.split, if_neg hc, List.takeWhile_cons_of_pos (by simp [hc])]
      cases hs : Text.split '/' rest with
      | nil => exact absurd hs (Text.split_ne_nil '/' rest)
      | cons part parts =>
        rw [hs] at ih
        simpa using ih

theorem startsHere_iff : startsHere cs = true ↔ (splitSlashes cs).head? = some ['.'] := by
  rw [head?_splitSlashes, Option.some.injEq]
  rcases cs with _ | ⟨c, rest⟩
  · simp [startsHere]
  by_cases hc : c = '.'
  · subst hc
    rw [List.takeWhile_cons_of_pos (by decide), List.cons.injEq, eq_self, true_and]
    rcases rest with _ | ⟨d, rest⟩
    · simp [startsHere]
    by_cases hd : d = '/'
    · simp [startsHere, hd]
    · simp [startsHere, hd]
  · refine iff_of_false (fun h => ?_) fun h => ?_
    · unfold startsHere at h
      split at h <;> simp_all
    · by_cases hslash : c = '/' <;> simp_all

theorem leading_cases (cs : List Char) :
    leading cs = [.root] ∧ isAbsoluteText cs = true ∧ startsHere cs = false
      ∨ leading cs = [.here] ∧ isAbsoluteText cs = false ∧ startsHere cs = true
      ∨ leading cs = [] ∧ isAbsoluteText cs = false ∧ startsHere cs = false := by
  unfold leading
  cases habsolute : isAbsoluteText cs
  · cases startsHere cs <;> simp
  · obtain ⟨rest, rfl⟩ := List.head?_eq_some_iff.mp (of_decide_eq_true habsolute)
    simp [startsHere]

theorem isAbsoluteText_eq (cs : List Char) : isAbsoluteText cs = decide (leading cs = [.root]) := by
  rcases leading_cases cs with ⟨h, h', -⟩ | ⟨h, h', -⟩ | ⟨h, h', -⟩ <;> rw [h, h'] <;> rfl

theorem startsHere_eq (cs : List Char) : startsHere cs = decide (leading cs = [.here]) := by
  rcases leading_cases cs with ⟨h, -, h'⟩ | ⟨h, -, h'⟩ | ⟨h, -, h'⟩ <;> rw [h, h'] <;> rfl

/-- A path that is the working directory has no steps. -/
theorem steps_of_here (h : p.components = [.here]) :
    p.isAbsolute = false ∧ steps p.text.toList = [] := by
  rw [components_eq] at h
  rcases leading_cases p.text.toList with hcs | hcs | hcs
  · rw [hcs.1] at h
    cases h
  · rw [hcs.1] at h
    exact ⟨hcs.2.1, List.cons_inj_right _ |>.mp h⟩
  · rw [hcs.1, List.nil_append] at h
    exact absurd rfl (steps_ne (h ▸ List.mem_singleton_self _ : Component.here ∈ _)).2

/-- How a path starts is told by its first part. -/
theorem leading_append_slash (back : List Char) (hne : cs ≠ []) :
    leading (cs ++ '/' :: back) = leading cs := by
  have hhere : startsHere (cs ++ '/' :: back) = startsHere cs := by
    rw [Bool.eq_iff_iff, startsHere_iff, startsHere_iff]
    unfold splitSlashes
    rw [Text.split_append, List.head?_append_of_ne_nil _ (Text.split_ne_nil '/' cs)]
  unfold leading isAbsoluteText
  rw [hhere, List.head?_append_of_ne_nil _ hne]

theorem componentsOfText_append_slash (back : List Char) (hne : cs ≠ []) :
    componentsOfText (cs ++ '/' :: back) = componentsOfText cs ++ steps back := by
  rw [componentsOfText_eq, componentsOfText_eq, leading_append_slash back hne, steps_append_slash,
    List.append_assoc]

/-! ## Names behind a path -/

theorem toList_ne_nil (h : p.isEmpty = false) : p.text.toList ≠ [] := by
  intro hnil
  rw [isEmpty, String.toList_eq_nil_iff.mp hnil] at h
  exact absurd h (by decide)

theorem isAbsolute_ofList (hn : '/' ∉ n) : (Path.mk (String.ofList n)).isAbsolute = false := by
  unfold isAbsolute isAbsoluteText
  rw [String.toList_ofList, decide_eq_false_iff_not]
  exact fun h => hn (List.mem_of_head? h)

/-- The component of a name comes behind those of the path before it. -/
theorem components_join (hp : p.isEmpty = false) (hn : '/' ∉ n) :
    (p.join ⟨String.ofList n⟩).components = p.components ++ (componentOfPart n).toList := by
  have hne := toList_ne_nil hp
  unfold join
  rw [if_neg (by rw [isAbsolute_ofList hn]; exact Bool.false_ne_true), hp, Bool.false_or]
  unfold components
  split
  · rename_i hslash
    obtain ⟨front, hfront⟩ := List.getLast?_eq_some_iff.mp (of_decide_eq_true hslash)
    rw [String.toList_append, String.toList_ofList, hfront, List.append_assoc,
      List.singleton_append]
    cases front with
    | nil =>
      rw [← steps_of_notMem hn]
      rfl
    | cons c rest =>
      rw [componentsOfText_append_slash n (List.cons_ne_nil _ _),
        componentsOfText_append_slash [] (List.cons_ne_nil _ _), steps_nil, List.append_nil,
        steps_of_notMem hn]
  · rw [← steps_of_notMem hn, ← componentsOfText_append_slash n hne]
    simp

theorem eq_of_componentOfPart_none {part : List Char} (h : componentOfPart part = none) :
    part = [] ∨ part = ['.'] := by
  unfold componentOfPart at h
  split at h <;> simp_all

/-- The first part of a relative path that does not start with a `.` counts. -/
theorem exists_first_part (hne : cs ≠ []) (habsolute : isAbsoluteText cs = false)
    (hhere : startsHere cs = false) :
    ∃ first rest, splitSlashes cs = first :: rest ∧ first ≠ [] ∧ first ≠ ['.'] := by
  obtain ⟨first, rest, hparts⟩ := List.exists_cons_of_ne_nil (Text.split_ne_nil '/' cs)
  have hfirst : (splitSlashes cs).head? = some first := by
    rw [splitSlashes, hparts]
    rfl
  refine ⟨first, rest, hparts, ?_, ?_⟩
  · rintro rfl
    obtain ⟨c, others, rfl⟩ := List.exists_cons_of_ne_nil hne
    rw [head?_splitSlashes] at hfirst
    by_cases hc : c = '/'
    · rw [hc] at habsolute
      exact Bool.false_ne_true (habsolute.symm.trans rfl)
    · simp [hc] at hfirst
  · rintro rfl
    exact Bool.false_ne_true (hhere.symm.trans (startsHere_iff.mpr hfirst))

theorem components_ne_nil (h : p.isEmpty = false) : p.components ≠ [] := by
  intro hnil
  obtain ⟨hleading, hsteps⟩ := List.append_eq_nil_iff.mp hnil
  have hstart : isAbsoluteText p.text.toList = false ∧ startsHere p.text.toList = false := by
    rcases leading_cases p.text.toList with hcs | hcs | hcs
    · exact absurd (hcs.1.symm.trans hleading) (by decide)
    · exact absurd (hcs.1.symm.trans hleading) (by decide)
    · exact hcs.2
  obtain ⟨first, rest, hparts, hne, hdot⟩ :=
    exists_first_part (toList_ne_nil h) hstart.1 hstart.2
  rw [hparts, List.filterMap_eq_nil_iff, List.forall_mem_cons] at hsteps
  exact (eq_of_componentOfPart_none hsteps.1).elim hne hdot

/-- A path that is written behind another one. -/
structure Extends (p q : Path) : Prop where
  text : p.text.toList <+: q.text.toList
  components : p.components <+: q.components

theorem Extends.refl (p : Path) : p.Extends p := ⟨List.prefix_rfl, List.prefix_rfl⟩

theorem Extends.trans {r : Path} (h : p.Extends q) (h' : q.Extends r) : p.Extends r :=
  ⟨h.text.trans h'.text, h.components.trans h'.components⟩

theorem extends_join (hp : p.isEmpty = false) (hn : '/' ∉ n) :
    p.Extends (p.join ⟨String.ofList n⟩) := by
  refine ⟨?_, ?_⟩
  · rw [join, if_neg (by rw [isAbsolute_ofList hn]; exact Bool.false_ne_true)]
    split
    · rw [String.toList_append]
      exact List.prefix_append _ _
    · rw [String.toList_append, String.toList_append, List.append_assoc]
      exact List.prefix_append _ _
  · rw [components_join hp hn]
    exact List.prefix_append _ _

/-- A path that is neither empty nor the working directory. -/
structure Leaves (p : Path) : Prop where
  notEmpty : p.isEmpty = false
  notHere : p.components ≠ [.here]

/-- The component of a name alone, unless it is a `.`. -/
theorem components_ofList_of_notMem (hn : '/' ∉ n) (hdot : n ≠ ['.']) :
    (Path.mk (String.ofList n)).components = (componentOfPart n).toList := by
  have hhere : startsHere n = false := by
    rw [← Bool.not_eq_true, startsHere_iff, splitSlashes, Text.split_of_notMem hn]
    simpa using hdot
  have habsolute : isAbsoluteText n = false := by
    simpa [isAbsolute] using isAbsolute_ofList hn
  rw [components_ofList, componentsOfText_eq, leading, habsolute, hhere, steps_of_notMem hn]
  rfl

/-- A name leaves the working directory. -/
theorem leaves_ofList (hn : '/' ∉ n) (hne : n ≠ []) (hdot : n ≠ ['.']) :
    (Path.mk (String.ofList n)).Leaves := by
  refine ⟨?_, fun hhere => ?_⟩
  · rw [← Bool.not_eq_true]
    intro hempty
    rw [isEmpty, String.isEmpty_iff, String.ofList_eq_empty_iff] at hempty
    exact hne hempty
  · rw [components_ofList_of_notMem hn hdot, ← steps_of_notMem hn] at hhere
    exact (steps_ne (hhere ▸ List.mem_singleton_self _ : Component.here ∈ steps n)).2 rfl

theorem Leaves.extends (hp : p.Leaves) (h : p.Extends q) : q.Leaves := by
  refine ⟨?_, fun hq => ?_⟩
  · rw [← Bool.not_eq_true]
    intro hempty
    have hnil := h.text
    rw [String.isEmpty_iff.mp hempty] at hnil
    exact toList_ne_nil hp.notEmpty (List.prefix_nil.mp hnil)
  · have hprefix := h.components
    rw [hq, List.prefix_cons_iff] at hprefix
    rcases hprefix with hnil | ⟨rest, hrest, hnil⟩
    · exact components_ne_nil hp.notEmpty hnil
    · rw [List.prefix_nil.mp hnil] at hrest
      exact hp.notHere hrest

/-! ## Below another path -/

/-- Whether a part of a path counts for nothing. -/
def countsForNothing (part : List Char) : Bool := (componentOfPart part).isNone

theorem filterMap_dropWhile (parts : List (List Char)) :
    (parts.dropWhile countsForNothing).filterMap componentOfPart
      = parts.filterMap componentOfPart := by
  induction parts with
  | nil => rfl
  | cons part rest ih =>
    unfold countsForNothing at *
    cases hpart : componentOfPart part with
    | none =>
      rw [List.dropWhile_cons_of_pos (by rw [hpart]; rfl), ih, List.filterMap_cons, hpart]
    | some c => rw [List.dropWhile_cons_of_neg (by rw [hpart]; exact Bool.false_ne_true)]

theorem dropComponents_cons {c : Component} {rest : List Component} {part : List Char}
    {parts others : List (List Char)} (h : parts.dropWhile countsForNothing = part :: others) :
    dropComponents (c :: rest) parts
      = if componentOfPart part = some c then dropComponents rest others else none := by
  unfold countsForNothing at h
  rw [dropComponents, h]

/-- Components that come first among those of some parts can be taken away, and the other
components stay. What stays starts with a part that counts. -/
theorem dropComponents_eq_some {cs ds : List Component} {parts : List (List Char)}
    (h : parts.filterMap componentOfPart = cs ++ ds) :
    ∃ others, dropComponents cs parts = some others ∧ others <:+ parts
      ∧ others.filterMap componentOfPart = ds
      ∧ ∀ part ∈ others.head?, (componentOfPart part).isSome := by
  induction cs generalizing parts with
  | nil =>
    refine ⟨parts.dropWhile countsForNothing, rfl, List.dropWhile_suffix _, ?_, ?_⟩
    · rw [filterMap_dropWhile, h, List.nil_append]
    · intro part hpart
      have hcounts := List.head?_dropWhile_not countsForNothing parts
      rw [Option.mem_def.mp hpart] at hcounts
      exact Option.isNone_eq_false_iff.mp hcounts
  | cons c rest ih =>
    rw [← filterMap_dropWhile, List.cons_append] at h
    have hsuffix : parts.dropWhile countsForNothing <:+ parts := List.dropWhile_suffix _
    have hhead := List.head?_dropWhile_not countsForNothing parts
    cases hparts : parts.dropWhile countsForNothing with
    | nil =>
      rw [hparts] at h
      cases h
    | cons part others =>
      rw [hparts] at h hhead hsuffix
      obtain ⟨d, hd⟩ := Option.isSome_iff_exists.mp (Option.isNone_eq_false_iff.mp hhead)
      rw [List.filterMap_cons, hd, List.cons.injEq] at h
      obtain ⟨rfl, h⟩ := h
      obtain ⟨left, hleft, hback, hcomponents, hcounts⟩ := ih h
      refine ⟨left, ?_, hback.trans ((List.suffix_cons part others).trans hsuffix), hcomponents,
        hcounts⟩
      rw [dropComponents_cons hparts, if_pos hd, hleft]

/-- Parts that are put together with slashes are the parts of the text. -/
theorem splitSlashes_intercalate {parts : List (List Char)} (hne : parts ≠ [])
    (hparts : ∀ part ∈ parts, '/' ∉ part) : splitSlashes (['/'].intercalate parts) = parts := by
  unfold splitSlashes
  induction parts with
  | nil => exact absurd rfl hne
  | cons part rest ih =>
    rw [List.forall_mem_cons] at hparts
    cases rest with
    | nil => simpa [List.intercalate] using Text.split_of_notMem hparts.1
    | cons next others =>
      rw [List.intercalate_cons_cons, List.append_assoc, List.singleton_append, Text.split_append,
        Text.split_of_notMem hparts.1, ih (List.cons_ne_nil _ _) hparts.2, List.singleton_append]

/-- A text that starts with a part that counts has the components of its parts. -/
theorem componentsOfText_intercalate {parts : List (List Char)}
    (hparts : ∀ part ∈ parts, '/' ∉ part)
    (hcounts : ∀ part ∈ parts.head?, (componentOfPart part).isSome) :
    componentsOfText (['/'].intercalate parts) = parts.filterMap componentOfPart := by
  cases parts with
  | nil => rfl
  | cons part rest =>
    have hsplit := splitSlashes_intercalate (List.cons_ne_nil part rest) hparts
    have hpart : (componentOfPart part).isSome := hcounts part rfl
    have hhere : startsHere (['/'].intercalate (part :: rest)) = false := by
      rw [← Bool.not_eq_true, startsHere_iff, hsplit, List.head?_cons, Option.some.injEq]
      rintro rfl
      exact absurd hpart (by decide)
    have habsolute : isAbsoluteText (['/'].intercalate (part :: rest)) = false := by
      rw [← Bool.not_eq_true, isAbsoluteText, decide_eq_true_iff]
      intro h
      obtain ⟨back, hback⟩ := List.head?_eq_some_iff.mp h
      have hhead := head?_splitSlashes (['/'].intercalate (part :: rest))
      rw [hsplit, hback] at hhead
      obtain rfl : part = [] := by simpa using hhead
      exact absurd hpart (by decide)
    rw [componentsOfText_eq, leading, habsolute, hhere, steps, hsplit]
    rfl

/-- How a path starts is told by its first component. -/
theorem leading_eq (cs : List Char) :
    leading cs
      = ((componentsOfText cs).head?.filter fun c => c = .root ∨ c = .here).toList := by
  rw [componentsOfText_eq]
  rcases leading_cases cs with ⟨h, -⟩ | ⟨h, -⟩ | ⟨h, -⟩
  · rw [h]
    rfl
  · rw [h]
    rfl
  · rw [h, List.nil_append]
    cases hsteps : steps cs with
    | nil => rfl
    | cons c rest =>
      have hc := steps_ne (hsteps ▸ List.mem_cons_self : c ∈ steps cs)
      simp [hc.1, hc.2]

/-- Paths that start with the same components start alike, unless these are none. -/
theorem starts_of_components {cs : List Component} (hbase : base.components ≠ [])
    (h : p.components = base.components ++ cs) :
    p.isAbsolute = base.isAbsolute ∧ startsHere p.text.toList = startsHere base.text.toList
      ∧ steps p.text.toList = steps base.text.toList ++ cs := by
  have hleading : leading p.text.toList = leading base.text.toList := by
    rw [leading_eq, leading_eq]
    change ((p.components.head?).filter _).toList = ((base.components.head?).filter _).toList
    rw [h, List.head?_append_of_ne_nil _ hbase]
  refine ⟨?_, ?_, ?_⟩
  · rw [isAbsolute, isAbsolute, isAbsoluteText_eq, isAbsoluteText_eq, hleading]
  · rw [startsHere_eq, startsHere_eq, hleading]
  · rw [components_eq, components_eq, hleading, List.append_assoc] at h
    exact List.append_cancel_left h

/-- What is left of a path below another one are its other components. -/
theorem components_relativeTo {cs : List Component} (hbase : base.components ≠ [])
    (h : p.components = base.components ++ cs) : (p.relativeTo base).components = cs := by
  obtain ⟨habsolute, hhere, hsteps⟩ := starts_of_components hbase h
  obtain ⟨others, hothers, hsuffix, hcomponents, hcounts⟩ := dropComponents_eq_some hsteps
  have hnoslash : ∀ part ∈ others, '/' ∉ part := fun part hpart =>
    Text.sep_notMem_split (hsuffix.subset hpart)
  have hleft : p.relativeTo base = ⟨String.ofList (['/'].intercalate others)⟩ := by
    unfold relativeTo
    split
    · rename_i hnil
      exact absurd hnil hbase
    · unfold steps at hothers
      rw [if_pos ⟨habsolute, hhere⟩]
      simp only [hothers]
  rw [hleft, components_ofList, componentsOfText_intercalate hnoslash hcounts, hcomponents]

theorem relativeTo_of_components_nil (h : base.components = []) : p.relativeTo base = p := by
  unfold relativeTo
  rw [h]

/-! ## Trails -/

/-- The components of a path, but for a `.` at its start. -/
def trail (p : Path) : List Component := p.components.filter (· ≠ .here)

theorem head?_eq_here_iff :
    p.components.head? = some .here
      ↔ leading p.text.toList = [.here] ∧ isAbsoluteText p.text.toList = false
        ∧ startsHere p.text.toList = true := by
  rw [components_eq]
  constructor
  · intro h
    have hleading := leading_eq p.text.toList
    rw [componentsOfText_eq, h] at hleading
    rcases leading_cases p.text.toList with hcs | hcs | hcs
    · exact absurd (hcs.1.symm.trans hleading) (by decide)
    · exact hcs
    · exact absurd (hcs.1.symm.trans hleading) (by decide)
  · rintro ⟨hleading, -⟩
    rw [hleading]
    rfl

theorem startsHere_iff_head? :
    startsHere p.text.toList = true ↔ p.components.head? = some .here := by
  rw [head?_eq_here_iff]
  rcases leading_cases p.text.toList with h | h | h <;> simp [h]

/-- Without a `.` at its start a path is not below one that has it. -/
theorem relativeTo_of_head? (hbase : base.components.head? = some .here)
    (hp : p.components.head? ≠ some .here) : p.relativeTo base = p := by
  have hne : base.components ≠ [] := by
    intro hnil
    rw [hnil] at hbase
    cases hbase
  have hstart : ¬ startsHere p.text.toList = startsHere base.text.toList := by
    rw [startsHere_iff_head?.mpr hbase]
    exact mt startsHere_iff_head?.mp hp
  unfold relativeTo
  split
  · rfl
  · rw [if_neg fun h => hstart h.2]

/-- Below the working directory a path is as it was. -/
theorem trail_relativeTo_here (h : base.components = [.here]) :
    (p.relativeTo base).trail = p.trail := by
  by_cases hp : p.components.head? = some .here
  · have hcomponents : p.components = base.components ++ steps p.text.toList := by
      rw [h, components_eq, (head?_eq_here_iff.mp hp).1]
    unfold trail
    rw [components_relativeTo (by rw [h]; exact List.cons_ne_nil _ _) hcomponents, hcomponents, h]
    rfl
  · rw [relativeTo_of_head? (by rw [h]; rfl) hp]

end DialogueBuild.Path
