import DialogueBuild.Text.Split
import Mathlib.Data.List.Basic
import Mathlib.Data.List.Induction
/-!
Indented lines, and the tables that they open and close.

A line opens a table if it ends in a brace, and closes one if a brace is the first thing on it. What
is nested in this sense can be put together line by line: a field is one line, or the lines of a
table; the fields of a table are put one below the other.

Results:

1. `split_lines`                        lines that are put one below the other are the lines of the
                                        text;
2. `IsNested.append`, `IsNested.table`  how nested lines are put together;
3. `isField_line`, `isField_table`      what the lines of a field are;
4. `areFields_of_isField`, `AreFields.above`
                                        and those of all fields of a table.
-/
namespace DialogueBuild.Text

/-! ## Indented texts -/

abbrev blanks (width : Nat) : List Char := List.replicate width ' '

/-- The text with so many more blanks behind every newline. -/
def indented (width : Nat) (cs : List Char) : List Char :=
  cs.flatMap fun c => if c = '\n' then '\n' :: blanks width else [c]

@[simp] theorem indented_append (width : Nat) (front back : List Char) :
    indented width (front ++ back) = indented width front ++ indented width back :=
  List.flatMap_append

theorem indented_cons (width : Nat) {c : Char} (h : c ≠ '\n') (cs : List Char) :
    indented width (c :: cs) = c :: indented width cs := by
  simp [indented, h]

theorem indented_of_notMem (width : Nat) {cs : List Char} (h : '\n' ∉ cs) :
    indented width cs = cs := by
  induction cs with
  | nil => rfl
  | cons c cs ih =>
    rw [List.mem_cons, not_or] at h
    rw [indented_cons width (Ne.symm h.1), ih h.2]

/-! ## Lines -/

/-- The blanks in front of a line. -/
def indentation (line : List Char) : Nat := (line.takeWhile (· = ' ')).length

theorem indentation_blanks (width : Nat) {cs : List Char} (h : cs.head? ≠ some ' ') :
    indentation (blanks width ++ cs) = width := by
  have hblanks : ∀ c ∈ blanks width, decide (c = ' ') = true :=
    fun c hc => decide_eq_true (List.eq_of_mem_replicate hc)
  have hrest : cs.takeWhile (· = ' ') = [] := by
    cases cs with
    | nil => rfl
    | cons c cs => exact List.takeWhile_cons_of_neg (by simpa using h)
  rw [indentation, List.takeWhile_append_of_pos hblanks, hrest, List.append_nil,
    List.length_replicate]

/-- A table is open behind the line. -/
def Opens (line : List Char) : Prop := line.getLast? = some '{'

/-- The line starts with the end of a table. -/
def Closes (line : List Char) : Prop := (line.dropWhile (· = ' ')).head? = some '}'

theorem closes_blanks (width : Nat) (rest : List Char) : Closes (blanks width ++ '}' :: rest) := by
  have hblanks : ∀ c ∈ blanks width, decide (c = ' ') = true :=
    fun c hc => decide_eq_true (List.eq_of_mem_replicate hc)
  rw [Closes, List.dropWhile_append_of_pos hblanks]
  rfl

def EndsInComma (line : List Char) : Prop := line.getLast? = some ','

instance (line : List Char) : Decidable (Opens line) := inferInstanceAs (Decidable (_ = _))

instance (line : List Char) : Decidable (Closes line) := inferInstanceAs (Decidable (_ = _))

instance (line : List Char) : Decidable (EndsInComma line) := inferInstanceAs (Decidable (_ = _))

/-- Lines that are put one below the other are the lines of the text. -/
theorem split_lines {lines : List (List Char)} (h : ∀ line ∈ lines, '\n' ∉ line) {cs : List Char}
    (hcs : '\n' :: cs = lines.flatMap fun line => '\n' :: line) : split '\n' cs = lines := by
  have hlines : split '\n' (lines.flatMap fun line => '\n' :: line) = [] :: lines := by
    clear hcs
    induction lines using List.reverseRecOn with
    | nil => rfl
    | append_singleton lines last ih =>
      rw [List.forall_mem_append, List.forall_mem_singleton] at h
      rw [List.flatMap_append, List.flatMap_singleton, split_append, ih h.1, split_of_notMem h.2,
        List.cons_append]
  have hstart : split '\n' ('\n' :: cs) = [] :: split '\n' cs := split_append '\n' [] cs
  rw [hcs, hlines] at hstart
  exact (List.cons.inj hstart).2.symm

/-! ## Tables -/

/-- The lines of fields that start at an indentation. A line at this indentation that leaves no
table open ends a field: it ends in a comma if and only if there are more lines, and then the next
one starts a field. -/
structure StandAt (width : Nat) (lines : List (List Char)) : Prop where
  starts : ∃ first rest, lines = first :: rest ∧ indentation first = width
  deeper : ∀ line ∈ lines, width ≤ indentation line
  ends : ∀ front line back, lines = front ++ line :: back → indentation line = width →
    ¬ Opens line → (EndsInComma line ↔ back ≠ []) ∧ ∀ next ∈ back.head?, indentation next = width

/-- The lines between one that opens a table and the one that closes it, which has the same
indentation: the lines of the fields, two blanks deeper. -/
structure Encloses (opening : List Char) (inner : List (List Char)) (closing : List Char) :
    Prop where
  closes : Closes closing
  aligned : indentation closing = indentation opening
  fields : StandAt (indentation opening + 2) inner

/-- Every table that a line opens is closed by a later line. -/
def IsNested (lines : List (List Char)) : Prop :=
  ∀ front opening rest, lines = front ++ opening :: rest → Opens opening →
    ∃ inner closing back, rest = inner ++ closing :: back ∧ Encloses opening inner closing

section

variable {width : Nat} {line opening closing : List Char} {lines others inner : List (List Char)}

/-- A list in two parts, parted at an item: that is in the first part or in the second one. -/
theorem append_eq_append_cons {α : Type} {as bs front rest : List α} {x : α} :
    as ++ bs = front ++ x :: rest
      ↔ (∃ more, as = front ++ x :: more ∧ rest = more ++ bs)
        ∨ ∃ before, front = as ++ before ∧ bs = before ++ x :: rest := by
  rw [List.append_eq_append_iff]
  constructor
  · rintro (⟨before, hfront, hbs⟩ | ⟨back, has, hrest⟩)
    · exact .inr ⟨before, hfront, hbs⟩
    · cases back with
      | nil => exact .inr ⟨[], by simpa using has.symm, hrest.symm⟩
      | cons y more =>
        obtain ⟨rfl, htail⟩ := List.cons_eq_cons.mp hrest
        exact .inl ⟨more, has, htail⟩
  · rintro (⟨more, rfl, rfl⟩ | ⟨before, rfl, rfl⟩)
    · exact .inr ⟨x :: more, rfl, rfl⟩
    · exact .inl ⟨before, rfl, rfl⟩

theorem isNested_line (h : ¬ Opens line) : IsNested [line] := by
  intro front opening rest hlines hopens
  obtain ⟨-, rfl, -⟩ : front = [] ∧ opening = line ∧ rest = [] := by
    cases front with
    | nil => simpa [eq_comm] using hlines
    | cons first front => simp at hlines
  exact absurd hopens h

theorem IsNested.append (h : IsNested lines) (hothers : IsNested others) :
    IsNested (lines ++ others) := by
  intro front opening rest hlines hopens
  rcases append_eq_append_cons.mp hlines with ⟨more, hfirst, rfl⟩ | ⟨before, -, hsecond⟩
  · obtain ⟨inner, closing, back, rfl, hencloses⟩ := h front opening more hfirst hopens
    exact ⟨inner, closing, back ++ others, by simp, hencloses⟩
  · exact hothers before opening rest hsecond hopens

/-- A table with nested lines in it. -/
theorem IsNested.table (h : IsNested inner) (hencloses : Encloses opening inner closing)
    (hclosing : ¬ Opens closing) : IsNested (opening :: (inner ++ [closing])) := by
  intro front line rest hlines hopens
  cases front with
  | nil =>
    obtain ⟨rfl, rfl⟩ := List.cons_eq_cons.mp hlines
    exact ⟨inner, closing, [], rfl, hencloses⟩
  | cons first front =>
    rw [List.cons_append, List.cons_eq_cons] at hlines
    exact h.append (isNested_line hclosing) front line rest hlines.2 hopens

/-! ## Fields -/

/-- The lines of a field that starts at an indentation. Only its last line leaves no table open
there, and that line has a comma if and only if the field is to have one. -/
structure IsField (width : Nat) (comma : Prop) (lines : List (List Char)) : Prop where
  starts : ∃ first rest, lines = first :: rest ∧ indentation first = width
  deeper : ∀ line ∈ lines, width ≤ indentation line
  nested : IsNested lines
  ends : ∀ front line back, lines = front ++ line :: back → indentation line = width →
    ¬ Opens line → back = [] ∧ (EndsInComma line ↔ comma)

/-- The lines of all fields of a table. -/
structure AreFields (width : Nat) (lines : List (List Char)) : Prop where
  stand : StandAt width lines
  nested : IsNested lines

variable {comma : Prop}

theorem isField_line (hwidth : indentation line = width) (hopens : ¬ Opens line)
    (hcomma : EndsInComma line ↔ comma) : IsField width comma [line] where
  starts := ⟨line, [], rfl, hwidth⟩
  deeper := by simp [hwidth]
  nested := isNested_line hopens
  ends := by
    intro front other back hlines _ _
    cases front with
    | nil =>
      obtain ⟨rfl, rfl⟩ := List.cons_eq_cons.mp hlines
      exact ⟨rfl, hcomma⟩
    | cons first front => simp at hlines

/-- A table is a field. Of its lines only the first and the last one stand at its indentation. -/
theorem isField_table (hopening : indentation opening = width) (hopens : Opens opening)
    (hinner : AreFields (width + 2) inner) (hclosing : indentation closing = width)
    (hcloses : Closes closing) (hend : ¬ Opens closing) (hcomma : EndsInComma closing ↔ comma) :
    IsField width comma (opening :: (inner ++ [closing])) where
  starts := ⟨opening, inner ++ [closing], rfl, hopening⟩
  deeper := by
    intro line hline
    simp only [List.mem_cons, List.mem_append, List.not_mem_nil, or_false] at hline
    rcases hline with rfl | hline | rfl
    · exact Nat.le_of_eq hopening.symm
    · exact Nat.le_trans (Nat.le_add_right width 2) (hinner.stand.deeper line hline)
    · exact Nat.le_of_eq hclosing.symm
  nested :=
    hinner.nested.table ⟨hcloses, hclosing.trans hopening.symm, hopening ▸ hinner.stand⟩ hend
  ends := by
    intro front line back hlines hwidth hline
    cases front with
    | nil =>
      obtain ⟨rfl, -⟩ := List.cons_eq_cons.mp hlines
      exact absurd hopens hline
    | cons first front =>
      rw [List.cons_append, List.cons_eq_cons] at hlines
      rcases append_eq_append_cons.mp hlines.2 with ⟨more, rfl, -⟩ | ⟨before, -, hlast⟩
      · have hdeeper := hinner.stand.deeper line (by simp)
        omega
      · exact (isField_line hclosing hend hcomma).ends before line back hlast hwidth hline

/-- The lines of the last field, without a comma. -/
theorem areFields_of_isField (h : IsField width False lines) : AreFields width lines where
  stand :=
    { starts := h.starts
      deeper := h.deeper
      ends := by
        intro front line back hlines hwidth hline
        obtain ⟨rfl, hcomma⟩ := h.ends front line back hlines hwidth hline
        exact ⟨by simp [hcomma], by simp⟩ }
  nested := h.nested

/-- A field with a comma above other fields. -/
theorem AreFields.above (hothers : AreFields width others) (h : IsField width True lines) :
    AreFields width (lines ++ others) where
  stand :=
    { starts := by
        obtain ⟨first, rest, rfl, hfirst⟩ := h.starts
        exact ⟨first, rest ++ others, rfl, hfirst⟩
      deeper := by
        intro line hline
        rcases List.mem_append.mp hline with hline | hline
        · exact h.deeper line hline
        · exact hothers.stand.deeper line hline
      ends := by
        intro front line back hlines hwidth hline
        rcases append_eq_append_cons.mp hlines with ⟨more, hfirst, rfl⟩ | ⟨before, -, hsecond⟩
        · -- The field ends here, and the next line is the first one of the others.
          obtain ⟨rfl, hcomma⟩ := h.ends front line more hfirst hwidth hline
          obtain ⟨next, rest, rfl, hnext⟩ := hothers.stand.starts
          exact ⟨by simp [hcomma], by simp [hnext]⟩
        · exact hothers.stand.ends before line back hsecond hwidth hline }
  nested := h.nested.append hothers.nested

end

end DialogueBuild.Text
