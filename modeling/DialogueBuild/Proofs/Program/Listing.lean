import DialogueBuild.Program.Listing
import DialogueBuild.Proofs.Text.Controls
/-!
What a listing shows of a program, and where.

The labels of a node are grouped by their targets, and taken away group by group while the
instructions are listed; those that are left stand behind all instructions. So every label stands at
its target, and at no other place.

Results:

1. `length_digitsOf`                      how many digits a number has;
2. `shows_instruction`                    the line of an instruction shows all of it, on one line;
3. `shown_ofInstructions`, `before_left`  which labels stand before an instruction, and which are
                                          left behind the last one;
4. `lists_in_place`                       what the text of a node, and of a program, consists of.
-/
namespace DialogueBuild

open Decimal (digitsOf)
open Json (digitsValue)
open Text (NoControls)

/-! ## Widths of numbers -/

namespace Listing

/-- A number lies between the powers of ten on both sides of its logarithm. -/
theorem pow_logDown {n : Nat} (h : 0 < n) : 10 ^ logDown n ≤ n ∧ n < 10 ^ (logDown n + 1) := by
  fun_induction logDown n with
  | case1 n hlarge ih =>
    have hquotient : 0 < n / 10 := Nat.div_pos hlarge (by decide)
    obtain ⟨hlow, hhigh⟩ := ih hquotient
    rw [Nat.pow_succ, Nat.pow_succ _ (logDown (n / 10) + 1)]
    omega
  | case2 n hsmall => simpa using ⟨h, by omega⟩

theorem length_digitsOf_le_iff {n k : Nat} (hk : 0 < k) : (digitsOf n).length ≤ k ↔ n < 10 ^ k :=
  Nat.length_toDigits_le_iff (by decide) hk

/-- A positive number has one digit more than its logarithm. -/
theorem length_digitsOf {n : Nat} (h : 0 < n) : (digitsOf n).length = logDown n + 1 := by
  obtain ⟨hlow, hhigh⟩ := pow_logDown h
  have hle : (digitsOf n).length ≤ logDown n + 1 :=
    (length_digitsOf_le_iff (Nat.succ_pos _)).mpr hhigh
  have hne : 0 < (digitsOf n).length := List.length_pos_iff.mpr (Decimal.digitsOf_ne_nil n)
  have hge : logDown n < (digitsOf n).length := by
    by_contra! hless
    have hlt : n < 10 ^ logDown n := (length_digitsOf_le_iff (by omega)).mp hless
    omega
  omega

theorem indexWidth_eq (count : Nat) : indexWidth count = (digitsOf (count - 1)).length := by
  unfold indexWidth
  split
  · have hzero : count - 1 = 0 := by omega
    rw [hzero]
    rfl
  · exact (length_digitsOf (by omega)).symm

/-- An index as one of so many: all are equally wide. -/
theorem length_indexText {count index : Nat} (h : index < count) :
    (indexText (indexWidth count) index).length = (digitsOf (count - 1)).length := by
  have hwidth : 0 < (digitsOf (count - 1)).length :=
    List.length_pos_iff.mpr (Decimal.digitsOf_ne_nil _)
  have hlast := Decimal.lt_pow_length (count - 1)
  have hfits : (digitsOf index).length ≤ (digitsOf (count - 1)).length :=
    (length_digitsOf_le_iff hwidth).mpr (by omega)
  simp only [indexText, indexWidth_eq, List.length_append, List.length_replicate]
  omega

theorem digitsValue_indexText (width index : Nat) :
    digitsValue (indexText width index) = index := by
  simp only [indexText, Decimal.digitsValue_append, Decimal.digitsValue_zeros, Nat.zero_mul,
    Nat.zero_add, Decimal.digitsValue_digitsOf]

theorem isDigit_indexText {width index : Nat} : ∀ c ∈ indexText width index, c.isDigit := by
  intro c hc
  rcases List.mem_append.mp hc with hc | hc
  · rw [List.eq_of_mem_replicate hc]
    decide
  · exact Decimal.isDigit_of_mem_digitsOf hc

/-! ## Uncoloured text -/

/-- The text of a listing without colours. -/
def shown (l : Listing) : List Char := l.paint .plain

@[simp] theorem shown_nil : shown [] = [] := rfl

@[simp] theorem shown_cons (s : Stretch) (l : Listing) : shown (s :: l) = s.text ++ shown l := by
  have hpaint : s.paint .plain = s.text := by
    unfold Stretch.paint
    split <;> simp [Palette.plain]
  simp [shown, paint, hpaint]

@[simp] theorem shown_append (l m : Listing) : shown (l ++ m) = shown l ++ shown m := by
  simp [shown, paint]

@[simp] theorem shown_flatMap {α : Type} (f : α → Listing) (items : List α) :
    shown (items.flatMap f) = items.flatMap fun a => shown (f a) := by
  induction items with
  | nil => rfl
  | cons a rest ih => rw [List.flatMap_cons, List.flatMap_cons, shown_append, ih]

@[simp] theorem text_plain (cs : List Char) : (plain cs).text = cs := rfl

@[simp] theorem text_blue (cs : List Char) : (blue cs).text = cs := rfl

@[simp] theorem text_dim (cs : List Char) : (dim cs).text = cs := rfl

@[simp] theorem text_lineEnd : lineEnd.text = ['\n'] := rfl

/-! ## Lines -/

def headerLine (h : Header) : List Char :=
  [' ', ' ', ';', ' '] ++ h.key.toList ++ [':', ' '] ++ h.value.toList ++ ['\n']

def tagsLine (tags : List String) : List Char :=
  [' ', ' ', ';'] ++ tags.flatMap (fun tag => [' ', '#'] ++ tag.toList) ++ ['\n']

def labelLine (label : String) : List Char := [' ', ' '] ++ label.toList ++ [':', '\n']

def operandText (o : Operand) : List Char := ' ' :: o.plain.display

def initialValueLine (name : String) (value : Operand) : List Char :=
  name.toList ++ [' ', '='] ++ operandText value ++ ['\n']

theorem shown_ofHeader (h : Header) : shown (ofHeader h) = headerLine h := by
  simp [ofHeader, headerLine]

theorem shown_ofTags (tags : List String) :
    shown (ofTags tags) = if tags = [] then [] else tagsLine tags := by
  cases tags with
  | nil => rfl
  | cons tag rest => simp [ofTags, tagsLine]

theorem shown_ofLabel (label : String) : shown (ofLabel label) = labelLine label := by
  simp [ofLabel, labelLine]

theorem shown_ofLabels (labels : List String) :
    shown (ofLabels labels) = labels.flatMap labelLine := by
  simp [ofLabels, shown_ofLabel]

theorem shown_ofOperand (o : Operand) : shown (ofOperand o) = operandText o := by
  simp [ofOperand, operandText]

/-! ### Instructions -/

/-- An instruction shows a line of dialogue if it runs the line or adds it as an option, and its
first operand is the id of the line. -/
def ShowsLine (strings : Table StringEntry) (i : Instruction) (text : String) : Prop :=
  (i.opcode = .runLine ∨ i.opcode = .addOption) ∧
    ∃ id entry, i.operands.head? = some (.string id) ∧ strings.get? id = some entry
      ∧ entry.text = text

/-- A line of dialogue as a comment. -/
def comment (text : String) : List Char := [' ', ' ', ';', ' '] ++ Text.quoted text.toList

/-- The parts of an instruction's line that are not the instruction itself. -/
structure Surrounds (strings : Table StringEntry) (count index : Nat) (i : Instruction)
    (number tail : List Char) : Prop where
  /-- The last of the indices needs as many digits. -/
  width : number.length = (digitsOf (count - 1)).length
  digits : ∀ c ∈ number, c.isDigit
  value : digitsValue number = index
  commented : ∀ text, ShowsLine strings i text → tail = comment text
  silent : (¬ ∃ text, ShowsLine strings i text) → tail = []

/-- A text is a line that shows an instruction with its index, one of so many. -/
def ShowsInstruction (strings : Table StringEntry) (count index : Nat) (i : Instruction)
    (text : List Char) : Prop :=
  ∃ number tail, Surrounds strings count index i number tail ∧
    ∃ line, text = line ++ ['\n'] ∧ '\n' ∉ line ∧
      line = [' ', ' ', ' ', ' '] ++ number ++ [' '] ++ i.opcode.name.toList
        ++ i.operands.flatMap operandText ++ tail

theorem lineId?_eq_some_iff {i : Instruction} {id : String} :
    lineId? i = some id ↔
      (i.opcode = .runLine ∨ i.opcode = .addOption) ∧ i.operands.head? = some (.string id) := by
  have htext (o : Operand) : o.text? = some id ↔ o = .string id := by
    cases o <;> simp [Operand.text?]
  unfold lineId?
  cases i.opcode <;> simp [Option.bind_eq_some_iff, htext]

theorem shown_ofLineText {strings : Table StringEntry} {i : Instruction} {text : String}
    (h : ShowsLine strings i text) : shown (ofLineText strings i) = comment text := by
  obtain ⟨hopcode, id, entry, hoperand, hentry, rfl⟩ := h
  have hid : lineId? i = some id := lineId?_eq_some_iff.mpr ⟨hopcode, hoperand⟩
  simp [ofLineText, hid, hentry, comment]

theorem ofLineText_eq_nil {strings : Table StringEntry} {i : Instruction}
    (h : ¬ ∃ text, ShowsLine strings i text) : ofLineText strings i = [] := by
  unfold ofLineText
  cases hentry : (lineId? i).bind strings.get? with
  | none => rfl
  | some entry =>
    obtain ⟨id, hid, hget⟩ := Option.bind_eq_some_iff.mp hentry
    obtain ⟨hopcode, hoperand⟩ := lineId?_eq_some_iff.mp hid
    exact absurd ⟨entry.text, hopcode, id, entry, hoperand, hget, rfl⟩ h

theorem noControls_operandText (o : Operand) : NoControls (operandText o) := by
  have hdisplay : NoControls o.plain.display := by
    cases o with
    | unset => simp [Operand.plain, Plain.display]
    | float x => exact Decimal.Layout.noControls_write _ x
    | bool b => cases b <;> simp [Operand.plain, Plain.display, Json.boolText]
    | string s => exact Text.noControls_quoted s.toList
  simpa [operandText] using hdisplay

theorem noControls_ofLineText (strings : Table StringEntry) (i : Instruction) :
    NoControls (shown (ofLineText strings i)) := by
  unfold ofLineText
  split <;> simp [Text.noControls_quoted]

/-- The line of an instruction shows it, and whatever its operands are, it is one line. -/
theorem shows_instruction (strings : Table StringEntry) {count index : Nat} (h : index < count)
    (i : Instruction) :
    ShowsInstruction strings count index i
      (shown (ofNumbered strings (indexWidth count) index i)) := by
  have hname : NoControls i.opcode.name.toList := by cases i.opcode <;> decide
  have hnumber : NoControls (indexText (indexWidth count) index) :=
    Text.noControls_of_isDigit isDigit_indexText
  have hoperands : NoControls (i.operands.flatMap operandText) :=
    Text.noControls_flatMap fun o _ => noControls_operandText o
  refine ⟨indexText (indexWidth count) index, shown (ofLineText strings i),
    ⟨length_indexText h, isDigit_indexText, digitsValue_indexText _ _, fun _ => shown_ofLineText,
      fun hnone => by rw [ofLineText_eq_nil hnone]; rfl⟩, _, ?_, ?_, rfl⟩
  · simp [ofNumbered, ofInstruction, shown_ofOperand]
  · refine NoControls.newline_notMem ?_
    simp [hname, hnumber, hoperands, noControls_ofLineText]

end Listing

/-! ## Labels -/

namespace Labels

theorem before_foldl (labels : List (String × Nat)) (ls : Labels) (k : Nat) :
    (labels.foldl (fun ls (label, index) => ls.add index label) ls).before k
      = ls.before k ++ (labels.filter (·.2 = k)).map Prod.fst := by
  induction labels generalizing ls with
  | nil => simp
  | cons l rest ih =>
    obtain ⟨label, index⟩ := l
    rw [List.foldl_cons, ih, before_add]
    by_cases hk : k = index
    · subst hk
      simp
    · have hk' : index ≠ k := Ne.symm hk
      simp [hk, hk']

/-- The labels before an index are those with this target, in order of declaration. -/
theorem before_ofList (labels : List (String × Nat)) (k : Nat) :
    (ofList labels).before k = (labels.filter (·.2 = k)).map Prod.fst := by
  rw [ofList, before_foldl, before_empty, List.nil_append]

/-- All labels with their indices. -/
def placed (ls : Labels) : List (String × Nat) :=
  ls.groups.flatMap fun g => g.2.map fun label => (label, g.1)

theorem map_fst_placed (ls : Labels) : ls.placed.map Prod.fst = ls.inOrder := by
  simp [placed, inOrder, List.map_flatMap, Function.comp_def]

theorem placed_ascending (ls : Labels) : ls.placed.Pairwise fun a b => a.2 ≤ b.2 := by
  obtain ⟨groups, h⟩ := ls
  induction groups with
  | nil => exact .nil
  | cons g rest ih =>
    obtain ⟨hfirst, hrest⟩ := ascending_cons.mp h
    refine List.pairwise_append.mpr ⟨?_, ih hrest, ?_⟩
    · exact List.pairwise_map.mpr (List.pairwise_of_forall fun _ _ => le_rfl)
    · intro a ha b hb
      obtain ⟨label, -, rfl⟩ := List.mem_map.mp ha
      obtain ⟨g', hg', hb⟩ := List.mem_flatMap.mp hb
      obtain ⟨label', -, rfl⟩ := List.mem_map.mp hb
      exact (hfirst g' hg').le

theorem filter_placed (ls : Labels) (k : Nat) :
    ls.placed.filter (·.2 = k) = (ls.before k).map fun label => (label, k) := by
  obtain ⟨groups, h⟩ := ls
  induction groups with
  | nil => rfl
  | cons g rest ih =>
    obtain ⟨j, labels⟩ := g
    obtain ⟨hfirst, hrest⟩ := ascending_cons.mp h
    have hplaced : placed ⟨(j, labels) :: rest, h⟩
        = (labels.map fun label => (label, j)) ++ placed ⟨rest, hrest⟩ := rfl
    rw [hplaced, List.filter_append, ih hrest, before, before, labelsOf_cons]
    by_cases hj : j = k
    · have hnone : labelsOf k rest = [] := labelsOf_eq_nil fun g hg => by
        have := hfirst g hg
        omega
      simp [hj, hnone, List.filter_map, Function.comp_def]
    · simp [hj, List.filter_map, Function.comp_def]

end Labels

namespace Listing

/-- The labels with a target, in order of declaration. -/
def labelsAt (declared : List (String × Nat)) (k : Nat) : List String :=
  (declared.filter (·.2 = k)).map Prod.fst

/-- The labels whose targets are so large or larger, by their targets; those with the same target
stay in order of declaration. -/
structure InTargetOrder (declared : List (String × Nat)) (count : Nat)
    (late : List (String × Nat)) : Prop where
  ascending : late.Pairwise fun a b => a.2 ≤ b.2
  stable : ∀ k, late.filter (·.2 = k) = if count ≤ k then declared.filter (·.2 = k) else []

/-- Instructions stand in order, each behind the labels that stand before its index. -/
theorem shown_ofInstructions (strings : Table StringEntry) (width index : Nat) (labels : Labels)
    (is : List Instruction) :
    shown (ofInstructions strings width index labels is).1
      = (is.zipIdx index).flatMap fun e =>
          (labels.before e.2).flatMap labelLine ++ shown (ofNumbered strings width e.2 e.1) := by
  induction is generalizing index labels with
  | nil => rfl
  | cons i rest ih =>
    -- what was taken away stood before this instruction, so nothing is missing behind it
    have hlater : ((rest.zipIdx (index + 1)).flatMap fun e =>
          ((labels.without index).before e.2).flatMap labelLine
            ++ shown (ofNumbered strings width e.2 e.1))
        = (rest.zipIdx (index + 1)).flatMap fun e =>
          (labels.before e.2).flatMap labelLine ++ shown (ofNumbered strings width e.2 e.1) := by
      refine List.flatMap_congr fun e he => ?_
      have hindex : e.2 ≠ index := by
        have := List.le_snd_of_mem_zipIdx he
        omega
      rw [Labels.before_without, if_neg hindex]
    simp only [ofInstructions, shown_append, shown_ofLabels, ih, hlater, List.zipIdx_cons,
      List.flatMap_cons]

/-- The labels are left that stand before none of the instructions. -/
theorem before_left (strings : Table StringEntry) (width index : Nat) (labels : Labels)
    (is : List Instruction) (k : Nat) :
    (ofInstructions strings width index labels is).2.before k
      = if index ≤ k ∧ k < index + is.length then [] else labels.before k := by
  induction is generalizing index labels with
  | nil =>
    rw [if_neg (by simp)]
    rfl
  | cons i rest ih =>
    show (ofInstructions strings width (index + 1) (labels.without index) rest).2.before k = _
    rw [ih, Labels.before_without, List.length_cons]
    by_cases hk : k = index
    · rw [if_neg (by omega), if_pos hk, if_pos (by omega)]
    · rw [if_neg hk]
      by_cases hlater : index + 1 ≤ k ∧ k < index + 1 + rest.length
      · rw [if_pos hlater, if_pos (by omega)]
      · rw [if_neg hlater, if_neg (by omega)]

/-- The labels that are left behind all instructions of a node. -/
def leftover (strings : Table StringEntry) (n : Node) : Labels :=
  (ofInstructions strings (indexWidth n.instructions.length) 0 (.ofList (targets n))
    n.instructions).2

theorem inTargetOrder_leftover (strings : Table StringEntry) (n : Node) :
    InTargetOrder (targets n) n.instructions.length (leftover strings n).placed where
  ascending := (leftover strings n).placed_ascending
  stable k := by
    rw [Labels.filter_placed, leftover, before_left, Labels.before_ofList]
    by_cases hk : n.instructions.length ≤ k
    · rw [if_pos hk, if_neg (by omega), List.map_map]
      have hsame : ∀ l ∈ (targets n).filter (·.2 = k), (l.1, k) = l := by
        intro l hl
        have htarget : l.2 = k := by simpa using (List.mem_filter.mp hl).2
        rw [← htarget]
      exact (List.map_congr_left hsame).trans (List.map_id _)
    · rw [if_neg hk, if_pos (by omega), List.map_nil]

/-- The labels with the first targets are those whose target is one of them. -/
theorem perm_range (declared : List (String × Nat)) (count : Nat) :
    ((List.range count).flatMap fun k => declared.filter (·.2 = k)).Perm
      (declared.filter (·.2 < count)) := by
  induction count with
  | zero => simp
  | succ count ih =>
    have hlast : (declared.filter (·.2 < count + 1)).filter (fun l => !decide (l.2 < count))
        = declared.filter (·.2 = count) := by
      rw [List.filter_filter]
      refine List.filter_congr fun l _ => ?_
      simp only [← decide_not, ← Bool.decide_and, decide_eq_decide]
      omega
    have hothers : (declared.filter (·.2 < count + 1)).filter (·.2 < count)
        = declared.filter (·.2 < count) := by
      rw [List.filter_filter]
      refine List.filter_congr fun l _ => ?_
      simp only [← Bool.decide_and, decide_eq_decide]
      omega
    have hsplit := List.filter_append_perm (·.2 < count) (declared.filter (·.2 < count + 1))
    rw [hlast, hothers] at hsplit
    rw [List.range_succ, List.flatMap_append, List.flatMap_singleton]
    exact (ih.append_right _).trans hsplit

theorem InTargetOrder.perm {declared late : List (String × Nat)} {count : Nat}
    (h : InTargetOrder declared count late) : late.Perm (declared.filter (count ≤ ·.2)) := by
  refine List.perm_iff_count.mpr fun l => ?_
  have hlate : late.count l = (late.filter (·.2 = l.2)).count l :=
    (List.count_filter (by simp)).symm
  rw [hlate, h.stable]
  by_cases hl : count ≤ l.2
  · rw [if_pos hl, List.count_filter (by simp), List.count_filter (by simpa using hl)]
  · have hnone : l ∉ declared.filter (count ≤ ·.2) := by simp [hl]
    rw [if_neg hl, List.count_nil, List.count_eq_zero_of_not_mem hnone]

/-- Every label stands in one place. -/
theorem InTargetOrder.once {declared late : List (String × Nat)} {count : Nat}
    (h : InTargetOrder declared count late) :
    ((List.range count).flatMap (labelsAt declared) ++ late.map Prod.fst).Perm
      (declared.map Prod.fst) := by
  have hsplit := List.filter_append_perm (·.2 < count) declared
  have hbehind : declared.filter (fun l => !decide (l.2 < count))
      = declared.filter (count ≤ ·.2) :=
    List.filter_congr fun l _ => by
      rw [← decide_not, decide_eq_decide]
      omega
  rw [hbehind] at hsplit
  have hall := (((perm_range declared count).append h.perm).trans hsplit).map Prod.fst
  rw [List.map_append, List.map_flatMap] at hall
  exact hall

/-! ## Texts -/

theorem shown_ofNode (strings : Table StringEntry) (n : Node) :
    shown (ofNode strings n)
      = n.headers.flatMap headerLine ++ (if n.tags = [] then [] else tagsLine n.tags)
        ++ (n.instructions.zipIdx.flatMap fun e =>
          (labelsAt (targets n) e.2).flatMap labelLine
            ++ shown (ofNumbered strings (indexWidth n.instructions.length) e.2 e.1))
        ++ (leftover strings n).placed.flatMap fun l => labelLine l.1 := by
  have hleft : (leftover strings n).placed.flatMap (fun l => labelLine l.1)
      = (leftover strings n).inOrder.flatMap labelLine := by
    rw [← Labels.map_fst_placed, List.flatMap_map]
  simp only [ofNode, shown_append, shown_flatMap, shown_ofHeader, shown_ofTags, shown_ofLabels,
    shown_ofInstructions, Labels.before_ofList, labelsAt, hleft]
  rfl

theorem shown_ofInitialValues (values : List (String × Operand)) :
    shown (ofInitialValues values)
      = if values = [] then []
        else "[initial_values]".toList ++ ['\n']
          ++ (values.flatMap fun e => initialValueLine e.1 e.2) ++ ['\n'] := by
  have hvalue (e : String × Operand) :
      shown (ofInitialValue e.1 e.2) = initialValueLine e.1 e.2 := by
    simp [ofInitialValue, initialValueLine, shown_ofOperand]
  cases values with
  | nil => rfl
  | cons e rest =>
    simp only [ofInitialValues, shown_append, shown_cons, shown_nil, shown_flatMap, hvalue,
      text_blue, text_lineEnd, List.append_nil, reduceCtorEq, if_false]

/-- A node below its name. -/
def namedText (strings : Table StringEntry) (e : String × Node) : List Char :=
  e.1.toList ++ [':', '\n'] ++ shown (ofNode strings e.2)

theorem shown_ofNodes (strings : Table StringEntry) (nodes : List (String × Node)) :
    shown (ofNodes strings nodes) = ['\n'].intercalate (nodes.map (namedText strings)) := by
  fun_induction ofNodes strings nodes with
  | case1 => rfl
  | case2 name n => simp [ofNamedNode, namedText]
  | case3 name n rest hrest ih =>
    obtain ⟨next, others, rfl⟩ := List.exists_cons_of_ne_nil hrest
    rw [shown_append, shown_cons, ih]
    simp [ofNamedNode, namedText, List.intercalate]

/-- The labels with an index, each on a line, and then the line of the instruction. -/
def ShowsAt (strings : Table StringEntry) (n : Node) (e : Instruction × Nat) (text : List Char) :
    Prop :=
  ∃ line, ShowsInstruction strings n.instructions.length e.2 e.1 line ∧
    text = (labelsAt (targets n) e.2).flatMap labelLine ++ line

theorem shows_instructions (strings : Table StringEntry) (n : Node) :
    List.Forall₂ (ShowsAt strings n) n.instructions.zipIdx
      (n.instructions.zipIdx.map fun e => (labelsAt (targets n) e.2).flatMap labelLine
        ++ shown (ofNumbered strings (indexWidth n.instructions.length) e.2 e.1)) := by
  refine List.forall₂_map_right_iff.mpr (List.forall₂_same.mpr fun e he => ?_)
  have hindex : e.2 < n.instructions.length := by
    simpa using List.snd_lt_of_mem_zipIdx he
  exact ⟨_, shows_instruction strings hindex e.1, rfl⟩

/-- A listing has everything in its place. First come the first values, if there are any, then the
nodes with an empty line between each two. The text of a node consists of its headers, all of its
tags, its instructions, each behind the labels with its index, and the labels whose targets are
behind all instructions. So each label stands in one place. -/
theorem lists_in_place (p : Program) (strings : Table StringEntry) :
    shown (p.listing strings)
        = (if p.initialValues.entries = [] then []
            else "[initial_values]".toList ++ ['\n']
              ++ (p.initialValues.entries.flatMap fun e => initialValueLine e.1 e.2) ++ ['\n'])
          ++ "[nodes]".toList ++ ['\n']
          ++ ['\n'].intercalate (p.nodes.entries.map (namedText strings))
      ∧ ∀ n : Node, ∃ (texts : List (List Char)) (late : List (String × Nat)),
          List.Forall₂ (ShowsAt strings n) n.instructions.zipIdx texts
            ∧ InTargetOrder (targets n) n.instructions.length late
            ∧ ((List.range n.instructions.length).flatMap (labelsAt (targets n))
                ++ late.map Prod.fst).Perm n.labels.keys
            ∧ shown (ofNode strings n)
              = n.headers.flatMap headerLine ++ (if n.tags = [] then [] else tagsLine n.tags)
                ++ texts.flatten ++ late.flatMap fun l => labelLine l.1 := by
  refine ⟨?_, fun n =>
    ⟨_, _, shows_instructions strings n, inTargetOrder_leftover strings n, ?_, ?_⟩⟩
  · simp only [Program.listing, shown_append, shown_ofInitialValues, shown_ofNodes, shown_cons,
      shown_nil, text_blue, text_lineEnd, List.append_nil, List.append_assoc]
  · have hkeys : (targets n).map Prod.fst = n.labels.keys := by
      simp [targets, Table.keys, Function.comp_def]
    exact hkeys ▸ (inTargetOrder_leftover strings n).once
  · simp only [shown_ofNode, List.flatMap_def]

example :
    String.ofList (shown (ofNode (.ofList [("line:1", ⟨"Hi\n", "", 0, "", [], false⟩)])
      { name := "Start"
        instructions := [⟨.runLine, [.string "line:1", .unset]⟩]
        labels := .ofList [("Far", 7), ("Before", -2), ("Near", 1), ("At", 0)]
        tags := ["a", "b"]
        sourceTextId := none
        headers := [⟨"title", "Start"⟩] }))
      = "  ; title: Start\n  ; #a #b\n  Before:\n  At:\n"
        ++ "    0 RunLine \"line:1\" null  ; \"Hi\\n\"\n  Near:\n  Far:\n" := by
  rfl

end Listing

end DialogueBuild
