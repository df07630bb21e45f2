import DialogueBuild.Table
/-!
The labels of a node by the index of the instruction that they stand before.

Labels with the same index keep the order in which they were added; the indices ascend.

Results:

1. `before_add`       what stands before an index is what was added there, in order;
2. `before_without`   what is taken away stood before its index alone.
-/
namespace DialogueBuild

/-! ## Groups -/

/-- Adds a label behind those with the same index, or else where its index belongs. -/
def addToGroup (index : Nat) (label : String) : List (Nat × List String) → List (Nat × List String)
  | [] => [(index, [label])]
  | (k, labels) :: rest =>
    if index < k then (index, [label]) :: (k, labels) :: rest
    else if index = k then (k, labels ++ [label]) :: rest
    else (k, labels) :: addToGroup index label rest

/-- Groups whose indices ascend. -/
def Ascending (groups : List (Nat × List String)) : Prop := (groups.map Prod.fst).Pairwise (· < ·)

section

variable {index k : Nat} {label : String} {labels : List String}
  {groups rest : List (Nat × List String)}

theorem ascending_cons :
    Ascending ((k, labels) :: rest) ↔ (∀ g ∈ rest, k < g.1) ∧ Ascending rest := by
  simp [Ascending, List.pairwise_cons]

theorem index_of_mem_addToGroup {g : Nat × List String} (h : g ∈ addToGroup index label groups) :
    g.1 = index ∨ ∃ labels, (g.1, labels) ∈ groups := by
  fun_induction addToGroup index label groups with
  | case1 => simp_all
  | case2 k labels rest hlt =>
    rcases List.mem_cons.mp h with rfl | h
    · exact .inl rfl
    · exact .inr ⟨g.2, h⟩
  | case3 labels rest =>
    rcases List.mem_cons.mp h with rfl | h
    · exact .inl rfl
    · exact .inr ⟨g.2, List.mem_cons_of_mem _ h⟩
  | case4 k labels rest hlt hne ih =>
    rcases List.mem_cons.mp h with rfl | h
    · exact .inr ⟨labels, List.mem_cons_self⟩
    · rcases ih h with heq | ⟨others, hmem⟩
      · exact .inl heq
      · exact .inr ⟨others, List.mem_cons_of_mem _ hmem⟩

theorem addToGroup_ascending (h : Ascending groups) :
    Ascending (addToGroup index label groups) := by
  fun_induction addToGroup index label groups with
  | case1 => simp [Ascending]
  | case2 k labels rest hlt =>
    obtain ⟨hfirst, -⟩ := ascending_cons.mp h
    refine ascending_cons.mpr ⟨fun g hg => ?_, h⟩
    rcases List.mem_cons.mp hg with rfl | hg
    · exact hlt
    · exact Nat.lt_trans hlt (hfirst g hg)
  | case3 labels rest => exact ascending_cons.mpr (ascending_cons.mp h)
  | case4 k labels rest hlt hne ih =>
    obtain ⟨hfirst, hrest⟩ := ascending_cons.mp h
    refine ascending_cons.mpr ⟨fun g hg => ?_, ih hrest⟩
    rcases index_of_mem_addToGroup hg with heq | ⟨others, hmem⟩
    · omega
    · exact hfirst (g.1, others) hmem

/-- The labels of a group; none if there is no such group. -/
def labelsOf (index : Nat) (groups : List (Nat × List String)) : List String :=
  ( findEntry? index groups).getD []

theorem labelsOf_cons :
    labelsOf index ((k, labels) :: rest) = if k = index then labels else labelsOf index rest := by
  unfold labelsOf
  rw [ findEntry?]
  split <;> rfl

theorem labelsOf_eq_nil (h : ∀ g ∈ groups, g.1 ≠ index) : labelsOf index groups = [] := by
  induction groups with
  | nil => rfl
  | cons g rest ih =>
    rw [labelsOf_cons, if_neg (h g List.mem_cons_self)]
    exact ih fun g' hg' => h g' (List.mem_cons_of_mem _ hg')

theorem labelsOf_addToGroup (h : Ascending groups) (k : Nat) :
    labelsOf k (addToGroup index label groups)
      = labelsOf k groups ++ if k = index then [label] else [] := by
  fun_induction addToGroup index label groups with
  | case1 => by_cases hk : index = k <;> simp [labelsOf, findEntry?, hk, eq_comm]
  | case2 j labels rest hlt =>
    obtain ⟨hfirst, -⟩ := ascending_cons.mp h
    rw [labelsOf_cons]
    by_cases hk : k = index
    · have hnone : labelsOf k ((j, labels) :: rest) = [] := by
        refine labelsOf_eq_nil fun g hg => ?_
        rcases List.mem_cons.mp hg with rfl | hg
        · omega
        · have := hfirst g hg
          omega
      rw [if_pos hk.symm, hnone, if_pos hk]
      rfl
    · rw [if_neg (Ne.symm hk), if_neg hk, List.append_nil]
  | case3 labels rest =>
    rw [labelsOf_cons, labelsOf_cons]
    by_cases hk : k = index
    · rw [if_pos hk.symm, if_pos hk.symm, if_pos hk]
    · rw [if_neg (Ne.symm hk), if_neg (Ne.symm hk), if_neg hk, List.append_nil]
  | case4 j labels rest hlt hne ih =>
    rw [labelsOf_cons, labelsOf_cons, ih (ascending_cons.mp h).2]
    by_cases hk : j = k
    · have hother : k ≠ index := by omega
      rw [if_pos hk, if_pos hk, if_neg hother, List.append_nil]
    · rw [if_neg hk, if_neg hk]

theorem labelsOf_filter (groups : List (Nat × List String)) (k : Nat) :
    labelsOf k (groups.filter (·.1 ≠ index)) = if k = index then [] else labelsOf k groups := by
  by_cases hk : k = index
  · rw [if_pos hk]
    refine labelsOf_eq_nil fun g hg => ?_
    have hne : g.1 ≠ index := by simpa using (List.mem_filter.mp hg).2
    omega
  · rw [if_neg hk]
    induction groups with
    | nil => rfl
    | cons g rest ih =>
      obtain ⟨j, labels⟩ := g
      by_cases hj : j = index
      · have hother : j ≠ k := by omega
        rw [List.filter_cons_of_neg (by simpa using hj), ih, labelsOf_cons, if_neg hother]
      · rw [List.filter_cons_of_pos (by simpa using hj), labelsOf_cons, labelsOf_cons, ih]

end

/-! ## Labels -/

structure Labels where
  groups : List (Nat × List String)
  ascending : Ascending groups

namespace Labels

def empty : Labels := ⟨[], List.Pairwise.nil⟩

def add (ls : Labels) (index : Nat) (label : String) : Labels :=
  ⟨addToGroup index label ls.groups, addToGroup_ascending ls.ascending⟩

/-- The labels that stand before an index. -/
def before (ls : Labels) (index : Nat) : List String := labelsOf index ls.groups

/-- Takes the labels away that stand before an index. -/
def without (ls : Labels) (index : Nat) : Labels :=
  ⟨ls.groups.filter (·.1 ≠ index),
    ls.ascending.sublist (List.filter_sublist.map Prod.fst)⟩

/-- All labels, by their indices. -/
def inOrder (ls : Labels) : List String := ls.groups.flatMap Prod.snd

/-- The labels of a list, added one after the other. -/
def ofList (labels : List (String × Nat)) : Labels :=
  labels.foldl (fun ls (label, index) => ls.add index label) empty

variable (ls : Labels) (index k : Nat)

@[simp] theorem before_empty : empty.before k = [] := rfl

theorem before_add (label : String) :
    (ls.add index label).before k = ls.before k ++ if k = index then [label] else [] :=
  labelsOf_addToGroup ls.ascending k

theorem before_without :
    (ls.without index).before k = if k = index then [] else ls.before k :=
  labelsOf_filter ls.groups k

end Labels

end DialogueBuild
