import DialogueBuild.Json.Decoder
import DialogueBuild.Proofs.Json.NumberText
/-!
Values without null members, and values whose numbers have a text.

Results:

1. `isFinite_pruned`                  taking null members out adds no number;
2. `isFinite_array`, `isFinite_object`, …   where the numbers of a value are.
-/
namespace DialogueBuild.Json

/-! ## Values without null members -/

mutual

/-- The value without null members at any depth. Null items of arrays stay. -/
def Value.pruned : Value → Value
  | .array items => .array (prunedItems items)
  | .object members => .object (prunedMembers members)
  | .null => .null
  | .bool b => .bool b
  | .number n => .number n
  | .string s => .string s

def prunedItems : List Value → List Value
  | [] => []
  | item :: rest => item.pruned :: prunedItems rest

def prunedMembers : List (String × Value) → List (String × Value)
  | [] => []
  | (key, value) :: rest =>
    if value.isNull then prunedMembers rest else (key, value.pruned) :: prunedMembers rest

end

/-! ## Numbers in values -/

mutual

/-- All numbers of a value are finite, as they are in every document. -/
def Value.IsFinite : Value → Prop
  | .number n => n.IsFinite
  | .array items => finiteItems items
  | .object members => finiteMembers members
  | .null | .bool _ | .string _ => True

def finiteItems : List Value → Prop
  | [] => True
  | item :: rest => item.IsFinite ∧ finiteItems rest

def finiteMembers : List (String × Value) → Prop
  | [] => True
  | (_, value) :: rest => value.IsFinite ∧ finiteMembers rest

end

mutual

theorem isFinite_pruned : ∀ {v : Value}, v.IsFinite → v.pruned.IsFinite
  | .array items, h => by
    simp only [Value.pruned, Value.IsFinite] at h ⊢
    exact finiteItems_pruned h
  | .object members, h => by
    simp only [Value.pruned, Value.IsFinite] at h ⊢
    exact finiteMembers_pruned h
  | .number n, h => by simpa only [Value.pruned] using h
  | .null, h => by simpa only [Value.pruned] using h
  | .bool _, h => by simpa only [Value.pruned] using h
  | .string _, h => by simpa only [Value.pruned] using h

theorem finiteItems_pruned : ∀ {items : List Value}, finiteItems items →
    finiteItems (prunedItems items)
  | [], h => by simpa only [prunedItems] using h
  | item :: rest, h => by
    simp only [prunedItems, finiteItems] at h ⊢
    exact ⟨isFinite_pruned h.1, finiteItems_pruned h.2⟩

theorem finiteMembers_pruned : ∀ {members : List (String × Value)}, finiteMembers members →
    finiteMembers (prunedMembers members)
  | [], h => by simpa only [prunedMembers] using h
  | (key, value) :: rest, h => by
    simp only [prunedMembers, finiteMembers] at h ⊢
    split
    · exact finiteMembers_pruned h.2
    · exact ⟨isFinite_pruned h.1, finiteMembers_pruned h.2⟩

end

theorem finiteItems_iff {items : List Value} : finiteItems items ↔ ∀ v ∈ items, v.IsFinite := by
  induction items with
  | nil => simp [finiteItems]
  | cons item rest ih => simp [finiteItems, ih]

theorem finiteMembers_iff {members : List (String × Value)} :
    finiteMembers members ↔ ∀ m ∈ members, m.2.IsFinite := by
  induction members with
  | nil => simp [finiteMembers]
  | cons m rest ih => simp [finiteMembers, ih]

/-! ### Values of each kind -/

@[simp] theorem isFinite_null : Value.null.IsFinite := by simp only [Value.IsFinite]

@[simp] theorem isFinite_bool (b : Bool) : (Value.bool b).IsFinite := by simp only [Value.IsFinite]

@[simp] theorem isFinite_string (s : String) : (Value.string s).IsFinite := by
  simp only [Value.IsFinite]

@[simp] theorem isFinite_ofInt32 (n : Int32) : (Value.ofInt32 n).IsFinite := by
  simp only [Value.ofInt32, Value.ofInt, Value.IsFinite, Number.IsFinite]

@[simp] theorem isFinite_ofFloat (x : Float) : (Value.ofFloat x).IsFinite := by
  unfold Value.ofFloat
  split
  · rename_i h
    simpa only [Value.IsFinite, Number.IsFinite] using h
  · exact isFinite_null

@[simp] theorem isFinite_array {items : List Value} :
    (Value.array items).IsFinite ↔ ∀ v ∈ items, v.IsFinite := by
  rw [Value.IsFinite, finiteItems_iff]

@[simp] theorem isFinite_object {members : List (String × Value)} :
    (Value.object members).IsFinite ↔ ∀ m ∈ members, m.2.IsFinite := by
  rw [Value.IsFinite, finiteMembers_iff]

theorem isFinite_list {α : Type} {f : α → Value} (h : ∀ a, (f a).IsFinite) (items : List α) :
    (Value.array (items.map f)).IsFinite :=
  isFinite_array.mpr (List.forall_mem_map.mpr fun a _ => h a)

theorem isFinite_ofTexts (texts : List String) : (Value.ofTexts texts).IsFinite :=
  isFinite_list isFinite_string texts

theorem isFinite_ofTable {α : Type} {f : α → Value} (h : ∀ a, (f a).IsFinite) (t : Table α) :
    (Value.ofTable f t).IsFinite :=
  isFinite_object.mpr (List.forall_mem_map.mpr fun e _ => h e.2)

end DialogueBuild.Json
