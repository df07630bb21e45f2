import DialogueBuild.Proofs.Except
import DialogueBuild.Proofs.Json.Printing
/-!
Values that are read, written and read again.

What a reader comes up with fits into the room that it had: whole numbers have 64 bits, no object
has a name twice, and arrays and objects do not nest too deeply. Whatever fits, and whose floats are
read back, is read back from its own tree.

Results:

1. `fits_decodeValue`      what was read fits;
2. `readsBack_iff`         a float is read back if its numeral is;
3. `decodeValue_tree`      what fits is read back from its tree, with the same members in order.
-/
namespace DialogueBuild.Json

/-! ## What fits -/

mutual

/-- The value can be what a reader with so much room for arrays and objects comes up with. -/
def Value.Fits : Value → (room : Nat) → Prop
  | .number (.int n), _ => -2 ^ 63 ≤ n ∧ n < 2 ^ 64
  | .array items, room => 0 < room ∧ fitsItems items (room - 1)
  | .object members, room =>
    0 < room ∧ (members.map Prod.fst).Nodup ∧ fitsMembers members (room - 1)
  | _, _ => True

def fitsItems : List Value → Nat → Prop
  | [], _ => True
  | item :: rest, room => item.Fits room ∧ fitsItems rest room

def fitsMembers : List (String × Value) → Nat → Prop
  | [], _ => True
  | (_, value) :: rest, room => value.Fits room ∧ fitsMembers rest room

end

theorem fitsMembers_iff {members : List (String × Value)} {room : Nat} :
    fitsMembers members room ↔ ∀ m ∈ members, m.2.Fits room := by
  induction members with
  | nil => simp [fitsMembers]
  | cons m rest ih => simp [fitsMembers, ih]

/-- A whole number that a numeral stands for has at most 64 bits. -/
theorem fits_number {t : Numeral} {n : Number} (h : t.number? = some n) (room : Nat) :
    (Value.number n).Fits room := by
  unfold Numeral.number? at h
  simp only [Nat.pow_eq] at h
  split at h
  · rename_i hwhole
    cases h
    simp only [Bool.and_eq_true, decide_eq_true_eq] at hwhole
    simp only [Value.Fits]
    omega
  split at h
  · rename_i hwhole
    cases h
    simp only [Bool.and_eq_true, decide_eq_true_eq] at hwhole
    simp only [Value.Fits]
    omega
  · obtain ⟨x, -, rfl⟩ := Option.map_eq_some_iff.mp h
    simp only [Value.Fits]

theorem mem_insertEntry {entries : List (String × Value)} {key : String} {value : Value}
    {m : String × Value} (h : m ∈ insertEntry key value entries) :
    m = (key, value) ∨ m ∈ entries := by
  induction entries with
  | nil => exact .inl (List.mem_singleton.mp h)
  | cons e rest ih =>
    obtain ⟨k, v⟩ := e
    rw [insertEntry] at h
    split at h
    · rcases List.mem_cons.mp h with h | h
      · exact .inl h
      · exact .inr (List.mem_cons_of_mem _ h)
    · rcases List.mem_cons.mp h with rfl | h
      · exact .inr List.mem_cons_self
      · exact (ih h).imp id (List.mem_cons_of_mem _)

theorem enter_eq_ok {room inner : Nat} (h : enter room = .ok inner) : room = inner + 1 := by
  cases room with
  | zero => cases h
  | succ n =>
    cases h
    rfl

theorem fits_scalar {s : Scalar} {room : Nat} {v : Value}
    (h : decodeValue room (.scalar s) = .ok v) : v.Fits room := by
  rw [decodeValue] at h
  obtain ⟨found, hfound, h⟩ := bind_eq_ok.mp h
  cases s with
  | null =>
    cases hfound
    cases h
    simp only [Value.Fits]
  | bool b =>
    cases hfound
    cases h
    simp only [Value.Fits]
  | number t =>
    rw [Scalar.found] at hfound
    split at hfound
    · rename_i n hn
      cases hfound
      cases h
      exact fits_number hn room
    · cases hfound
  | string text =>
    cases text with
    | none => cases hfound
    | some s =>
      cases hfound
      cases h
      simp only [Value.Fits]

mutual

/-- What was read fits into the room that there was. -/
theorem fits_decodeValue : ∀ {t : Tree} {room : Nat} {v : Value}, decodeValue room t = .ok v →
    v.Fits room
  | .scalar s, room, v, h => fits_scalar h
  | .array items ending, room, v, h => by
    rw [decodeValue] at h
    obtain ⟨inner, henter, h⟩ := bind_eq_ok.mp h
    obtain ⟨values, hvalues, h⟩ := bind_eq_ok.mp h
    obtain ⟨u, -, h⟩ := bind_eq_ok.mp h
    cases h
    rw [enter_eq_ok henter]
    simp only [Value.Fits, Nat.add_sub_cancel]
    exact ⟨by omega, fits_decodeValues hvalues⟩
  | .object members ending, room, v, h => by
    rw [decodeValue] at h
    obtain ⟨inner, henter, h⟩ := bind_eq_ok.mp h
    obtain ⟨entries, hentries, h⟩ := bind_eq_ok.mp h
    obtain ⟨u, -, h⟩ := bind_eq_ok.mp h
    cases h
    rw [enter_eq_ok henter]
    simp only [Value.Fits, Nat.add_sub_cancel]
    exact ⟨by omega, fits_decodeMembers hentries .nil trivial⟩
  | .broken b, room, v, h => by
    rw [decodeValue] at h
    cases h

theorem fits_decodeValues : ∀ {ts : List Tree} {room : Nat} {vs : List Value},
    decodeValues room ts = .ok vs → fitsItems vs room
  | [], room, vs, h => by
    rw [decodeValues] at h
    cases h
    trivial
  | t :: rest, room, vs, h => by
    rw [decodeValues] at h
    obtain ⟨v, hv, h⟩ := bind_eq_ok.mp h
    obtain ⟨others, hothers, h⟩ := bind_eq_ok.mp h
    cases h
    exact ⟨fits_decodeValue hv, fits_decodeValues hothers⟩

theorem fits_decodeMembers : ∀ {ms : List (Tree × Tree)} {room : Nat}
    {entries found : List (String × Value)}, decodeMembers room ms entries = .ok found →
    (entries.map Prod.fst).Nodup → fitsMembers entries room →
    (found.map Prod.fst).Nodup ∧ fitsMembers found room
  | [], room, entries, found, h, hnodup, hfits => by
    rw [decodeMembers] at h
    cases h
    exact ⟨hnodup, hfits⟩
  | (key, value) :: rest, room, entries, found, h, hnodup, hfits => by
    rw [decodeMembers] at h
    obtain ⟨name, -, h⟩ := bind_eq_ok.mp h
    obtain ⟨v, hv, h⟩ := bind_eq_ok.mp h
    refine fits_decodeMembers h (insertEntry_nodup hnodup) (fitsMembers_iff.mpr fun m hm => ?_)
    rcases mem_insertEntry hm with rfl | hm
    · exact fits_decodeValue hv
    · exact fitsMembers_iff.mp hfits m hm

end

/-! ## Floats -/

mutual

/-- The floats in a value, in order. -/
def Value.floats : Value → List Float
  | .number (.float x) => [x]
  | .array items => itemFloats items
  | .object members => memberFloats members
  | _ => []

def itemFloats : List Value → List Float
  | [] => []
  | item :: rest => item.floats ++ itemFloats rest

def memberFloats : List (String × Value) → List Float
  | [] => []
  | (_, value) :: rest => value.floats ++ memberFloats rest

end

theorem memberFloats_append (front back : List (String × Value)) :
    memberFloats (front ++ back) = memberFloats front ++ memberFloats back := by
  induction front with
  | nil => rfl
  | cons m rest ih =>
    simp only [List.cons_append, memberFloats, ih, List.append_assoc]

/-- The text of a float is read as this float. -/
def ReadsBack (x : Float) : Prop :=
  Value.ofText (String.ofList (Number.float x).text) = .ok (.number (.float x))

/-- The words for numbers that are not finite are no JSON. -/
theorem text_of_not_isFinite {x : Float} (h : x.isFinite = false) :
    (Value.ofText (String.ofList (Number.float x).text)).isOk = false := by
  have hwords : ∀ word ∈ [['N', 'a', 'N'], ['i', 'n', 'f'], ['-', 'i', 'n', 'f']],
      (Value.ofText (String.ofList word)).isOk = false := by decide +kernel
  exact hwords _ (text_mem_of_not_isFinite h)

theorem isFinite_of_readsBack {x : Float} (h : ReadsBack x) : x.isFinite := by
  by_contra hx
  have hwords := text_of_not_isFinite (Bool.eq_false_iff.mpr hx)
  rw [h] at hwords
  cases hwords

/-- A float is read back if this is what its numeral stands for. -/
theorem readsBack_iff {x : Float} :
    ReadsBack x ↔ x.isFinite ∧ (Number.float x).numeral.number? = some (.float x) := by
  have hread (hx : x.isFinite) : Value.ofText (String.ofList (Number.float x).text)
      = decodeValue maxDepth (.scalar (.number (Number.float x).numeral)) := by
    have hspelled : Spells (.scalar (.number (Number.float x).numeral)) (Number.float x).text :=
      .scalar (spellsScalar_number (n := .float x) hx)
    rw [Value.ofText, decodeText?, ofText_spelled (by simpa using hspelled.padded)]
    cases decodeValue maxDepth (.scalar (.number (Number.float x).numeral)) <;> rfl
  constructor
  · intro h
    have hx := isFinite_of_readsBack h
    refine ⟨hx, ?_⟩
    rw [ReadsBack, hread hx, decodeValue, Scalar.found] at h
    cases hn : (Number.float x).numeral.number? with
    | none =>
      rw [hn] at h
      cases h
    | some n =>
      rw [hn] at h
      cases h
      rfl
  · rintro ⟨hx, h⟩
    rw [ReadsBack, hread hx, decodeValue, Scalar.found, h]
    rfl

/-- The float 1.5 is read back. -/
theorem readsBack_three_halves : ReadsBack (.ofBits 0x3FF8000000000000) := by
  have hnumeral : (Number.float (.ofBits 0x3FF8000000000000)).numeral
      = ⟨false, ['1'], ['5'], none⟩ := by decide +kernel
  have hbits : (⟨false, ['1'], ['5'], none⟩ : Numeral).magnitude?.map Float.toBits
      = some 0x3FF8000000000000 := by decide +kernel
  obtain ⟨x, hx, hxbits⟩ := Option.map_eq_some_iff.mp hbits
  obtain rfl : x = .ofBits 0x3FF8000000000000 := Decimal.eq_of_toBits_eq hxbits
  refine readsBack_iff.mpr ⟨by decide +kernel, ?_⟩
  rw [hnumeral, Numeral.number?, hx]
  rfl

/-! ## Reading back -/

mutual

theorem isFinite_of_floats : ∀ {v : Value}, (∀ x ∈ v.floats, ReadsBack x) → v.IsFinite
  | .number (.float x), h => by
    simp only [Value.IsFinite, Number.IsFinite]
    exact isFinite_of_readsBack (h x (by simp [Value.floats]))
  | .number (.int n), _ => by simp only [Value.IsFinite, Number.IsFinite]
  | .array items, h => by
    simp only [Value.floats] at h
    simp only [Value.IsFinite]
    exact finiteItems_of_floats h
  | .object members, h => by
    simp only [Value.floats] at h
    simp only [Value.IsFinite]
    exact finiteMembers_of_floats h
  | .null, _ => by simp only [Value.IsFinite]
  | .bool _, _ => by simp only [Value.IsFinite]
  | .string _, _ => by simp only [Value.IsFinite]

theorem finiteItems_of_floats : ∀ {items : List Value},
    (∀ x ∈ itemFloats items, ReadsBack x) → finiteItems items
  | [], _ => trivial
  | item :: rest, h => by
    rw [itemFloats, List.forall_mem_append] at h
    exact ⟨isFinite_of_floats h.1, finiteItems_of_floats h.2⟩

theorem finiteMembers_of_floats : ∀ {members : List (String × Value)},
    (∀ x ∈ memberFloats members, ReadsBack x) → finiteMembers members
  | [], _ => trivial
  | (_, value) :: rest, h => by
    rw [memberFloats, List.forall_mem_append] at h
    exact ⟨isFinite_of_floats h.1, finiteMembers_of_floats h.2⟩

end

theorem number_of_fits {n : Number} {room : Nat} (hfits : (Value.number n).Fits room)
    (hfloats : ∀ x ∈ (Value.number n).floats, ReadsBack x) : n.numeral.number? = some n := by
  cases n with
  | int n =>
    simp only [Value.Fits] at hfits
    exact number_intNumeral hfits.1 hfits.2
  | float x => exact (readsBack_iff.mp (hfloats x (by simp [Value.floats]))).2

mutual

/-- What fits is read back from its tree. -/
theorem decodeValue_tree : ∀ {v : Value} {room : Nat}, v.Fits room →
    (∀ x ∈ v.floats, ReadsBack x) → decodeValue room v.tree = .ok v
  | .null, room, _, _ => by
    rw [Value.tree, decodeValue]
    rfl
  | .bool b, room, _, _ => by
    rw [Value.tree, decodeValue]
    rfl
  | .string s, room, _, _ => by
    rw [Value.tree, textTree, decodeValue]
    rfl
  | .number n, room, hfits, hfloats => by
    rw [Value.tree, decodeValue, Scalar.found, number_of_fits hfits hfloats]
    rfl
  | .array items, room, hfits, hfloats => by
    simp only [Value.Fits, Value.floats] at hfits hfloats
    obtain ⟨inner, rfl⟩ := Nat.exists_eq_add_one.mpr hfits.1
    rw [Value.tree, decodeValue, enter]
    show (decodeValues inner (itemTrees items) >>= fun values => _) = _
    have hitems : decodeValues inner (itemTrees items) = .ok items :=
      decodeValues_trees hfits.2 hfloats
    rw [hitems]
    rfl
  | .object members, room, hfits, hfloats => by
    simp only [Value.Fits, Value.floats] at hfits hfloats
    obtain ⟨inner, rfl⟩ := Nat.exists_eq_add_one.mpr hfits.1
    rw [Value.tree, decodeValue, enter]
    show (decodeMembers inner (memberTrees members) [] >>= fun entries => _) = _
    have hmembers : decodeMembers inner (memberTrees members) [] = .ok members :=
      decodeMembers_trees [] hfits.2.1 hfits.2.2 hfloats
    rw [hmembers]
    rfl

theorem decodeValues_trees : ∀ {items : List Value} {room : Nat}, fitsItems items room →
    (∀ x ∈ itemFloats items, ReadsBack x) → decodeValues room (itemTrees items) = .ok items
  | [], room, _, _ => by rw [itemTrees, decodeValues]
  | item :: rest, room, hfits, hfloats => by
    rw [itemFloats, List.forall_mem_append] at hfloats
    rw [itemTrees, decodeValues, decodeValue_tree hfits.1 hfloats.1,
      decodeValues_trees hfits.2 hfloats.2]
    rfl

/-- Members are read back behind those that were read before, since no name comes twice. -/
theorem decodeMembers_trees : ∀ {members : List (String × Value)} {room : Nat}
    (entries : List (String × Value)), ((entries ++ members).map Prod.fst).Nodup →
    fitsMembers members room → (∀ x ∈ memberFloats members, ReadsBack x) →
    decodeMembers room (memberTrees members) entries = .ok (entries ++ members)
  | [], room, entries, _, _, _ => by rw [memberTrees, decodeMembers, List.append_nil]
  | (key, value) :: rest, room, entries, hnodup, hfits, hfloats => by
    rw [memberFloats, List.forall_mem_append] at hfloats
    have hinsert : insertEntry key value entries = entries ++ [(key, value)] :=
      insertEntry_of_nodup hnodup
    have hnodup' : (((entries ++ [(key, value)]) ++ rest).map Prod.fst).Nodup := by
      rwa [List.append_assoc, List.singleton_append]
    have hrest := decodeMembers_trees (entries ++ [(key, value)]) hnodup' hfits.2 hfloats.2
    rw [List.append_assoc, List.singleton_append] at hrest
    rw [memberTrees, textTree, decodeMembers, decodeValue_tree hfits.1 hfloats.1]
    show decodeMembers room (memberTrees rest) (insertEntry key value entries) = _
    rw [hinsert, hrest]

end

end DialogueBuild.Json
