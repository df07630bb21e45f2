import DialogueBuild.Proofs.Json.RoundTrip
/-!
Records that keep the members which are no fields.

Results:

1. `fill_cons_cases`    what becomes of the first member of an object;
2. `fill_invariant`     what no member breaks holds of every record that was read;
3. `fill_kept`          a member that is no field is kept with its value.
-/
namespace DialogueBuild.Json.Form

variable {α : Type} {form : Form α} {room : Nat} {draft draft' : Draft α} {key t : Tree}
  {rest : List (Tree × Tree)}

/-- The member is read as a field that was not given before. -/
structure ReadsField (form : Form α) (room : Nat) (draft next : Draft α) (name : String)
    (t : Tree) : Prop where
  new : name ∉ draft.given
  field : ∃ field set, form.fields.find? (·.name = name) = some field ∧
    field.read room t = .ok set ∧ next = ⟨name :: draft.given, set draft.filled⟩

/-- The member is no field, and its value is kept or passed over. -/
structure ReadsUnknown (form : Form α) (room : Nat) (draft next : Draft α) (name : String)
    (t : Tree) : Prop where
  unknown : form.fields.find? (·.name = name) = none
  kept : form.keep? = none ∧ next = draft ∨
    ∃ keep value, form.keep? = some keep ∧ decodeValue room t = .ok value ∧
      next = ⟨draft.given, keep name value draft.filled⟩

/-- What becomes of the first member of an object that is read. -/
theorem fill_cons_cases (h : form.fill room ((key, t) :: rest) draft = .ok draft') :
    ∃ name next, decodeKey key = .ok name ∧ form.fill room rest next = .ok draft' ∧
      (form.ReadsField room draft next name t ∨ form.ReadsUnknown room draft next name t) := by
  rw [fill] at h
  obtain ⟨name, hname, h⟩ := bind_eq_ok.mp h
  refine ⟨name, ?_⟩
  split at h
  · rename_i hunknown hkeep
    obtain ⟨u, -, h⟩ := bind_eq_ok.mp h
    exact ⟨draft, hname, h, .inr ⟨hunknown, .inl ⟨hkeep, rfl⟩⟩⟩
  · rename_i keep hunknown hkeep
    obtain ⟨value, hvalue, h⟩ := bind_eq_ok.mp h
    exact ⟨_, hname, h, .inr ⟨hunknown, .inr ⟨keep, value, hkeep, hvalue, rfl⟩⟩⟩
  · rename_i field hfield
    split at h
    · cases h
    · rename_i hnew
      obtain ⟨set, hset, h⟩ := bind_eq_ok.mp h
      exact ⟨_, hname, h, .inl ⟨hnew, field, set, hfield, hset, rfl⟩⟩

/-- What no field and no kept member breaks holds of every record that was read. -/
theorem fill_invariant {P : α → Prop}
    (hfield : ∀ field ∈ form.fields, ∀ t set, field.read room t = .ok set →
      ∀ a, P a → P (set a))
    (hkeep : ∀ keep name t value, form.keep? = some keep →
      form.fields.find? (·.name = name) = none → decodeValue room t = .ok value →
      ∀ a, P a → P (keep name value a)) :
    ∀ {members : List (Tree × Tree)} {draft : Draft α},
      form.fill room members draft = .ok draft' → P draft.filled → P draft'.filled
  | [], draft, h, hdraft => by
    rw [fill] at h
    cases h
    exact hdraft
  | (key, t) :: rest, draft, h, hdraft => by
    obtain ⟨name, next, -, hrest, ⟨-, field, set, hfound, hset, rfl⟩ |
      ⟨hunknown, ⟨-, rfl⟩ | ⟨keep, value, hsome, hvalue, rfl⟩⟩⟩ := fill_cons_cases h
    · exact fill_invariant hfield hkeep hrest
        (hfield field (List.mem_of_find?_eq_some hfound) t set hset _ hdraft)
    · exact fill_invariant hfield hkeep hrest hdraft
    · exact fill_invariant hfield hkeep hrest
        (hkeep keep name t value hsome hunknown hvalue _ hdraft)

theorem complete_eq_ok {a : α} (h : form.complete draft = .ok a) : a = draft.filled := by
  unfold complete at h
  split at h
  · cases h
  · cases h
    rfl

/-- A record is read by filling the blank one. -/
theorem decodeObject_eq_ok {t : Tree} {a : α} (h : form.decodeObject (room + 1) t = .ok a) :
    ∃ members draft, form.fill room members ⟨[], form.blank⟩ = .ok draft ∧ a = draft.filled := by
  unfold decodeObject at h
  split at h
  · rename_i members ending
    obtain ⟨inner, ⟨⟩, h⟩ := bind_eq_ok.mp h
    obtain ⟨draft, hdraft, h⟩ := bind_eq_ok.mp h
    obtain ⟨u, -, h⟩ := bind_eq_ok.mp h
    exact ⟨members, draft, hdraft, complete_eq_ok h⟩
  · unfold mismatch at h
    obtain ⟨found, -, h⟩ := bind_eq_ok.mp h
    cases h

/-- A member that is no field is kept. -/
theorem fill_kept {keep : String → Value → α → α} {name : String} {value : Value}
    (hkeep : form.keep? = some keep) (hunknown : form.fields.find? (·.name = name) = none)
    (hvalue : decodeValue room t = .ok value) (members : List (Tree × Tree)) :
    form.fill room ((textTree name, t) :: members) draft
      = form.fill room members ⟨draft.given, keep name value draft.filled⟩ := by
  simp only [fill, textTree, decodeKey, hunknown, hkeep, hvalue, bind, Except.bind]

end DialogueBuild.Json.Form
