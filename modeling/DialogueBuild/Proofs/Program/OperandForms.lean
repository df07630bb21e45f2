import DialogueBuild.Proofs.Json.Rereading
import DialogueBuild.Proofs.WireFormat
/-!
The values that are operands.

An operand is a plain value, or an object whose only member that is not null names the kind of the
operand. Members over null count for nothing, wherever they stand; of all others only the first two
are looked at, and if there are two of them, neither their names nor their values matter.

Results:

1. `ofTagged_of_plainForm`, `ofTagged_of_mismatch`   a tag takes the values of its kind, and no
                                                    others;
2. `form_or_fault`          every value has one of the forms, or there is a reason to refuse it;
3. `ofValue_eq_ok_iff`, `ofValue_eq_error_iff`      so what is read is settled by the forms;
4. `roundedFrom_ofNumber`   a whole number becomes the double that it is rounded to;
5. `accepts_forms`          all of this together.
-/
namespace DialogueBuild.Operand

open Json Decimal Float.Model
open WireFormatLemmas (present)

/-! ## Forms -/

/-- A plain value, and the operand that it is. -/
inductive PlainForm : Value → Operand → Prop
  | null : PlainForm .null .unset
  | bool (b : Bool) : PlainForm (.bool b) (.bool b)
  | number (n : Number) : PlainForm (.number n) (.float (ofNumber n))
  | string (s : String) : PlainForm (.string s) (.string s)

/-- A value, and the operand that it is: a plain value, an object without any member that is not
null, or one with a single such member, whose name is a tag of its kind. -/
inductive Form : Value → Operand → Prop
  | plain {v : Value} {o : Operand} (h : PlainForm v o) : Form v o
  | untagged {members : List (String × Value)} (h : ∀ m ∈ members, m.2 = .null) :
    Form (.object members) .unset
  | tagged {members : List (String × Value)} {tag : String} {v : Value} {o : Operand}
    (hone : present members = [(tag, v)]) (h : PlainForm v o) (htag : tag ∈ o.tags) :
    Form (.object members) o

/-- Why a value is refused. -/
inductive Fault : Value → Refusal → Prop
  | array (items : List Value) : Fault (.array items) .array
  | several {members rest : List (String × Value)} {first second : String × Value}
    (h : present members = first :: second :: rest) :
    Fault (.object members) (.several first.1 second.1)
  | invalid {members : List (String × Value)} {tag : String} {v : Value}
    (hone : present members = [(tag, v)]) (h : ∀ o, PlainForm v o → tag ∉ o.tags) :
    Fault (.object members) (.invalid tag v)

/-- Every number has a double. -/
theorem ofDouble_eq (n : Number) : ofDouble n = .ok (.float (ofNumber n)) := rfl

section

variable {tag : String} {v : Value} {o : Operand} {r : Refusal}
  {members : List (String × Value)}

/-! ## Tagged values -/

/-- A tag takes the values of its kind. -/
theorem ofTagged_of_plainForm (h : PlainForm v o) (htag : tag ∈ o.tags) :
    ofTagged tag v = .ok o := by
  cases h with
  | null => cases htag
  | number n =>
    rw [ofTagged, if_pos (by simpa [tags] using htag), ofDouble_eq]
  | bool b => rw [ofTagged, if_pos (by simpa [tags] using htag)]
  | string s => rw [ofTagged, if_pos (by simpa [tags] using htag)]

/-- And no others. -/
theorem ofTagged_of_mismatch (h : ∀ o, PlainForm v o → tag ∉ o.tags) :
    ofTagged tag v = .error (.invalid tag v) := by
  cases v with
  | null | array _ | object _ => rfl
  | number n =>
    have htag := h _ (.number n)
    rw [ofTagged, if_neg (by simpa [tags] using htag)]
  | bool b =>
    have htag := h _ (.bool b)
    rw [ofTagged, if_neg (by simpa [tags] using htag)]
  | string s =>
    have htag := h _ (.string s)
    rw [ofTagged, if_neg (by simpa [tags] using htag)]

/-! ## Values -/

theorem present_eq_nil_iff : present members = [] ↔ ∀ m ∈ members, m.2 = .null := by
  have hnull (v : Value) : v.isNull = true ↔ v = .null := by
    cases v <;> simp [Value.isNull]
  simp [present, List.filter_eq_nil_iff, hnull]

theorem ofValue_of_form (h : Form v o) : ofValue v = .ok o := by
  cases h with
  | plain h =>
    cases h with
    | number n => exact ofDouble_eq n
    | null | bool _ | string _ => rfl
  | untagged h => rw [ofValue_object, present_eq_nil_iff.mpr h]
  | tagged hone h htag =>
    rw [ofValue_object, hone]
    exact ofTagged_of_plainForm h htag

theorem ofValue_of_fault (h : Fault v r) : ofValue v = .error r := by
  cases h with
  | array items => rfl
  | several h => rw [ofValue_object, h]
  | invalid hone h =>
    rw [ofValue_object, hone]
    exact ofTagged_of_mismatch h

/-- Every value is an operand, or there is a reason to refuse it. -/
theorem form_or_fault (v : Value) : (∃ o, Form v o) ∨ ∃ r, Fault v r := by
  cases v with
  | null => exact .inl ⟨_, .plain .null⟩
  | bool b => exact .inl ⟨_, .plain (.bool b)⟩
  | number n => exact .inl ⟨_, .plain (.number n)⟩
  | string s => exact .inl ⟨_, .plain (.string s)⟩
  | array items => exact .inr ⟨_, .array items⟩
  | object members =>
    match hpresent : present members with
    | [] => exact .inl ⟨_, .untagged (present_eq_nil_iff.mp hpresent)⟩
    | [(tag, v)] =>
      by_cases hkind : ∃ o, PlainForm v o ∧ tag ∈ o.tags
      · obtain ⟨o, hplain, htag⟩ := hkind
        exact .inl ⟨o, .tagged hpresent hplain htag⟩
      · exact .inr ⟨_, .invalid hpresent fun o hplain htag => hkind ⟨o, hplain, htag⟩⟩
    | first :: second :: rest => exact .inr ⟨_, .several hpresent⟩

theorem ofValue_eq_ok_iff : ofValue v = .ok o ↔ Form v o := by
  refine ⟨fun hread => ?_, ofValue_of_form⟩
  rcases form_or_fault v with ⟨p, h⟩ | ⟨r, h⟩
  · rw [ofValue_of_form h] at hread
    cases hread
    exact h
  · rw [ofValue_of_fault h] at hread
    cases hread

theorem ofValue_eq_error_iff : ofValue v = .error r ↔ Fault v r := by
  refine ⟨fun hread => ?_, ofValue_of_fault⟩
  rcases form_or_fault v with ⟨o, h⟩ | ⟨q, h⟩
  · rw [ofValue_of_form h] at hread
    cases hread
  · rw [ofValue_of_fault h] at hread
    cases hread
    exact h

end

/-! ## Whole numbers -/

/-- A double that a whole number is rounded to: it has the sign of the number, and no other double
is nearer to it. If the binary digits of the number fit, it is the number itself. -/
structure RoundedFrom (n : ℤ) (x : Float) : Prop where
  isFinite : x.isFinite
  signOf_eq : signOf x = if n < 0 then .negative else .positive
  covers : (Binary.ofFloat x).Covers n.natAbs
  exact : Held n.natAbs → magnitude x = n.natAbs

theorem lt_limit_of_word {n : Nat} (h : n < 2 ^ 64) : (n : ℚ) < limit := by
  have hword : (n : ℚ) < 10 ^ 20 := by
    have : n < 10 ^ 20 := by omega
    exact_mod_cast this
  exact hword.trans (pow_lt_limit (by decide))

/-- A whole number of at most 64 bits becomes the double that it is rounded to. -/
theorem roundedFrom_ofNumber {n : ℤ} (h : n.natAbs < 2 ^ 64) :
    RoundedFrom n (ofNumber (.int n)) := by
  have hlimit := lt_limit_of_word h
  obtain ⟨hfinite, hsign, hcovers⟩ := covers_nearest hlimit
  by_cases hn : n < 0
  · have hnumber : ofNumber (.int n) = -nearest n.natAbs := if_pos hn
    obtain ⟨hneg, hparts, hflip⟩ := neg_spec hfinite
    rw [hnumber]
    refine ⟨hneg, ?_, hparts ▸ hcovers, fun hheld => ?_⟩
    · rw [hflip, hsign, if_pos hn]
      rfl
    · rw [magnitude, hparts]
      exact magnitude_nearest_of_held hheld hlimit
  · have hnumber : ofNumber (.int n) = nearest n.natAbs := if_neg hn
    rw [hnumber]
    refine ⟨hfinite, ?_, hcovers, fun hheld => magnitude_nearest_of_held hheld hlimit⟩
    rw [hsign, if_neg hn]

/-! ## The grammar of operands -/

/-- A value is an operand if and only if it has one of the forms of the operand, and it is refused
if and only if there is a fault, which is the one that is named. Numbers are never out of range:
doubles stay as they are, and whole numbers become the doubles that they are rounded to. Members
over null never change anything, and of two members that are not null the first two are named,
whatever they are. -/
theorem accepts_forms :
    (∀ v o, ofValue v = .ok o ↔ Form v o)
      ∧ (∀ v r, ofValue v = .error r ↔ Fault v r)
      ∧ (∀ members others, present members = present others →
          ofValue (.object members) = ofValue (.object others))
      ∧ (∀ members first second rest, present members = first :: second :: rest →
          ofValue (.object members) = .error (.several first.1 second.1))
      ∧ (∀ v n, ofValue v ≠ .error (.outOfRange n))
      ∧ (∀ x, ofNumber (.float x) = x)
      ∧ ∀ n : ℤ, n.natAbs < 2 ^ 64 → RoundedFrom n (ofNumber (.int n)) := by
  refine ⟨fun v o => ofValue_eq_ok_iff, fun v r => ofValue_eq_error_iff, fun members others h => ?_,
    fun members first second rest h => ofValue_of_fault (.several h), fun v n h => ?_,
    fun x => rfl, fun n => roundedFrom_ofNumber⟩
  · rw [ofValue_object, ofValue_object, h]
  · cases ofValue_eq_error_iff.mp h

/-- Two tags are named before the type of the first one and the name of the second one are looked
at, and null members between them are passed over. -/
theorem accepts_forms_two_tags :
    present [("a", .null), ("boolValue", .string "yes"), ("b", .null), ("c", .array []),
        ("floatValue", .number (.int 1))]
      = [("boolValue", .string "yes"), ("c", .array []), ("floatValue", .number (.int 1))]
    ∧ ofValue (.object [("a", .null), ("boolValue", .string "yes"), ("b", .null),
        ("c", .array []), ("floatValue", .number (.int 1))])
      = .error (.several "boolValue" "c") := by
  have hpresent : present [("a", .null), ("boolValue", .string "yes"), ("b", .null),
        ("c", .array []), ("floatValue", .number (.int 1))]
      = [("boolValue", .string "yes"), ("c", .array []), ("floatValue", .number (.int 1))] := rfl
  exact ⟨hpresent, accepts_forms.2.2.2.1 _ _ _ _ hpresent⟩

end DialogueBuild.Operand
