import DialogueBuild.Line
import DialogueBuild.Proofs.Json.Value
/-!
Results as documents.

Numbers of a document are finite whatever is written, since other floats become null. So documents
tell two results apart if their floats are finite: an unset operand is the only null then.

Results:

1. `Program.finite_toJson`, `Line.finite_toJson`, …   every number of a document has a text;
2. `Program.toJson_inj`, `Diagnostic.toJson_inj`, …   documents tell programs and diagnostics apart.
-/
namespace DialogueBuild

open Json (Value isFinite_list isFinite_ofTexts isFinite_ofTable)

/-! ## Finite results -/

def Operand.IsFinite : Operand → Prop
  | .float x => x.isFinite
  | _ => True

def Node.IsFinite (n : Node) : Prop :=
  ∀ i ∈ n.instructions, ∀ o ∈ i.operands, o.IsFinite

def Program.IsFinite (p : Program) : Prop :=
  (∀ n ∈ p.nodes.entries, n.2.IsFinite) ∧ ∀ v ∈ p.initialValues.entries, v.2.IsFinite

/-- No float of a result is infinite or NaN. -/
def Compilation.IsFinite (c : Compilation) : Prop := ∀ p ∈ c.program, p.IsFinite

/-! ## Numbers of documents -/

theorem isFinite_optionalText (s : Option String) : (optionalText s).IsFinite := by
  cases s <;> simp [optionalText]

theorem OpCode.finite_toJson (c : OpCode) : c.toJson.IsFinite := Json.isFinite_string c.name

theorem Operand.finite_toJson (o : Operand) : o.toJson.IsFinite := by
  cases o <;> simp [toJson, plain, Plain.toJson]

theorem Instruction.finite_toJson (i : Instruction) : i.toJson.IsFinite := by
  simp [toJson, OpCode.finite_toJson, Operand.finite_toJson]

theorem Header.finite_toJson (h : Header) : h.toJson.IsFinite := by simp [toJson]

theorem Node.finite_toJson (n : Node) : n.toJson.IsFinite := by
  simp [toJson, Instruction.finite_toJson, Header.finite_toJson, isFinite_optionalText,
    isFinite_ofTexts, isFinite_ofTable]

theorem Program.finite_toJson (p : Program) : p.toJson.IsFinite := by
  simp [toJson, Node.finite_toJson, Operand.finite_toJson, isFinite_ofTable]

theorem Line.finite_toJson (l : Line) : l.toJson.IsFinite := by
  unfold toJson
  cases l.tags <;> simp [isFinite_ofTable]

theorem Extent.finite_toJson (e : Extent) : e.toJson.IsFinite := by simp [toJson, Position.toJson]

theorem Diagnostic.finite_toJson (d : Diagnostic) : d.toJson.IsFinite := by
  simp [toJson, Severity.toJson, Extent.finite_toJson]

/-! ## Documents tell results apart -/

theorem eq_of_map_eq {α β : Type} {f : α → β} {xs ys : List α}
    (hf : ∀ x ∈ xs, ∀ y ∈ ys, f x = f y → x = y) (h : xs.map f = ys.map f) : xs = ys := by
  induction xs generalizing ys with
  | nil => exact (List.map_eq_nil_iff.mp h.symm).symm
  | cons x xs ih =>
    cases ys with
    | nil => cases h
    | cons y ys =>
      obtain ⟨hhead, htail⟩ := List.cons.inj h
      rw [hf x (by simp) y (by simp) hhead,
        ih (fun a ha b hb => hf a (by simp [ha]) b (by simp [hb])) htail]

namespace Json

theorem ofInt32_inj {m n : Int32} (h : Value.ofInt32 m = .ofInt32 n) : m = n := by
  simp only [Value.ofInt32, Value.ofInt, Value.number.injEq, Number.int.injEq] at h
  exact Int32.toInt.inj h

theorem array_map_inj {α : Type} {f : α → Value} {xs ys : List α}
    (hf : ∀ x ∈ xs, ∀ y ∈ ys, f x = f y → x = y)
    (h : Value.array (xs.map f) = .array (ys.map f)) : xs = ys :=
  eq_of_map_eq hf (Value.array.inj h)

theorem ofTexts_inj {xs ys : List String} (h : Value.ofTexts xs = .ofTexts ys) : xs = ys :=
  array_map_inj (fun _ _ _ _ => Value.string.inj) h

theorem ofTable_inj {α : Type} {f : α → Value} {s t : Table α}
    (hf : ∀ x ∈ s.entries, ∀ y ∈ t.entries, f x.2 = f y.2 → x.2 = y.2)
    (h : Value.ofTable f s = .ofTable f t) : s = t := by
  apply Table.ext
  refine eq_of_map_eq (fun x hx y hy hxy => ?_) (Value.object.inj h)
  obtain ⟨hname, hvalue⟩ := Prod.mk.inj hxy
  exact Prod.ext hname (hf x hx y hy hvalue)

end Json

open Json (ofInt32_inj array_map_inj ofTexts_inj ofTable_inj)

theorem optionalText_inj {s t : Option String} (h : optionalText s = optionalText t) : s = t := by
  cases s <;> cases t <;> simp_all [optionalText]

/-! ### Programs -/

theorem OpCode.name_inj {c d : OpCode} (h : c.name = d.name) : c = d := by
  have hall : ∀ c ∈ OpCode.all, ∀ d ∈ OpCode.all, c.name = d.name → c = d := by decide
  have hmem : ∀ c, c ∈ OpCode.all := by
    intro c
    cases c <;> decide
  exact hall c (hmem c) d (hmem d) h

/-- An unset operand is null, which no other operand is. -/
theorem Operand.toJson_inj {o p : Operand} (ho : o.IsFinite) (hp : p.IsFinite)
    (h : o.toJson = p.toJson) : o = p := by
  cases o with
  | float x =>
    have hx : x.isFinite := ho
    cases p with
    | float y =>
      have hy : y.isFinite := hp
      simpa [toJson, plain, Plain.toJson, Value.ofFloat, hx, hy] using h
    | _ => simp [toJson, plain, Plain.toJson, Value.ofFloat, hx] at h
  | _ =>
    cases p with
    | float y =>
      have hy : y.isFinite := hp
      simp [toJson, plain, Plain.toJson, Value.ofFloat, hy] at h
    | _ => simp_all [toJson, plain, Plain.toJson]

theorem Instruction.toJson_inj {i j : Instruction} (hi : ∀ o ∈ i.operands, o.IsFinite)
    (hj : ∀ o ∈ j.operands, o.IsFinite) (h : i.toJson = j.toJson) : i = j := by
  simp only [toJson, Value.object.injEq, List.cons.injEq, Prod.mk.injEq, true_and, and_true] at h
  obtain ⟨hopcode, hoperands⟩ := h
  cases i
  cases j
  rw [Instruction.mk.injEq]
  exact ⟨OpCode.name_inj (Value.string.inj hopcode),
    array_map_inj (fun o ho p hp => Operand.toJson_inj (hi o ho) (hj p hp)) hoperands⟩

theorem Header.toJson_inj {g h : Header} (heq : g.toJson = h.toJson) : g = h := by
  simp only [toJson, Value.object.injEq, List.cons.injEq, Prod.mk.injEq, Value.string.injEq,
    true_and, and_true] at heq
  cases g
  cases h
  rw [Header.mk.injEq]
  exact heq

theorem Node.toJson_inj {m n : Node} (hm : m.IsFinite) (hn : n.IsFinite)
    (h : m.toJson = n.toJson) : m = n := by
  simp only [toJson, Value.object.injEq, List.cons.injEq, Prod.mk.injEq, Value.string.injEq,
    true_and, and_true] at h
  obtain ⟨hname, hinstructions, hlabels, htags, hid, hheaders⟩ := h
  cases m
  cases n
  rw [Node.mk.injEq]
  refine ⟨hname, ?_, ?_, ofTexts_inj htags, optionalText_inj hid, ?_⟩
  · exact array_map_inj (fun i hi j hj => Instruction.toJson_inj (hm i hi) (hn j hj)) hinstructions
  · exact ofTable_inj (fun _ _ _ _ => ofInt32_inj) hlabels
  · exact array_map_inj (fun _ _ _ _ => Header.toJson_inj) hheaders

theorem Program.toJson_inj {p q : Program} (hp : p.IsFinite) (hq : q.IsFinite)
    (h : p.toJson = q.toJson) : p = q := by
  simp only [toJson, Value.object.injEq, List.cons.injEq, Prod.mk.injEq, Value.string.injEq,
    true_and, and_true] at h
  obtain ⟨hname, hnodes, hvalues⟩ := h
  cases p
  cases q
  rw [Program.mk.injEq]
  refine ⟨hname, ?_, ?_⟩
  · exact ofTable_inj (fun m hm n hn => Node.toJson_inj (hp.1 m hm) (hq.1 n hn)) hnodes
  · exact ofTable_inj (fun v hv w hw => Operand.toJson_inj (hp.2 v hv) (hq.2 w hw)) hvalues

/-! ### Diagnostics -/

theorem Severity.toJson_inj {s t : Severity} (h : s.toJson = t.toJson) : s = t := by
  cases s <;> cases t <;> simp_all [toJson, name]

theorem Position.toJson_inj {p q : Position} (h : p.toJson = q.toJson) : p = q := by
  simp only [toJson, Value.object.injEq, List.cons.injEq, Prod.mk.injEq, true_and, and_true] at h
  cases p
  cases q
  rw [Position.mk.injEq]
  exact ⟨ofInt32_inj h.1, ofInt32_inj h.2⟩

theorem Extent.toJson_inj {e f : Extent} (h : e.toJson = f.toJson) : e = f := by
  simp only [toJson, Value.object.injEq, List.cons.injEq, Prod.mk.injEq, true_and, and_true] at h
  cases e
  cases f
  rw [Extent.mk.injEq]
  exact ⟨Position.toJson_inj h.1, Position.toJson_inj h.2⟩

theorem Diagnostic.toJson_inj {d e : Diagnostic} (h : d.toJson = e.toJson) : d = e := by
  simp only [toJson, Value.object.injEq, List.cons.injEq, Prod.mk.injEq, Value.string.injEq,
    true_and, and_true] at h
  obtain ⟨hmessage, hfile, hextent, hseverity⟩ := h
  cases d
  cases e
  rw [Diagnostic.mk.injEq]
  exact ⟨hmessage, hfile, Extent.toJson_inj hextent, Severity.toJson_inj hseverity⟩

end DialogueBuild
