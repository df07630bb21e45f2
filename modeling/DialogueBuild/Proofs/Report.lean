import DialogueBuild.Proofs.Agreement
import DialogueBuild.Proofs.Documents
import DialogueBuild.Proofs.Json.Compact
/-!
A report is one line, and it tells as much of a result as it should.

Two results have the same report if and only if they have the same program, the same texts under the
same ids, and the same diagnostics. Nothing else that is known of a line can be told from a report.

Results:

1. `finite_reportBody`   every number of a report has a text;
2. `reportBody_inj`      the body of a report shows the program, the texts and the diagnostics;
3. `reports_tell`        reports are lines that show these parts of a result and no others.
-/
namespace DialogueBuild

open Json (Value)

namespace Compilation

/-- An absent program is null, which no program is. -/
theorem programMember_inj {c d : Compilation} (hc : c.IsFinite) (hd : d.IsFinite)
    (h : c.programMember = d.programMember) : c.program = d.program := by
  unfold programMember at h
  cases hp : c.program with
  | none =>
    cases hq : d.program with
    | none => rfl
    | some q => simp [hp, hq, Program.toJson] at h
  | some p =>
    cases hq : d.program with
    | none => simp [hp, hq, Program.toJson] at h
    | some q =>
      simp only [hp, hq, Option.map_some, Option.getD_some] at h
      rw [Program.toJson_inj (hc p hp) (hd q hq) h]

/-- The texts of the lines under their ids. -/
def texts (c : Compilation) : List (String × String) :=
  c.strings.entries.map fun e => (e.1, e.2.text)

theorem reportBody_eq_texts (c : Compilation) :
    c.reportBody = .object [("Program", c.programMember),
      ("Strings", .object (c.texts.map fun e => (e.1, .object [("Text", .string e.2)]))),
      ("Diagnostics", .array (c.diagnostics.map Diagnostic.toJson))] := by
  rw [reportBody_eq, texts, List.map_map]
  rfl

/-- Whatever a result holds, every number of its report has a text. -/
theorem finite_reportBody (c : Compilation) : c.reportBody.IsFinite := by
  have hprogram : c.programMember.IsFinite := by
    unfold programMember
    cases c.program with
    | none => exact Json.isFinite_null
    | some p => exact p.finite_toJson
  have hstrings := Json.isFinite_ofTable (f := StringEntry.reported)
    (fun e => by simp [StringEntry.reported]) c.strings
  have hdiagnostics := Json.isFinite_list Diagnostic.finite_toJson c.diagnostics
  rw [reportBody_eq, Json.isFinite_object]
  simp only [List.forall_mem_cons, List.not_mem_nil, false_imp_iff, implies_true, and_true]
  exact ⟨hprogram, hstrings, hdiagnostics⟩

/-- The body of a report shows the program, the texts and the diagnostics. -/
theorem reportBody_inj {c d : Compilation} (hc : c.IsFinite) (hd : d.IsFinite)
    (h : c.reportBody = d.reportBody) :
    c.program = d.program ∧ c.texts = d.texts ∧ c.diagnostics = d.diagnostics := by
  simp only [reportBody_eq_texts, Value.object.injEq, List.cons.injEq, Prod.mk.injEq, true_and,
    and_true] at h
  obtain ⟨hprogram, htexts, hdiagnostics⟩ := h
  refine ⟨programMember_inj hc hd hprogram, ?_, ?_⟩
  · refine eq_of_map_eq (fun s _ t _ hst => ?_) htexts
    simp only [Prod.mk.injEq, Value.object.injEq, List.cons.injEq, Value.string.injEq, true_and,
      and_true] at hst
    exact Prod.ext hst.1 hst.2
  · exact Json.array_map_inj (fun _ _ _ _ => Diagnostic.toJson_inj) hdiagnostics

/-- It shows nothing else. -/
theorem reportBody_congr {c d : Compilation} (hprogram : c.program = d.program)
    (htexts : c.texts = d.texts) (hdiagnostics : c.diagnostics = d.diagnostics) :
    c.reportBody = d.reportBody := by
  rw [reportBody_eq_texts, reportBody_eq_texts, programMember, programMember, hprogram, htexts,
    hdiagnostics]

/-- A report is one faithful line. Its only newline is its end, and two reports are equal if and
only if the programs, the texts under their ids, and the diagnostics are: so what else is known of
the lines never shows. Floats are equal here when all their bits are. -/
theorem reports_tell {c : Compilation} (hc : c.IsFinite) :
    (∃ line, c.reportText = line ++ ['\n'] ∧ '\n' ∉ line)
      ∧ (∀ d : Compilation, d.IsFinite →
          (d.reportText = c.reportText
            ↔ d.program = c.program ∧ d.texts = c.texts ∧ d.diagnostics = c.diagnostics))
      ∧ ∀ relabel : StringEntry → StringEntry, (∀ e, (relabel e).text = e.text) →
          { c with strings := c.strings.map relabel }.reportText = c.reportText := by
  refine ⟨?_, fun d hd => ⟨fun h => ?_, fun h => ?_⟩, fun relabel hrelabel => ?_⟩
  · exact ⟨_, rfl, (Json.noControls_compact c.reportBody).newline_notMem⟩
  · have hcompact : d.reportBody.compact = c.reportBody.compact := List.append_cancel_right h
    have hbody := Json.compact_inj d.finite_reportBody c.finite_reportBody hcompact
    exact reportBody_inj hd hc hbody
  · rw [reportText, reportText, reportBody_congr h.1 h.2.1 h.2.2]
  · have htexts : { c with strings := c.strings.map relabel }.texts = c.texts := by
      simp [texts, Table.map, hrelabel]
    have hbody : { c with strings := c.strings.map relabel }.reportBody = c.reportBody :=
      reportBody_congr rfl htexts rfl
    rw [reportText, reportText, hbody]

/-- A text and a number that look alike, an unset operand and a line break in a text are told
apart; the node of a line is not. -/
theorem reports_tell_alike :
    let shown (operand : Operand) (text node : String) : Compilation :=
      { program := some
          { name := "Ship"
            nodes := .ofList
              [("Start", ⟨"Start", [⟨.callFunc, [operand, .float 0.5]⟩], .empty, [], none, []⟩)]
            initialValues := .empty }
        strings := .ofList [("line:1", ⟨text, node, 3, "Ship.yarn", [], false⟩)]
        diagnostics := [⟨"m\"\n", "Ship.yarn", ⟨⟨0, 0⟩, ⟨0, 1⟩⟩, .warning⟩] }
    (shown (.float 1) "Ahoy" "A").IsFinite ∧ (shown .unset "Ahoy" "B").IsFinite
      ∧ (shown (.string "1") "Ahoy" "A").reportText ≠ (shown (.float 1) "Ahoy" "A").reportText
      ∧ (shown .unset "Ahoy" "A").reportText ≠ (shown (.string "") "Ahoy" "A").reportText
      ∧ (shown .unset "Ahoy\n" "A").reportText ≠ (shown .unset "Ahoy\\n" "A").reportText
      ∧ (shown .unset "Ahoy" "A\n").reportText = (shown .unset "Ahoy" "B").reportText := by
  intro shown
  have hhalf : Float.isFinite 0.5 := by decide
  have hone : Float.isFinite 1 := by decide
  have hfinite (operand : Operand) (text node : String) (h : operand.IsFinite) :
      (shown operand text node).IsFinite := by
    rintro p ⟨⟩
    simpa [Program.IsFinite, Node.IsFinite, Operand.IsFinite, Table.ofList, Table.insert,
      Table.empty, insertEntry, hhalf] using h
  have htell (o p : Operand) (ho : o.IsFinite) (hp : p.IsFinite) (s t m n : String) :=
    (reports_tell (hfinite p t n hp)).2.1 (shown o s m) (hfinite o s m ho)
  refine ⟨hfinite _ _ _ hone, hfinite _ _ _ trivial, fun h => ?_, fun h => ?_, fun h => ?_, ?_⟩
  · obtain ⟨hprogram, -, -⟩ := (htell (.string "1") (.float 1) trivial hone _ _ _ _).mp h
    simp [shown, Table.ofList, Table.insert, Table.empty, insertEntry] at hprogram
  · obtain ⟨hprogram, -, -⟩ := (htell .unset (.string "") trivial trivial _ _ _ _).mp h
    simp [shown, Table.ofList, Table.insert, Table.empty, insertEntry] at hprogram
  · obtain ⟨-, htexts, -⟩ := (htell .unset .unset trivial trivial _ _ _ _).mp h
    simp [shown, texts, Table.ofList, Table.insert, Table.empty, insertEntry] at htexts
  · exact (htell .unset .unset trivial trivial _ _ _ _).mpr ⟨rfl, rfl, rfl⟩

end Compilation

end DialogueBuild
