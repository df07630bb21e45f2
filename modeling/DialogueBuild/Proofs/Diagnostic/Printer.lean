import DialogueBuild.Diagnostic.Snippet
import DialogueBuild.Proofs.Table
/-!
Diagnostics that are printed together.

Each of them reads as if it were the only one, with the text of its own file as it is now. The
files are read once for all diagnostics, so this rests on what a table of sources holds while it is
filled: nothing but current texts, and after a file has been asked for, its text if it can be read.

Results:

1. `get?_loadSources`         the sources that are loaded are the current texts of the files that
                              the diagnostics are about;
2. `renderAll_of_texts`       diagnostics are printed one by one with the texts that their files
                              have in a table;
3. `intercalate_append`, `intercalate_append_cons`
                              where the parts of a joined text stand;
4. `diagnostics_stand_alone`  what the diagnostics of a list look like together.
-/
namespace DialogueBuild

/-! ## Joined texts -/

section

variable {sep : List Char} {xs ys : List (List Char)}

/-- Behind every part but the last one stands a separator. -/
theorem intercalate_concat (sep : List Char) (xs : List (List Char)) (y : List Char) :
    sep.intercalate (xs ++ [y]) = (xs.flatMap fun x => x ++ sep) ++ y := by
  induction xs with
  | nil => simp
  | cons x xs ih =>
    obtain ⟨next, rest, hnext⟩ : ∃ next rest, xs ++ [y] = next :: rest :=
      List.exists_cons_of_ne_nil (by simp)
    rw [List.cons_append, hnext, List.intercalate_cons_cons, ← hnext, ih, List.flatMap_cons,
      ← List.append_assoc]

/-- Two joined texts are joined by one more separator. -/
theorem intercalate_append (hx : xs ≠ []) (hy : ys ≠ []) :
    sep.intercalate (xs ++ ys) = sep.intercalate xs ++ sep ++ sep.intercalate ys := by
  obtain ⟨front, x, rfl⟩ := List.eq_nil_or_concat' xs |>.resolve_left hx
  obtain ⟨back, y, rfl⟩ := List.eq_nil_or_concat' ys |>.resolve_left hy
  rw [← List.append_assoc, intercalate_concat, intercalate_concat, intercalate_concat]
  simp

/-- In front of every part behind the first one stands a separator. -/
theorem intercalate_append_cons (sep : List Char) (xs : List (List Char)) (y : List Char)
    (ys : List (List Char)) :
    sep.intercalate (xs ++ y :: ys)
      = (xs.flatMap fun x => x ++ sep) ++ y ++ ys.flatMap fun z => sep ++ z := by
  induction ys using List.reverseRecOn with
  | nil => rw [intercalate_concat, List.flatMap_nil, List.append_nil]
  | append_singleton ys z ih =>
    have hparts : xs ++ y :: (ys ++ [z]) = (xs ++ y :: ys) ++ [z] := by simp
    rw [hparts, intercalate_append (by simp) (by simp), ih, List.intercalate_singleton]
    simp

end

namespace Diagnostic

/-! ## Sources -/

/-- The text of a file as it is now. No file has an empty name. -/
def textOf? (fs : FileSystem) (fileName : String) : Option String :=
  if fileName.isEmpty then none else (fs.readText ⟨fileName⟩).toOption

variable {fs : FileSystem} {sources : Table String} {fileName : String}

/-- What is known of the files is what stands in them now. -/
def IsCurrent (fs : FileSystem) (sources : Table String) : Prop :=
  ∀ fileName text, sources.get? fileName = some text → textOf? fs fileName = some text

theorem addSource_of_isSome (h : (sources.get? fileName).isSome) :
    addSource fs sources fileName = sources := by
  rw [addSource, if_pos (.inr h)]

/-- A file that is not known yet is added with its current text, if it has one. -/
theorem addSource_of_none (h : sources.get? fileName = none) :
    addSource fs sources fileName
      = (textOf? fs fileName).elim sources fun text => sources.insert fileName text := by
  unfold addSource textOf?
  rw [h]
  by_cases hempty : fileName.isEmpty
  · simp [hempty]
  · cases fs.readText ⟨fileName⟩ <;> simp [hempty, Except.toOption]

/-- After a file has been asked for, its current text is known. -/
theorem get?_addSource_self (h : IsCurrent fs sources) :
    (addSource fs sources fileName).get? fileName = textOf? fs fileName := by
  cases hknown : sources.get? fileName with
  | some text =>
    rw [addSource_of_isSome (by rw [hknown]; rfl), hknown, h fileName text hknown]
  | none =>
    rw [addSource_of_none hknown]
    cases htext : textOf? fs fileName with
    | some text => exact Table.get?_insert_self sources fileName text
    | none => exact hknown

/-- What is known of other files stays as it is. -/
theorem get?_addSource_of_ne {name : String} (h : name ≠ fileName) :
    (addSource fs sources fileName).get? name = sources.get? name := by
  cases hknown : sources.get? fileName with
  | some text => rw [addSource_of_isSome (by rw [hknown]; rfl)]
  | none =>
    rw [addSource_of_none hknown]
    cases textOf? fs fileName with
    | some text => exact Table.get?_insert_of_ne sources text h
    | none => rfl

/-- The sources that are loaded for diagnostics are the current texts of the files that these are
about, however often and in which order they come. -/
theorem get?_loadSources (fs : FileSystem) (ds : List Diagnostic) (name : String) :
    (loadSources fs ds).get? name
      = if name ∈ ds.map Diagnostic.fileName then textOf? fs name else none := by
  induction ds using List.reverseRecOn generalizing name with
  | nil => rfl
  | append_singleton ds d ih =>
    have hstep : loadSources fs (ds ++ [d]) = addSource fs (loadSources fs ds) d.fileName := by
      simp [loadSources]
    have hcurrent : IsCurrent fs (loadSources fs ds) := by
      intro other text hother
      rw [ih] at hother
      split at hother
      · exact hother
      · cases hother
    rw [hstep, List.map_append, List.map_singleton]
    by_cases hname : name = d.fileName
    · rw [hname, get?_addSource_self hcurrent, if_pos (by simp)]
    · rw [get?_addSource_of_ne hname, ih]
      simp [hname]

/-! ## Texts -/

/-- A diagnostic with the text of its file, or without one. -/
def shown (colored : Bool) (text? : Option String) (d : Diagnostic) : List Char :=
  match text? with
  | some text => Snippet.text colored d text.toList
  | none => d.summary ++ ['\n']

/-- Of a table of sources a diagnostic shows nothing but what its own file has there. -/
theorem render_eq (colored : Bool) (sources : Table String) (d : Diagnostic) :
    render colored sources d = shown colored (sources.get? d.fileName) d := by
  unfold render shown
  cases sources.get? d.fileName <;> rfl

/-- Diagnostics are printed one by one with the texts that their files have in a table. -/
theorem renderAll_of_texts (colored : Bool) {ds : List Diagnostic} (text? : String → Option String)
    (h : ∀ d ∈ ds, sources.get? d.fileName = text? d.fileName) :
    renderAll colored sources ds
      = ['\n'].intercalate (ds.map fun d => shown colored (text? d.fileName) d) := by
  have htexts : ds.map (render colored sources)
      = ds.map fun d => shown colored (text? d.fileName) d :=
    List.map_congr_left fun d hd => by rw [render_eq, h d hd]
  rw [renderAll, htexts]

/-- The texts of diagnostics with the sources that can be read now. -/
def renderLoaded (colored : Bool) (fs : FileSystem) (ds : List Diagnostic) : List Char :=
  renderAll colored (loadSources fs ds) ds

theorem renderLoaded_eq (colored : Bool) (fs : FileSystem) (ds : List Diagnostic) :
    renderLoaded colored fs ds
      = ['\n'].intercalate (ds.map fun d => shown colored (textOf? fs d.fileName) d) := by
  refine renderAll_of_texts colored (textOf? fs) fun d hd => ?_
  rw [get?_loadSources, if_pos (List.mem_map_of_mem hd)]

/-! ## One by one -/

/-- The file of a diagnostic with its current text, and no other file. -/
def ownSource (fs : FileSystem) (d : Diagnostic) : Table String :=
  match textOf? fs d.fileName with
  | some text => .ofList [(d.fileName, text)]
  | none => .empty

/-- The text of a diagnostic that is the only one. -/
def alone (colored : Bool) (fs : FileSystem) (d : Diagnostic) : List Char :=
  renderAll colored (ownSource fs d) [d]

theorem get?_ownSource (fs : FileSystem) (d : Diagnostic) :
    (ownSource fs d).get? d.fileName = textOf? fs d.fileName := by
  unfold ownSource
  cases textOf? fs d.fileName with
  | some text => simp [Table.get?_ofList]
  | none => rfl

theorem alone_eq (colored : Bool) (fs : FileSystem) (d : Diagnostic) :
    alone colored fs d = shown colored (textOf? fs d.fileName) d := by
  have howned : ∀ e ∈ [d], (ownSource fs d).get? e.fileName = textOf? fs e.fileName := by
    intro e he
    rw [List.mem_singleton.mp he, get?_ownSource]
  rw [alone, renderAll_of_texts colored (textOf? fs) howned, List.map_singleton,
    List.intercalate_singleton]

/-- Diagnostics stand alone. Printed together with the files that can be read now, each of them
reads as if it were the only one and its file, if that can be read, the only file; between two of
them is one empty line. So lists are printed one behind the other, every diagnostic is printed once,
at its place, and file systems that agree on the files of the diagnostics cannot be told apart. If
several texts are given for one path, the last one counts. -/
theorem diagnostics_stand_alone (colored : Bool) (fs : FileSystem) :
    (∀ ds, renderLoaded colored fs ds = ['\n'].intercalate (ds.map (alone colored fs)))
      ∧ (∀ xs ys, xs ≠ [] → ys ≠ [] →
          renderLoaded colored fs (xs ++ ys)
            = renderLoaded colored fs xs ++ ['\n'] ++ renderLoaded colored fs ys)
      ∧ (∀ xs d ys, renderLoaded colored fs (xs ++ d :: ys)
          = (xs.flatMap fun x => alone colored fs x ++ ['\n']) ++ alone colored fs d
            ++ ys.flatMap fun y => ['\n'] ++ alone colored fs y)
      ∧ (∀ d, alone colored fs d = shown colored (textOf? fs d.fileName) d)
      ∧ (∀ fs' ds, (∀ d ∈ ds, textOf? fs' d.fileName = textOf? fs d.fileName) →
          renderLoaded colored fs' ds = renderLoaded colored fs ds)
      ∧ ∀ registered ds, renderAll colored (.ofList registered) ds
          = ['\n'].intercalate (ds.map fun d =>
              shown colored (registered.reverse.lookup d.fileName) d) := by
  have hall (ds : List Diagnostic) :
      renderLoaded colored fs ds = ['\n'].intercalate (ds.map (alone colored fs)) := by
    rw [renderLoaded_eq, funext (alone_eq colored fs)]
  refine ⟨hall, fun xs ys hx hy => ?_, fun xs d ys => ?_, alone_eq colored fs,
    fun fs' ds h => ?_, fun registered ds => ?_⟩
  · rw [hall, hall, hall, List.map_append]
    exact intercalate_append (mt List.map_eq_nil_iff.mp hx) (mt List.map_eq_nil_iff.mp hy)
  · rw [hall, List.map_append, List.map_cons, intercalate_append_cons, List.flatMap_map,
      List.flatMap_map]
  · have htexts : ∀ d ∈ ds, (loadSources fs' ds).get? d.fileName = textOf? fs d.fileName := by
      intro d hd
      rw [get?_loadSources, if_pos (List.mem_map_of_mem hd), h d hd]
    rw [renderLoaded, renderAll_of_texts colored (textOf? fs) htexts, renderLoaded_eq]
  · exact renderAll_of_texts colored (fun name => registered.reverse.lookup name)
      fun d _ => Table.get?_ofList registered d.fileName

/-- One file that two diagnostics are about, one that cannot be read, and a file system that has
another file besides. -/
theorem diagnostics_stand_alone_shared :
    let fs : FileSystem :=
      { entries := [([['w']], .directory), ([['w'], ['a']], .file ⟨"é $x\n".toUTF8, 0o600⟩)]
        nodup := by decide
        workingDirectory := [['w']] }
    let fs' := fs.put [['w'], ['c']] (.file ⟨"c".toUTF8, 0o600⟩)
    let known : Diagnostic := ⟨"m", "a", ⟨⟨0, 2⟩, ⟨0, 4⟩⟩, .error⟩
    let unknown : Diagnostic := ⟨"n", "b", ⟨⟨0, 0⟩, ⟨0, 1⟩⟩, .info⟩
    [known, unknown] ≠ [] ∧ [known] ≠ []
      ∧ (∀ d ∈ [known, unknown, known], textOf? fs' d.fileName = textOf? fs d.fileName)
      ∧ renderLoaded false fs ([known, unknown] ++ [known])
        = ("error: m\n --> a:1:3\n  |\n1 | é $x\n  |   ^^\n\nb:1:1: info: n\n\n"
          ++ "error: m\n --> a:1:3\n  |\n1 | é $x\n  |   ^^\n").toList
      ∧ renderLoaded false fs' [known, unknown, known]
        = renderLoaded false fs [known, unknown, known] := by
  intro fs fs' known unknown
  have hagree : ∀ d ∈ [known, unknown, known], textOf? fs' d.fileName = textOf? fs d.fileName := by
    decide +kernel
  obtain ⟨-, happend, -, -, hsame, -⟩ := diagnostics_stand_alone false fs
  refine ⟨List.cons_ne_nil _ _, List.cons_ne_nil _ _, hagree, ?_, hsame fs' _ hagree⟩
  rw [happend _ _ (List.cons_ne_nil _ _) (List.cons_ne_nil _ _)]
  decide +kernel

end Diagnostic

end DialogueBuild
