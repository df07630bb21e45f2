import DialogueBuild.Proofs.Project.Creation
import DialogueBuild.Proofs.Project.Manifest
/-!
Projects that are saved and loaded again.

Results:

1. `save_of_vacant`      where nothing is, a project is saved with the text of its manifest;
2. `manifests_survive`   a project survives being saved and loaded, whatever its manifest keeps.
-/
namespace DialogueBuild.Project

open Json

variable {fs fs' : FileSystem} {p : Project} {path : Path}

/-- Loading is reading the manifest in a file. -/
theorem load_eq_ok_iff :
    load fs path = .ok p
      ↔ ∃ text, fs.readText path = .ok text ∧ Manifest.ofText text = .ok p.manifest
        ∧ p.path = path := by
  unfold load
  constructor
  · intro h
    split at h
    · cases h
    · rename_i text htext
      split at h
      · rename_i manifest hmanifest
        cases h
        exact ⟨text, htext, hmanifest, rfl⟩
      · cases h
  · rintro ⟨text, htext, hmanifest, rfl⟩
    rw [htext]
    simp only [hmanifest]

/-- Where nothing is, a project is saved with the text of its manifest. -/
theorem save_of_vacant (h : fs.Vacant path) (p : Project) :
    ∃ fs', p.save fs path = .ok fs' ∧ fs'.readText path = .ok p.manifest.text := by
  obtain ⟨loc, hvacant⟩ := FileSystem.vacancy_of_vacant h
  exact ⟨_, save_eq_ok_iff.mpr ⟨loc, hvacant, rfl⟩, FileSystem.readText_of_vacancy hvacant _⟩

/-- A project that is new or was loaded survives being saved where nothing is and loaded from
there: only its path is another one. Saving what was loaded writes the same text again. -/
theorem manifests_survive (hp : (∃ excludeBuilds, p = .new excludeBuilds) ∨
      ∃ source origin, load source origin = .ok p)
    (hfloats : ∀ x ∈ memberFloats p.manifest.extra.entries, ReadsBack x)
    (hvacant : fs.Vacant path) :
    ∃ fs' q, p.save fs path = .ok fs' ∧ load fs' path = .ok q ∧
      q.manifest = p.manifest ∧ q.path = path ∧
      ∀ target place, FileSystem.Vacant target place →
        ∃ target', q.save target place = .ok target' ∧
          target'.readText place = fs'.readText path := by
  have hsound : p.manifest.Sound := by
    rcases hp with ⟨excludeBuilds, rfl⟩ | ⟨source, origin, hload⟩
    · exact Manifest.sound_new excludeBuilds
    · obtain ⟨text, -, hmanifest, -⟩ := load_eq_ok_iff.mp hload
      exact Manifest.sound_ofText hmanifest
  obtain ⟨fs', hsave, htext⟩ := save_of_vacant hvacant p
  have hload : load fs' path = .ok ⟨p.manifest, path⟩ :=
    load_eq_ok_iff.mpr ⟨_, htext, Manifest.ofText_text hsound hfloats, rfl⟩
  refine ⟨fs', ⟨p.manifest, path⟩, hsave, hload, rfl, rfl, fun target place hplace => ?_⟩
  obtain ⟨target', hagain, hsame⟩ := save_of_vacant hplace ⟨p.manifest, path⟩
  exact ⟨target', hagain, hsame.trans htext.symm⟩

/-- A manifest that keeps a float inside an array inside an object. -/
theorem manifests_survive_nested :
    let x : Float := .ofBits 0x3FF8000000000000
    let manifest : Manifest :=
      { Manifest.new false with
        extra := .ofList [("note", .object [("a", .array [.null, .number (.float x)])])] }
    let p : Project := ⟨manifest, ⟨"a.yarnproject"⟩⟩
    let text := "\x7b\n  \"projectFileVersion\": 2,\n"
      ++ "  \"sourceFiles\": [\n    \"**/*.yarn\"\n  ],\n"
      ++ "  \"excludeFiles\": [],\n  \"baseLanguage\": \"en\",\n"
      ++ "  \"note\": \x7b\n    \"a\": [\n      null,\n      1.5\n    ]\n  \x7d\n\x7d\n"
    let fs : FileSystem :=
      ⟨[([['w']], .directory), ([['w'], "a.yarnproject".toList], .file (.ofText text))], by decide,
        [['w']]⟩
    load fs ⟨"a.yarnproject"⟩ = .ok p ∧ ReadsBack x ∧ fs.Vacant ⟨"b.yarnproject"⟩ ∧
    ∃ fs' q, p.save fs ⟨"b.yarnproject"⟩ = .ok fs' ∧ load fs' ⟨"b.yarnproject"⟩ = .ok q ∧
      q.manifest = p.manifest ∧ q.path = ⟨"b.yarnproject"⟩ ∧
      ∀ target place, FileSystem.Vacant target place →
        ∃ target', q.save target place = .ok target' ∧
          target'.readText place = fs'.readText ⟨"b.yarnproject"⟩ := by
  intro x manifest p text fs
  have hfloats : ∀ y ∈ memberFloats manifest.extra.entries, ReadsBack y := by
    intro y hy
    have hx : memberFloats manifest.extra.entries = [x] := by
      show memberFloats [("note", .object [("a", .array [.null, .number (.float x)])])] = [x]
      simp [memberFloats, Value.floats, itemFloats]
    rw [hx] at hy
    rw [List.mem_singleton.mp hy]
    exact readsBack_three_halves
  have hsound : manifest.Sound := by
    intro e he
    rw [List.mem_singleton.mp (show e ∈ [_] from he)]
    refine ⟨by decide, ?_⟩
    simp [Value.Fits, fitsMembers, fitsItems, Manifest.roomInside, maxDepth]
  have htext : manifest.text = text := by decide +kernel +zetaReduce
  have hload : load fs ⟨"a.yarnproject"⟩ = .ok p :=
    load_eq_ok_iff.mpr ⟨text, FileSystem.readText_of_lookup rfl,
      htext ▸ Manifest.ofText_text hsound hfloats, rfl⟩
  have hvacant : fs.Vacant ⟨"b.yarnproject"⟩ :=
    ⟨⟨⟨""⟩, "b.yarnproject", by decide, by decide, by decide, by decide, by decide,
      by decide +kernel +zetaReduce⟩, rfl⟩
  exact ⟨hload, readsBack_three_halves, hvacant,
    manifests_survive (.inr ⟨fs, _, hload⟩) hfloats hvacant⟩

end DialogueBuild.Project
