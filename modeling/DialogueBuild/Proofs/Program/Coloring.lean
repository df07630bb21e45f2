import DialogueBuild.Proofs.Palette
import DialogueBuild.Proofs.Program.Listing
/-!
Coloured listings.

Colours only add escape sequences to a listing, and each of them is switched off on its line. That
asks for nothing but names without escape characters and line ends: strings of operands and texts of
lines are quoted, and quoted texts have neither.

Results:

1. `eraseCodes_paint`, `resets_paint`   both hold of every list of tame stretches;
2. `tame_ofInstructions`                the instructions of a node and the labels between them are
                                        tame;
3. `tame_listing`                       and so is a whole listing;
4. `colors_only_add_codes`              what the colours of a listing do to its text.
-/
namespace DialogueBuild

open Text (NoControls)

/-! ## Tame stretches -/

/-- The text neither begins an escape sequence nor ends a line. -/
def Text.IsInert (cs : List Char) : Prop := '\x1b' ∉ cs ∧ '\n' ∉ cs

open Text (IsInert)

instance (cs : List Char) : Decidable (IsInert cs) := inferInstanceAs (Decidable (_ ∧ _))

theorem Text.NoControls.isInert {cs : List Char} (h : NoControls cs) : IsInert cs :=
  ⟨fun hc => absurd (h _ hc) (by decide), h.newline_notMem⟩

@[simp] theorem Text.isInert_append {cs ds : List Char} :
    IsInert (cs ++ ds) ↔ IsInert cs ∧ IsInert ds := by
  simp only [IsInert, List.mem_append, not_or]
  tauto

theorem Text.isInert_flatMap {α : Type} {f : α → List Char} {items : List α}
    (h : ∀ a ∈ items, IsInert (f a)) : IsInert (items.flatMap f) := by
  constructor <;> intro hmem <;> obtain ⟨a, ha, hmem⟩ := List.mem_flatMap.mp hmem
  · exact (h a ha).1 hmem
  · exact (h a ha).2 hmem

/-- The stretch has no escape character, and if it is coloured, it stays on its line. -/
structure Stretch.IsTame (s : Stretch) : Prop where
  noEscape : '\x1b' ∉ s.text
  onLine : s.shade ≠ .plain → '\n' ∉ s.text

/-- Every stretch is tame. -/
def Listing.IsTame (l : Listing) : Prop := ∀ s ∈ l, s.IsTame

namespace Listing

section

variable {s : Stretch} {l m : Listing}

theorem tame_of_isInert (h : IsInert s.text) : s.IsTame := ⟨h.1, fun _ => h.2⟩

@[simp] theorem isTame_nil : IsTame [] := by
  intro s hs
  cases hs

@[simp] theorem isTame_cons : IsTame (s :: l) ↔ s.IsTame ∧ IsTame l := List.forall_mem_cons

@[simp] theorem isTame_append : IsTame (l ++ m) ↔ IsTame l ∧ IsTame m := List.forall_mem_append

theorem isTame_flatMap {α : Type} {f : α → Listing} {items : List α}
    (h : ∀ a ∈ items, IsTame (f a)) : IsTame (items.flatMap f) := by
  intro s hs
  obtain ⟨a, ha, hs⟩ := List.mem_flatMap.mp hs
  exact h a ha s hs

/-- A stretch is painted with a colour and a reset around it, or with nothing. -/
theorem paint_cases (s : Stretch) :
    s.paint .colored = s.text ∧ s.shade = .plain
      ∨ ∃ color ∈ Palette.colored.colors,
          s.paint .colored = color ++ s.text ++ Palette.colored.reset ∧ s.shade ≠ .plain := by
  obtain ⟨shade, text⟩ := s
  cases shade with
  | plain => exact .inl ⟨rfl, rfl⟩
  | blue => exact .inr ⟨Palette.colored.blue, by decide, rfl, Shade.noConfusion⟩
  | green => exact .inr ⟨Palette.colored.green, by decide, rfl, Shade.noConfusion⟩
  | dim => exact .inr ⟨Palette.colored.dim, by decide, rfl, Shade.noConfusion⟩

theorem eraseCodes_color {color : List Char}
    (h : color ∈ Palette.colored.reset :: Palette.colored.colors) (rest : List Char) :
    eraseCodes (color ++ rest) = eraseCodes rest := by
  obtain ⟨digits, rfl, hne, hdigits⟩ := exists_digits_of_color h
  exact eraseCodes_rendition hne hdigits rest

/-- Without its escape sequences a coloured listing is the listing without colours. -/
theorem eraseCodes_paint (h : IsTame l) : eraseCodes (l.paint .colored) = shown l := by
  induction l with
  | nil => exact eraseCodes_nil
  | cons s l ih =>
    obtain ⟨hs, hl⟩ := isTame_cons.mp h
    have hpaint : paint .colored (s :: l) = s.paint .colored ++ paint .colored l := rfl
    rw [hpaint, shown_cons, ← ih hl]
    rcases paint_cases s with ⟨htext, -⟩ | ⟨color, hcolor, htext, -⟩
    · rw [htext, eraseCodes_append hs.noEscape]
    · rw [htext, List.append_assoc, List.append_assoc,
        eraseCodes_color (List.mem_cons_of_mem _ hcolor), eraseCodes_append hs.noEscape,
        eraseCodes_color List.mem_cons_self]

/-- Every colour of a listing is switched off on its line. -/
theorem resets_paint (h : IsTame l) : Resets (l.paint .colored) := by
  induction l with
  | nil => exact resets_nil
  | cons s l ih =>
    obtain ⟨hs, hl⟩ := isTame_cons.mp h
    have hpaint : paint .colored (s :: l) = s.paint .colored ++ paint .colored l := rfl
    rw [hpaint]
    rcases paint_cases s with ⟨htext, -⟩ | ⟨color, hcolor, htext, hshade⟩
    · rw [htext]
      exact resets_append hs.noEscape (ih hl)
    · rw [htext]
      exact resets_color hcolor hs.noEscape (hs.onLine hshade) (ih hl)

end

/-! ## Instructions and labels -/

theorem tame_plain {cs : List Char} (h : '\x1b' ∉ cs) : (plain cs).IsTame :=
  ⟨h, fun hshade => absurd rfl hshade⟩

theorem tame_lineEnd : lineEnd.IsTame := tame_plain (by decide)

theorem tame_ofOperand (o : Operand) : IsTame (ofOperand o) := by
  have hdisplay := noControls_operandText o
  rw [operandText, Text.noControls_cons] at hdisplay
  simp only [ofOperand, isTame_cons, isTame_nil, and_true]
  exact ⟨tame_plain (by decide), tame_of_isInert hdisplay.2.isInert⟩

theorem tame_ofLineText (strings : Table StringEntry) (i : Instruction) :
    IsTame (ofLineText strings i) := by
  unfold ofLineText
  split
  · rename_i entry _
    have hcomment : NoControls ([';', ' '] ++ Text.quoted entry.text.toList) := by
      simp [Text.noControls_quoted]
    simp only [isTame_cons, isTame_nil, and_true]
    exact ⟨tame_plain (by decide), tame_of_isInert hcomment.isInert⟩
  · exact isTame_nil

theorem tame_ofNumbered (strings : Table StringEntry) (width index : Nat) (i : Instruction) :
    IsTame (ofNumbered strings width index i) := by
  have hindex : NoControls (indexText width index) := Text.noControls_of_isDigit isDigit_indexText
  have hname : '\x1b' ∉ i.opcode.name.toList := by cases i.opcode <;> decide
  have hoperands : IsTame (i.operands.flatMap ofOperand) :=
    isTame_flatMap fun o _ => tame_ofOperand o
  simp only [ofNumbered, ofInstruction, isTame_append, isTame_cons, isTame_nil, and_true]
  exact ⟨⟨⟨tame_plain (by simp), tame_of_isInert hindex.isInert, tame_plain (by decide)⟩,
    ⟨tame_plain hname, hoperands⟩, tame_ofLineText strings i⟩, tame_lineEnd⟩

theorem tame_ofLabels {labels : List String} (h : ∀ label ∈ labels, IsInert label.toList) :
    IsTame (ofLabels labels) := by
  refine isTame_flatMap fun label hlabel => ?_
  simp only [ofLabel, isTame_cons, isTame_nil, and_true]
  exact ⟨tame_plain (by decide), tame_of_isInert (h label hlabel), tame_plain (by decide)⟩

/-- The instructions of a node are tame if the labels are that stand before them. -/
theorem tame_ofInstructions (strings : Table StringEntry) (width index : Nat) {labels : Labels}
    (h : ∀ k, ∀ label ∈ labels.before k, IsInert label.toList) (is : List Instruction) :
    IsTame (ofInstructions strings width index labels is).1 := by
  induction is generalizing index labels with
  | nil => exact isTame_nil
  | cons i rest ih =>
    have hlater : ∀ k, ∀ label ∈ (labels.without index).before k, IsInert label.toList := by
      intro k label hlabel
      rw [Labels.before_without] at hlabel
      split at hlabel
      · cases hlabel
      · exact h k label hlabel
    simp only [ofInstructions, isTame_append]
    exact ⟨⟨tame_ofLabels (h index), tame_ofNumbered strings width index i⟩, ih (index + 1) hlater⟩

end Listing

/-! ## Programs -/

/-- The labels, the tags and the headers of a node neither begin escape sequences nor end lines. -/
structure Node.IsInert (n : Node) : Prop where
  labels : ∀ label ∈ n.labels.keys, Text.IsInert label.toList
  tags : ∀ tag ∈ n.tags, Text.IsInert tag.toList
  headers : ∀ h ∈ n.headers, Text.IsInert h.key.toList ∧ Text.IsInert h.value.toList

/-- No name in a program begins an escape sequence or ends a line. Its operands, and the lines that
it runs, may be of any kind. -/
structure Program.IsInert (p : Program) : Prop where
  initialValues : ∀ name ∈ p.initialValues.keys, Text.IsInert name.toList
  names : ∀ name ∈ p.nodes.keys, Text.IsInert name.toList
  nodes : ∀ e ∈ p.nodes.entries, e.2.IsInert

namespace Listing

variable {n : Node} {p : Program}

theorem tame_ofHeader {h : Header} (hkey : IsInert h.key.toList) (hvalue : IsInert h.value.toList) :
    IsTame (ofHeader h) := by
  have hcomment : IsInert ([';', ' '] ++ h.key.toList ++ [':', ' '] ++ h.value.toList) := by
    simp only [Text.isInert_append]
    exact ⟨⟨⟨by decide, hkey⟩, by decide⟩, hvalue⟩
  simp only [ofHeader, isTame_cons, isTame_nil, and_true]
  exact ⟨tame_plain (by decide), tame_of_isInert hcomment, tame_lineEnd⟩

theorem tame_ofTags {tags : List String} (h : ∀ tag ∈ tags, IsInert tag.toList) :
    IsTame (ofTags tags) := by
  cases tags with
  | nil => exact isTame_nil
  | cons tag rest =>
    obtain ⟨htag, hrest⟩ := List.forall_mem_cons.mp h
    have hothers : IsInert (rest.flatMap fun t => [' ', '#'] ++ t.toList) :=
      Text.isInert_flatMap fun t ht => Text.isInert_append.mpr ⟨by decide, hrest t ht⟩
    have hcomment : IsInert ([';', ' ', '#'] ++ tag.toList
        ++ rest.flatMap fun t => [' ', '#'] ++ t.toList) := by
      simp only [Text.isInert_append]
      exact ⟨⟨by decide, htag⟩, hothers⟩
    simp only [ofTags, isTame_cons, isTame_nil, and_true]
    exact ⟨tame_plain (by decide), tame_of_isInert hcomment, tame_lineEnd⟩

/-- Labels are those of the node, wherever they stand. -/
theorem mem_keys_of_target {l : String × Nat} (h : l ∈ targets n) : l.1 ∈ n.labels.keys := by
  obtain ⟨e, he, rfl⟩ := List.mem_map.mp h
  exact List.mem_map_of_mem he

theorem tame_ofNode (strings : Table StringEntry) (h : n.IsInert) : IsTame (ofNode strings n) := by
  have hbefore : ∀ k, ∀ label ∈ (Labels.ofList (targets n)).before k, IsInert label.toList := by
    intro k label hlabel
    rw [Labels.before_ofList] at hlabel
    obtain ⟨l, hl, rfl⟩ := List.mem_map.mp hlabel
    exact h.labels _ (mem_keys_of_target (List.mem_filter.mp hl).1)
  have hleft : ∀ label ∈ (leftover strings n).inOrder, IsInert label.toList := by
    intro label hlabel
    rw [← Labels.map_fst_placed] at hlabel
    obtain ⟨l, hl, rfl⟩ := List.mem_map.mp hlabel
    have hdeclared := (inTargetOrder_leftover strings n).perm.subset hl
    exact h.labels _ (mem_keys_of_target (List.mem_filter.mp hdeclared).1)
  have hheaders : IsTame (n.headers.flatMap ofHeader) :=
    isTame_flatMap fun header hmem =>
      tame_ofHeader (h.headers header hmem).1 (h.headers header hmem).2
  simp only [ofNode, isTame_append]
  exact ⟨⟨⟨hheaders, tame_ofTags h.tags⟩, tame_ofInstructions strings _ 0 hbefore n.instructions⟩,
    tame_ofLabels hleft⟩

theorem tame_ofNodes (strings : Table StringEntry) {nodes : List (String × Node)}
    (h : ∀ e ∈ nodes, IsInert e.1.toList ∧ e.2.IsInert) : IsTame (ofNodes strings nodes) := by
  have hnamed {name : String} {n : Node} (hname : IsInert name.toList) (hn : n.IsInert) :
      IsTame (ofNamedNode strings name n) := by
    simp only [ofNamedNode, isTame_append, isTame_cons, isTame_nil, and_true]
    exact ⟨⟨tame_of_isInert hname, tame_plain (by decide)⟩, tame_ofNode strings hn⟩
  fun_induction ofNodes strings nodes with
  | case1 => exact isTame_nil
  | case2 name n =>
    obtain ⟨hname, hn⟩ := h _ List.mem_cons_self
    exact hnamed hname hn
  | case3 name n rest hrest ih =>
    obtain ⟨⟨hname, hn⟩, hothers⟩ := List.forall_mem_cons.mp h
    simp only [isTame_append, isTame_cons]
    exact ⟨hnamed hname hn, tame_lineEnd, ih hothers⟩

theorem tame_ofInitialValues {values : List (String × Operand)}
    (h : ∀ e ∈ values, IsInert e.1.toList) : IsTame (ofInitialValues values) := by
  have hvalue : ∀ e ∈ values, IsTame (ofInitialValue e.1 e.2) := by
    intro e he
    simp only [ofInitialValue, isTame_append, isTame_cons, isTame_nil, and_true]
    exact ⟨⟨⟨tame_plain (h e he).1, tame_plain (by decide)⟩, tame_ofOperand e.2⟩, tame_lineEnd⟩
  cases values with
  | nil => exact isTame_nil
  | cons e rest =>
    simp only [ofInitialValues, isTame_append, isTame_cons, isTame_nil, and_true]
    exact ⟨⟨⟨tame_of_isInert (by decide), tame_lineEnd⟩, isTame_flatMap hvalue⟩, tame_lineEnd⟩

/-- The listing of a program is tame if its names are inert. -/
theorem tame_listing (strings : Table StringEntry) (h : p.IsInert) :
    IsTame (p.listing strings) := by
  have hvalues : ∀ e ∈ p.initialValues.entries, IsInert e.1.toList :=
    fun e he => h.initialValues _ (List.mem_map_of_mem he)
  have hnodes : ∀ e ∈ p.nodes.entries, IsInert e.1.toList ∧ e.2.IsInert :=
    fun e he => ⟨h.names _ (List.mem_map_of_mem he), h.nodes e he⟩
  simp only [Program.listing, isTame_append, isTame_cons, isTame_nil, and_true]
  exact ⟨⟨tame_ofInitialValues hvalues, tame_of_isInert (by decide), tame_lineEnd⟩,
    tame_ofNodes strings hnodes⟩

/-- Colours only add escape codes. If no name in a program has an escape character or a line end,
then the coloured listing without its escape sequences is the listing without colours, whatever the
operands and the lines of dialogue are; and behind every colour the text is reset before its line
ends. -/
theorem colors_only_add_codes (strings : Table StringEntry) (h : p.IsInert) :
    eraseCodes ((p.listing strings).paint .colored) = (p.listing strings).paint .plain
      ∧ Resets ((p.listing strings).paint .colored) :=
  ⟨eraseCodes_paint (tame_listing strings h), resets_paint (tame_listing strings h)⟩

/-- An operand that looks like a colour and a line end. -/
theorem colors_only_add_codes_quoted :
    let p : Program :=
      ⟨"", .ofList [("N", ⟨"", [⟨.pushString, [.string "\x1b[34m\n"]⟩], .ofList [("L", 7)], ["a"],
        none, [⟨"k", "v"⟩]⟩)], .empty⟩
    p.IsInert
      ∧ eraseCodes ((p.listing .empty).paint .colored)
        = ("[nodes]\nN:\n  ; k: v\n  ; #a\n    0 PushString \"\\u\x7b1b\x7d[34m\\n\"\n"
          ++ "  L:\n").toList := by
  intro p
  have hnode : ∀ e ∈ p.nodes.entries, e.2.IsInert := by
    intro e he
    obtain rfl := List.mem_singleton.mp he
    exact ⟨by decide, by decide, by decide⟩
  have hinert : p.IsInert := ⟨by decide, by decide, hnode⟩
  refine ⟨hinert, ?_⟩
  rw [(colors_only_add_codes .empty hinert).1]
  decide +kernel

end Listing

end DialogueBuild
