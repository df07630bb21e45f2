import DialogueBuild.Diagnostic.Place
import DialogueBuild.Text.Split
import Mathlib.Data.List.DropRight
import Mathlib.Data.Prod.Lex
/-!
Where the positions of a diagnostic are in a source, and what a span covers.

A place in a source is told by the text in front of it: its byte is the size of that text, its line
is the number of line feeds in it, and its character is the number of characters behind the last of
these.

Results:

1. `isBoundary_iff`       the bytes between two characters are the sizes of what stands in front;
2. `offsetOf_place`       the offset of the place that a text ends at is the size of the text;
3. `offsetOf_standsBehind`   other positions are moved to such a place;
4. `positions_are_places` both together, and that later positions do not have smaller offsets;
5. `offsetByCuts?_eq`     offsets are found without ever cutting a character;
6. `spans_are_safe`       so are spans, and they cover something wherever there is something.
-/
namespace DialogueBuild

/-! ## Bytes -/

@[simp] theorem textSize_nil : textSize [] = 0 := rfl

@[simp] theorem textSize_cons (c : Char) (cs : List Char) :
    textSize (c :: cs) = c.utf8Size + textSize cs := rfl

@[simp] theorem textSize_append (front back : List Char) :
    textSize (front ++ back) = textSize front + textSize back := by
  induction front with
  | nil => simp
  | cons c rest ih => simp [ih, Nat.add_assoc]

theorem textSize_pos {cs : List Char} (h : cs ≠ []) : 0 < textSize cs := by
  obtain ⟨c, rest, rfl⟩ := List.exists_cons_of_ne_nil h
  exact Nat.add_pos_left c.utf8Size_pos _

theorem utf8Size_newline : ('\n' : Char).utf8Size = 1 := by decide

theorem textSize_eq (cs : List Char) : textSize cs = (String.ofList cs).utf8ByteSize := by
  induction cs with
  | nil => rfl
  | cons c rest ih =>
    have hsplit : String.ofList (c :: rest) = String.singleton c ++ String.ofList rest := by
      rw [String.singleton_eq_ofList, ← String.ofList_append, List.singleton_append]
    rw [textSize_cons, ih, hsplit, String.utf8ByteSize_append, String.utf8ByteSize_singleton]

/-- A byte of a source is between two characters, or at one of the ends. -/
def IsBoundary (source : List Char) (byte : Nat) : Prop :=
  String.Pos.Raw.IsValid (String.ofList source) ⟨byte⟩

theorem isBoundary_iff {source : List Char} {byte : Nat} :
    IsBoundary source byte ↔ ∃ front rest, source = front ++ rest ∧ textSize front = byte := by
  unfold IsBoundary
  rw [String.Pos.Raw.isValid_ofList]
  simp only [← textSize_eq]
  constructor
  · rintro ⟨count, hcount⟩
    exact ⟨source.take count, source.drop count, (List.take_append_drop count source).symm,
      hcount.symm⟩
  · rintro ⟨front, rest, rfl, hfront⟩
    exact ⟨front.length, by rw [List.take_left, hfront]⟩

@[simp] theorem dropBytes_zero (cs : List Char) : dropBytes 0 cs = cs := by
  cases cs <;> rfl

@[simp] theorem takeBytes_zero (cs : List Char) : takeBytes 0 cs = [] := by
  cases cs <;> rfl

theorem dropBytes_textSize (front rest : List Char) :
    dropBytes (textSize front) (front ++ rest) = rest := by
  induction front with
  | nil => simp
  | cons c front ih =>
    have hpos : 0 < c.utf8Size := c.utf8Size_pos
    rw [List.cons_append, dropBytes, textSize_cons, if_neg (by omega), Nat.add_sub_cancel_left, ih]

theorem takeBytes_textSize (front rest : List Char) :
    takeBytes (textSize front) (front ++ rest) = front := by
  induction front with
  | nil => simp
  | cons c front ih =>
    have hpos : 0 < c.utf8Size := c.utf8Size_pos
    rw [List.cons_append, takeBytes, textSize_cons, if_neg (by omega), Nat.add_sub_cancel_left, ih]

/-! ## Places -/

/-- What stands behind the last line feed of a text. -/
def lastLine (front : List Char) : List Char := front.rtakeWhile (· ≠ '\n')

theorem lastLine_of_notMem {front : List Char} (h : '\n' ∉ front) : lastLine front = front := by
  refine List.rtakeWhile_eq_self_iff.mpr fun c hc => decide_eq_true ?_
  rintro rfl
  exact h hc

theorem lastLine_cons_of_mem (c : Char) {front : List Char} (h : '\n' ∈ front) :
    lastLine (c :: front) = lastLine front := by
  have hstop : ¬ (front.reverse.takeWhile (· ≠ '\n')).length = front.reverse.length := by
    intro hlength
    have hall := (List.takeWhile_prefix (· ≠ '\n')).eq_of_length hlength
    have hnewline := List.takeWhile_eq_self_iff.mp hall '\n' (List.mem_reverse.mpr h)
    exact absurd rfl (of_decide_eq_true hnewline)
  unfold lastLine List.rtakeWhile
  rw [List.reverse_cons, List.takeWhile_append, if_neg hstop]

theorem lastLine_newline (front : List Char) : lastLine ('\n' :: front) = lastLine front := by
  by_cases h : '\n' ∈ front
  · exact lastLine_cons_of_mem '\n' h
  · have hfront : front.reverse.takeWhile (· ≠ '\n') = front.reverse := by
      rw [← List.reverse_eq_iff]
      exact lastLine_of_notMem h
    unfold lastLine List.rtakeWhile
    rw [List.reverse_cons, List.takeWhile_append, hfront, if_pos rfl]
    simp

/-- The line that a text ends on, counted from zero. -/
def lineOf (front : List Char) : Nat := front.count '\n'

/-- The character of its last line that a text ends at, counted from zero. -/
def characterOf (front : List Char) : Nat := (lastLine front).length

@[simp] theorem lineOf_newline (front : List Char) : lineOf ('\n' :: front) = lineOf front + 1 :=
  List.count_cons_self

@[simp] theorem characterOf_newline (front : List Char) :
    characterOf ('\n' :: front) = characterOf front := by
  rw [characterOf, lastLine_newline, characterOf]

theorem lineOf_cons {c : Char} (hc : c ≠ '\n') (front : List Char) :
    lineOf (c :: front) = lineOf front :=
  List.count_cons_of_ne hc

theorem characterOf_cons {c : Char} (hc : c ≠ '\n') (front : List Char) :
    characterOf (c :: front)
      = if lineOf front = 0 then characterOf front + 1 else characterOf front := by
  unfold characterOf lineOf
  by_cases h : '\n' ∈ front
  · have hcount : front.count '\n' ≠ 0 := (List.count_pos_iff.mpr h).ne'
    rw [lastLine_cons_of_mem c h, if_neg hcount]
  · have hcount : front.count '\n' = 0 := List.count_eq_zero_of_not_mem h
    have hnone : '\n' ∉ c :: front := by simp [h, Ne.symm hc]
    rw [if_pos hcount, lastLine_of_notMem hnone, lastLine_of_notMem h, List.length_cons]

/-- The offset of the place that a text ends at is the size of the text. -/
theorem offsetOf_place (front rest : List Char) :
    offsetOf (front ++ rest) (lineOf front) (characterOf front) = textSize front := by
  induction front with
  | nil => cases rest <;> rfl
  | cons c front ih =>
    by_cases hc : c = '\n'
    · subst hc
      rw [lineOf_newline, characterOf_newline, List.cons_append, offsetOf, if_pos rfl, ih,
        textSize_cons]
    · rw [lineOf_cons hc, characterOf_cons hc, List.cons_append, textSize_cons, ← ih]
      split
      · rename_i hline
        rw [hline, offsetOf, if_neg hc]
      · rename_i hline
        obtain ⟨line, hline⟩ := Nat.exists_eq_succ_of_ne_zero hline
        rw [hline, offsetOf, if_neg hc]

/-- A place of a source is behind `front`, as far as the source reaches. -/
inductive StandsBehind (front rest : List Char) (line character : Nat) : Prop
  | place (hline : lineOf front = line) (hcharacter : characterOf front = character)
  /-- The line has fewer characters, and ends here. -/
  | lineEnd (hline : lineOf front = line) (hcharacter : characterOf front < character)
      (hrest : ∀ c ∈ rest.head?, c = '\n')
  /-- The source has fewer lines, and ends here. -/
  | textEnd (hline : lineOf front < line) (hrest : rest = [])

theorem StandsBehind.newline {front rest : List Char} {l k : Nat}
    (h : StandsBehind front rest l k) : StandsBehind ('\n' :: front) rest (l + 1) k := by
  cases h with
  | place hline hcharacter => exact .place (by simpa) (by simpa)
  | lineEnd hline hcharacter hrest => exact .lineEnd (by simpa) (by simpa) hrest
  | textEnd hline hrest => exact .textEnd (by simpa) hrest

theorem StandsBehind.cons {front rest : List Char} {c : Char} {l k : Nat} (hc : c ≠ '\n')
    (h : StandsBehind front rest l k) :
    StandsBehind (c :: front) rest l (if l = 0 then k + 1 else k) := by
  cases h with
  | place hline hcharacter =>
    subst hline hcharacter
    exact .place (lineOf_cons hc front) (characterOf_cons hc front)
  | lineEnd hline hcharacter hrest =>
    subst hline
    refine .lineEnd (lineOf_cons hc front) ?_ hrest
    rw [characterOf_cons hc]
    split <;> omega
  | textEnd hline hrest => exact .textEnd (by rwa [lineOf_cons hc]) hrest

/-- Every offset is the size of a text in front, behind which its place is. -/
theorem offsetOf_standsBehind (source : List Char) (l k : Nat) :
    ∃ front rest, source = front ++ rest ∧ textSize front = offsetOf source l k
      ∧ StandsBehind front rest l k := by
  fun_induction offsetOf source l k with
  | case1 l k =>
    refine ⟨[], [], rfl, rfl, ?_⟩
    rcases Nat.eq_zero_or_pos l with rfl | hl
    · rcases Nat.eq_zero_or_pos k with rfl | hk
      · exact .place rfl rfl
      · exact .lineEnd rfl hk (by simp)
    · exact .textEnd hl rfl
  | case2 c rest => exact ⟨[], c :: rest, rfl, rfl, .place rfl rfl⟩
  | case3 rest k =>
    exact ⟨[], '\n' :: rest, rfl, rfl, .lineEnd rfl (Nat.succ_pos k) (by simp)⟩
  | case4 c rest k hc ih =>
    obtain ⟨front, back, rfl, hsize, hplace⟩ := ih
    exact ⟨c :: front, back, rfl, by rw [textSize_cons, hsize], hplace.cons hc⟩
  | case5 c rest l k ih =>
    obtain ⟨front, back, rfl, hsize, hplace⟩ := ih
    refine ⟨c :: front, back, rfl, by rw [textSize_cons, hsize], ?_⟩
    by_cases hc : c = '\n'
    · rw [if_pos hc] at hplace
      rw [hc]
      exact hplace.newline
    · rw [if_neg hc] at hplace
      exact hplace.cons hc

/-- Later places do not have smaller offsets. -/
theorem offsetOf_mono (source : List Char) {l k l' k' : Nat} (h : l < l' ∨ l = l' ∧ k ≤ k') :
    offsetOf source l k ≤ offsetOf source l' k' := by
  fun_induction offsetOf source l k generalizing l' k' with
  | case1 => exact Nat.zero_le _
  | case2 => exact Nat.zero_le _
  | case3 => exact Nat.zero_le _
  | case4 c rest k hc ih =>
    cases l' with
    | zero =>
      obtain ⟨k', rfl⟩ : ∃ m, k' = m + 1 := ⟨k' - 1, by omega⟩
      rw [offsetOf, if_neg hc]
      exact Nat.add_le_add_left (ih (by omega)) _
    | succ l' =>
      rw [offsetOf, if_neg hc]
      exact Nat.add_le_add_left (ih (by omega)) _
  | case5 c rest l k ih =>
    obtain ⟨l', rfl⟩ : ∃ m, l' = m + 1 := ⟨l' - 1, by omega⟩
    rw [offsetOf]
    refine Nat.add_le_add_left (ih ?_) _
    split <;> omega

/-! ## Positions -/

namespace Position

/-- The line and the character that a position means. Negative numbers mean zero. -/
def place (p : Position) : Nat × Nat := (p.line.toInt.toNat, p.character.toInt.toNat)

/-- Positions are places in a source. Every byte between two characters is the offset of the line
and the character that the text in front of it ends at. Whatever the position is, its offset is the
size of a text in front, and the position is behind this text: it is where the text ends, or behind
the end of a line that ends there, or behind the end of the source. And positions that come later do
not have smaller offsets. -/
theorem positions_are_places (source : List Char) :
    (∀ byte, IsBoundary source byte → ∀ p : Position,
        p.line.toInt = lineOf (takeBytes byte source) →
        p.character.toInt = characterOf (takeBytes byte source) → p.offset source = byte)
      ∧ (∀ p : Position, ∃ front rest, source = front ++ rest ∧ textSize front = p.offset source
        ∧ StandsBehind front rest p.place.1 p.place.2)
      ∧ ∀ p q : Position, toLex p.place ≤ toLex q.place → p.offset source ≤ q.offset source := by
  refine ⟨?_, fun p => offsetOf_standsBehind source _ _, ?_⟩
  · intro byte hbyte p hline hcharacter
    obtain ⟨front, rest, rfl, rfl⟩ := isBoundary_iff.mp hbyte
    rw [takeBytes_textSize] at hline hcharacter
    rw [offset, hline, hcharacter, Int.toNat_natCast, Int.toNat_natCast, offsetOf_place]
  · intro p q h
    rw [Prod.Lex.toLex_le_toLex] at h
    exact offsetOf_mono source h

/-- The byte behind the second line feed, and a place behind the end of a line before one of the
next line. -/
theorem positions_are_places_accented :
    (⟨2, 0⟩ : Position).offset ['é', '\n', '\n', 'a'] = 4
      ∧ (⟨0, 9⟩ : Position).offset ['é', '\n', '\n', 'a']
        ≤ (⟨1, -3⟩ : Position).offset ['é', '\n', '\n', 'a'] := by
  obtain ⟨hplaces, -, hmono⟩ := positions_are_places ['é', '\n', '\n', 'a']
  have hboundary : IsBoundary ['é', '\n', '\n', 'a'] 4 :=
    isBoundary_iff.mpr ⟨['é', '\n', '\n'], ['a'], rfl, by decide⟩
  exact ⟨hplaces 4 hboundary ⟨2, 0⟩ (by decide) (by decide), hmono ⟨0, 9⟩ ⟨1, -3⟩ (by decide)⟩

end Position

/-! ## Cutting at bytes -/

/-- Cuts a text behind so many bytes. A character cannot be cut, nor what is behind the text. -/
def cutAt? : Nat → List Char → Option (List Char × List Char)
  | 0, cs => some ([], cs)
  | _ + 1, [] => none
  | n + 1, c :: rest =>
    if c.utf8Size ≤ n + 1 then
      (cutAt? (n + 1 - c.utf8Size) rest).map fun (front, back) => (c :: front, back)
    else none

theorem cutAt?_textSize (front rest : List Char) :
    cutAt? (textSize front) (front ++ rest) = some (front, rest) := by
  induction front with
  | nil => cases rest <;> rfl
  | cons c front ih =>
    have hpos : 0 < c.utf8Size := c.utf8Size_pos
    obtain ⟨n, hn⟩ : ∃ n, textSize (c :: front) = n + 1 :=
      ⟨textSize (c :: front) - 1, by rw [textSize_cons]; omega⟩
    have hrest : n + 1 - c.utf8Size = textSize front := by
      rw [← hn, textSize_cons, Nat.add_sub_cancel_left]
    have hle : c.utf8Size ≤ n + 1 := by
      rw [← hn, textSize_cons]
      exact Nat.le_add_right _ _
    rw [hn, List.cons_append, cutAt?, if_pos hle, hrest, ih, Option.map_some]

/-- A text can be cut between its characters, and nowhere else. -/
theorem cutAt?_isSome_iff {n : Nat} {cs : List Char} : (cutAt? n cs).isSome ↔ IsBoundary cs n := by
  rw [isBoundary_iff]
  constructor
  · intro h
    fun_induction cutAt? n cs with
    | case1 cs => exact ⟨[], cs, rfl, rfl⟩
    | case2 n => cases h
    | case3 n c rest hle ih =>
      rw [Option.isSome_map] at h
      obtain ⟨front, back, rfl, hsize⟩ := ih h
      exact ⟨c :: front, back, rfl, by rw [textSize_cons, hsize, Nat.add_sub_cancel' hle]⟩
    | case4 n c rest hle => cases h
  · rintro ⟨front, rest, rfl, rfl⟩
    rw [cutAt?_textSize]
    rfl

/-- The offset of a place behind `start`, found by cutting the source: a line is looked for behind
every line feed, and characters are counted on the last one. -/
def offsetByCuts? (source : List Char) (start : Nat) : (line character : Nat) → Option Nat
  | 0, k => do
    let (_, behind) ← cutAt? start source
    let line := behind.takeWhile (· ≠ '\n')
    return start + textSize (line.take k)
  | l + 1, k => do
    let (_, behind) ← cutAt? start source
    let line := behind.takeWhile (· ≠ '\n')
    if '\n' ∈ behind then offsetByCuts? source (start + textSize line + 1) l k
    else return textSize source

theorem offsetOf_zero (cs : List Char) (k : Nat) :
    offsetOf cs 0 k = textSize ((cs.takeWhile (· ≠ '\n')).take k) := by
  induction cs generalizing k with
  | nil => simp [offsetOf]
  | cons c cs ih =>
    cases k with
    | zero => rfl
    | succ k =>
      rw [offsetOf, ih]
      by_cases hc : c = '\n' <;> simp [hc]

theorem offsetOf_newline {line : List Char} (h : '\n' ∉ line) (rest : List Char) (l k : Nat) :
    offsetOf (line ++ '\n' :: rest) (l + 1) k = textSize line + 1 + offsetOf rest l k := by
  induction line with
  | nil => simp [offsetOf, utf8Size_newline]
  | cons c line ih =>
    rw [List.mem_cons, not_or] at h
    rw [List.cons_append, offsetOf, if_neg (Ne.symm h.1), ih h.2, textSize_cons]
    omega

theorem offsetOf_of_notMem {cs : List Char} (h : '\n' ∉ cs) (l k : Nat) :
    offsetOf cs (l + 1) k = textSize cs := by
  induction cs with
  | nil => rfl
  | cons c cs ih =>
    rw [List.mem_cons, not_or] at h
    rw [offsetOf, if_neg (Ne.symm h.1), ih h.2, textSize_cons]

theorem takeWhile_newline {line : List Char} (h : '\n' ∉ line) (rest : List Char) :
    (line ++ '\n' :: rest).takeWhile (· ≠ '\n') = line := by
  rw [List.takeWhile_append_of_pos]
  · simp
  · intro c hc
    refine decide_eq_true ?_
    rintro rfl
    exact h hc

/-- Offsets are found by cutting the source, and no cut goes through a character. -/
theorem offsetByCuts?_eq (front rest : List Char) (l k : Nat) :
    offsetByCuts? (front ++ rest) (textSize front) l k
      = some (textSize front + offsetOf rest l k) := by
  induction l generalizing front rest with
  | zero =>
    rw [offsetByCuts?, cutAt?_textSize, offsetOf_zero]
    rfl
  | succ l ih =>
    simp only [offsetByCuts?, cutAt?_textSize, Option.bind_eq_bind, Option.bind_some]
    by_cases h : '\n' ∈ rest
    · obtain ⟨line, more, rfl, hline⟩ := List.eq_append_cons_of_mem h
      have hsize : textSize front + textSize line + 1 = textSize (front ++ line ++ ['\n']) := by
        simp [utf8Size_newline, Nat.add_assoc]
      have hsource : front ++ (line ++ '\n' :: more) = front ++ line ++ ['\n'] ++ more := by simp
      rw [if_pos h, takeWhile_newline hline, hsize, hsource, ih, offsetOf_newline hline, ← hsize,
        Nat.add_assoc, Nat.add_assoc, Nat.add_assoc]
    · rw [if_neg h, offsetOf_of_notMem h, textSize_append]
      rfl

theorem Position.offsetByCuts?_eq (source : List Char) (p : Position) :
    offsetByCuts? source 0 p.place.1 p.place.2 = some (p.offset source) := by
  have h := DialogueBuild.offsetByCuts?_eq [] source p.place.1 p.place.2
  rwa [textSize_nil, Nat.zero_add] at h

/-! ## Spans -/

/-- The span of an extent, found by cutting the source. -/
def Extent.spanByCuts? (source : List Char) (e : Extent) : Option Span := do
  let start ← offsetByCuts? source 0 e.start.place.1 e.start.place.2
  let stop ← offsetByCuts? source 0 e.stop.place.1 e.stop.place.2
  let stop := max stop start
  if start = stop then
    let (_, behind) ← cutAt? start source
    match behind with
    | c :: _ => return ⟨start, start + c.utf8Size⟩
    | [] => return ⟨start, start⟩
  else return ⟨start, stop⟩

/-- The text that a span covers, cut out of the source. -/
def Span.cutOut? (source : List Char) (s : Span) : Option (List Char) := do
  let (_, behind) ← cutAt? s.start source
  if s.stop < s.start then none
  else
    let (covered, _) ← cutAt? (s.stop - s.start) behind
    return covered

/-- Of two texts in front the smaller one stands in front of the larger one. -/
theorem exists_between {front rest front' rest' : List Char}
    (hsource : front ++ rest = front' ++ rest') (hsize : textSize front < textSize front') :
    ∃ covered, front' = front ++ covered := by
  rcases List.append_eq_append_iff.mp hsource with ⟨covered, hfront, -⟩ | ⟨covered, hfront, -⟩
  · exact ⟨covered, hfront⟩
  · rw [hfront, textSize_append] at hsize
    omega

theorem Extent.span_of_lt {source : List Char} {e : Extent}
    (h : e.start.offset source < e.stop.offset source) :
    e.span source = ⟨e.start.offset source, e.stop.offset source⟩ := by
  unfold span
  simp only [Nat.max_eq_left h.le, h.ne, if_false]

theorem Extent.span_of_le {source : List Char} {e : Extent}
    (h : e.stop.offset source ≤ e.start.offset source) :
    e.span source = ⟨e.start.offset source,
      e.start.offset source + textSize ((dropBytes (e.start.offset source) source).take 1)⟩ := by
  unfold span
  simp only [Nat.max_eq_right h, if_true]
  cases dropBytes (e.start.offset source) source <;> rfl

/-- What a span covers: up to the offset of its end if there is something in between, else one
character. -/
theorem Extent.span_covers (source : List Char) (e : Extent) :
    ∃ front covered rest, source = front ++ (covered ++ rest)
      ∧ e.span source = ⟨textSize front, textSize front + textSize covered⟩
      ∧ (covered = [] → rest = [])
      ∧ (e.stop.offset source ≤ e.start.offset source → covered = (covered ++ rest).take 1) := by
  obtain ⟨front, behind, hsource, hstart, -⟩ :=
    offsetOf_standsBehind source e.start.place.1 e.start.place.2
  change textSize front = e.start.offset source at hstart
  rcases Nat.lt_or_ge (e.start.offset source) (e.stop.offset source) with hlt | hge
  · obtain ⟨front', rest, hsource', hstop, -⟩ :=
      offsetOf_standsBehind source e.stop.place.1 e.stop.place.2
    change textSize front' = e.stop.offset source at hstop
    obtain ⟨covered, rfl⟩ := exists_between (hsource.symm.trans hsource') (by omega)
    rw [textSize_append] at hstop
    refine ⟨front, covered, rest, by rw [hsource', List.append_assoc], ?_, ?_,
      fun h => absurd hlt (Nat.not_lt.mpr h)⟩
    · rw [span_of_lt hlt, hstart, ← hstop, hstart]
    · rintro rfl
      rw [textSize_nil] at hstop
      omega
  · have hbehind : dropBytes (e.start.offset source) source = behind := by
      rw [← hstart, hsource, dropBytes_textSize]
    refine ⟨front, behind.take 1, behind.drop 1, by rw [List.take_append_drop, hsource], ?_, ?_,
      fun _ => by rw [List.take_append_drop]⟩
    · rw [span_of_le hge, hbehind, hstart]
    · cases behind <;> simp

theorem Extent.spanByCuts?_eq (source : List Char) (e : Extent) :
    e.spanByCuts? source = some (e.span source) := by
  obtain ⟨front, behind, hsource, hstart, -⟩ :=
    offsetOf_standsBehind source e.start.place.1 e.start.place.2
  change textSize front = e.start.offset source at hstart
  have hcut : cutAt? (e.start.offset source) source = some (front, behind) := by
    rw [← hstart, hsource, cutAt?_textSize]
  have hbehind : dropBytes (e.start.offset source) source = behind := by
    rw [← hstart, hsource, dropBytes_textSize]
  simp only [spanByCuts?, Position.offsetByCuts?_eq, Option.bind_eq_bind, Option.bind_some, hcut,
    span, hbehind]
  split
  · cases behind <;> rfl
  · rfl

/-- Spans are safe. Whatever the positions of an extent are, its span lies in the source, between
characters, and starts at the offset of the first position; it is empty only at the end of the
source. If the second position comes no later than the first one, the span covers the one character
there. Neither finding the span nor taking its text out of the source cuts a character. -/
theorem spans_are_safe (source : List Char) (e : Extent) :
    let s := e.span source
    s.start ≤ s.stop ∧ s.stop ≤ textSize source
      ∧ IsBoundary source s.start ∧ IsBoundary source s.stop
      ∧ s.start = e.start.offset source
      ∧ (s.start < s.stop ∨ s.start = textSize source)
      ∧ (e.stop.offset source ≤ e.start.offset source →
          s.text source = (dropBytes s.start source).take 1)
      ∧ (e.start.offset source < e.stop.offset source → s.stop = e.stop.offset source)
      ∧ e.spanByCuts? source = some s
      ∧ s.cutOut? source = some (s.text source) := by
  obtain ⟨front, covered, rest, hsource, hspan, hempty, hone⟩ := e.span_covers source
  have hbehind : dropBytes (textSize front) source = covered ++ rest := by
    rw [hsource, dropBytes_textSize]
  have htext : (e.span source).text source = covered := by
    rw [hspan, Span.text, Nat.add_sub_cancel_left, hbehind, takeBytes_textSize]
  have hsize : textSize source = textSize front + (textSize covered + textSize rest) := by
    rw [hsource, textSize_append, textSize_append]
  have hstart : (e.span source).start = e.start.offset source := by
    rcases Nat.lt_or_ge (e.start.offset source) (e.stop.offset source) with h | h
    · rw [Extent.span_of_lt h]
    · rw [Extent.span_of_le h]
  intro s
  refine ⟨?_, ?_, ?_, ?_, hstart, ?_, ?_, ?_, e.spanByCuts?_eq source, ?_⟩
  · simp only [s, hspan, Nat.le_add_right]
  · simp only [s, hspan, hsize]
    omega
  · exact isBoundary_iff.mpr ⟨front, covered ++ rest, hsource, by simp only [s, hspan]⟩
  · exact isBoundary_iff.mpr ⟨front ++ covered, rest, by rw [hsource, List.append_assoc],
      by simp only [s, hspan, textSize_append]⟩
  · by_cases hnil : covered = []
    · right
      simp only [s, hspan, hsize, hnil, hempty hnil, textSize_nil, Nat.add_zero]
    · left
      simp only [s, hspan, Nat.lt_add_right_iff_pos, textSize_pos hnil]
  · intro h
    rw [show s.text source = covered from htext, hone h]
    simp only [s, hspan, hbehind]
  · intro h
    simp only [s, Extent.span_of_lt h]
  · have hcut : cutAt? (textSize front) source = some (front, covered ++ rest) := by
      rw [hsource, cutAt?_textSize]
    rw [htext]
    simp only [s, hspan, Span.cutOut?, hcut, Option.bind_eq_bind, Option.bind_some,
      Nat.not_lt.mpr (Nat.le_add_right _ _), if_false, Nat.add_sub_cancel_left, cutAt?_textSize]
    rfl

/-- An extent that ends in front of its start, which is at a character of three bytes. -/
theorem spans_are_safe_reversed :
    let e : Extent := ⟨⟨0, 1⟩, ⟨-7, -1⟩⟩
    e.stop.offset ['a', '€', '\n'] ≤ e.start.offset ['a', '€', '\n']
      ∧ e.span ['a', '€', '\n'] = ⟨1, 4⟩
      ∧ (e.span ['a', '€', '\n']).text ['a', '€', '\n'] = ['€'] := by
  intro e
  obtain ⟨-, -, -, -, -, -, hone, -⟩ := spans_are_safe ['a', '€', '\n'] e
  have hle : e.stop.offset ['a', '€', '\n'] ≤ e.start.offset ['a', '€', '\n'] := by decide
  have hspan : e.span ['a', '€', '\n'] = ⟨1, 4⟩ := by decide
  exact ⟨hle, hspan, (hone hle).trans (by rw [hspan]; rfl)⟩

end DialogueBuild
