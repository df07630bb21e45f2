import DialogueBuild.Glob.Matching
import DialogueBuild.Proofs.Except
import DialogueBuild.Proofs.Path.Components
/-!
What is read off the text of a pattern.

Where the reader stands in a text decides about the position of a fault only. At a slash it starts
again, so that a text can be read if its components can.

Results:

1. `ofText_escape`          an escaped text is read as a pattern of its characters;
2. `standsFor_ofEscaped`    which stands for this text only;
3. `ofText_of_parts`        a text whose components can be read can be read;
4. `slash_notMem_ofText`    and the pattern of a component holds no slash.
-/
namespace DialogueBuild.Glob

variable {cs ds part : List Char} {p : Pattern} {n m : Nat} {state state' : State}

/-- A text that is that of a pattern. -/
def Readable (cs : List Char) : Prop := ∃ p, Pattern.ofText cs = .ok p

/-! ## Patterns of a single text -/

/-- The characters that have a meaning in patterns. -/
def metacharacters : List Char := ['?', '*', '[', ']']

/-- The pattern that stands for a text, written with characters. -/
def literal (cs : List Char) : Pattern := cs.map .char

/-- The token of a character of an escaped text. -/
def escapedToken (c : Char) : Token := if c ∈ metacharacters then .oneOf [.one c] else .char c

/-- The pattern of an escaped text. -/
def ofEscaped (cs : List Char) : Pattern := cs.map escapedToken

theorem escape_cons (c : Char) (cs : List Char) :
    escape (c :: cs) = (if c ∈ metacharacters then ['[', c, ']'] else [c]) ++ escape cs :=
  List.flatMap_cons

theorem readFrom_cons {c : Char} {tokens : List Token} {rest : Pattern}
    (hc : readChar n c state = .ok (tokens, state'))
    (hrest : readFrom (n + 1) state' cs = .ok rest) :
    readFrom n state (c :: cs) = .ok (tokens ++ rest) := by
  rw [readFrom, hc]
  simp only [bind, Except.bind, hrest]
  rfl

theorem readFrom_escape (cs : List Char) (n : Nat) (start : Bool) :
    readFrom n (.between start) (escape cs) = .ok (ofEscaped cs) := by
  induction cs generalizing n start with
  | nil => rfl
  | cons c rest ih =>
    rw [escape_cons, ofEscaped, List.map_cons, escapedToken]
    split
    · rename_i hmeta
      have hclose : readChar (n + 2) ']' (.set n false [c])
          = .ok ([.oneOf [.one c]], .between false) := rfl
      have hset : readChar (n + 1) c (.opened n) = .ok ([], .set n false [c]) := by
        rw [readChar, if_neg]
        rintro rfl
        exact absurd hmeta (by decide)
      have hopen : readChar n '[' (.between start) = .ok ([], .opened n) := rfl
      exact readFrom_cons hopen (readFrom_cons hset (readFrom_cons hclose (ih (n + 3) false)))
    · rename_i hplain
      have hc : readChar n c (.between start) = .ok ([.char c], .between (c = '/')) := by
        unfold readChar readBetween
        split <;> simp_all [metacharacters]
      exact readFrom_cons hc (ih (n + 1) _)

theorem ofText_escape (cs : List Char) : Pattern.ofText (escape cs) = .ok (ofEscaped cs) :=
  readFrom_escape cs 0 true

@[simp] theorem admits_escapedToken (c d : Char) : (escapedToken c).admits d = (d = c) := by
  unfold escapedToken
  split <;> simp [Token.admits, Range.contains]

theorem standsFor_cons {t : Token} {ts : Pattern} (h : t ≠ .anyRun) (h' : t ≠ .anyDirectories) :
    Pattern.StandsFor (t :: ts) cs
      ↔ ∃ c rest, cs = c :: rest ∧ t.admits c ∧ Pattern.StandsFor ts rest := by
  cases t <;> simp_all [Pattern.StandsFor]

theorem escapedToken_ne (c : Char) :
    escapedToken c ≠ .anyRun ∧ escapedToken c ≠ .anyDirectories := by
  unfold escapedToken
  split <;> simp

theorem standsFor_ofEscaped : (ofEscaped cs).StandsFor ds ↔ ds = cs := by
  induction cs generalizing ds with
  | nil => rfl
  | cons c rest ih =>
    have hne := escapedToken_ne c
    rw [ofEscaped, List.map_cons, standsFor_cons hne.1 hne.2]
    simp only [admits_escapedToken]
    constructor
    · rintro ⟨d, others, rfl, rfl, h⟩
      rw [ih.mp h]
    · rintro rfl
      exact ⟨c, rest, rfl, rfl, ih.mpr rfl⟩

theorem literal?_eq_some_iff : p.literal? = some cs ↔ p = literal cs := by
  induction p generalizing cs with
  | nil => cases cs <;> simp [Pattern.literal?, literal]
  | cons t ts ih =>
    cases t with
    | char c =>
      rw [Pattern.literal?, Option.map_eq_some_iff]
      cases cs <;> simp [ih, literal, and_comm]
    | _ => cases cs <;> simp [Pattern.literal?, literal]

theorem isAnyDirectories_ofEscaped (cs : List Char) : (ofEscaped cs).isAnyDirectories = false := by
  unfold Pattern.isAnyDirectories
  rw [← Bool.not_eq_true, List.contains_iff_mem]
  intro h
  obtain ⟨c, -, hc⟩ := List.mem_map.mp h
  exact (escapedToken_ne c).2 hc

/-- Without characters that have a meaning there is nothing to escape. -/
theorem ofEscaped_of_plain (h : ∀ c ∈ cs, c ∉ metacharacters) : ofEscaped cs = literal cs :=
  List.map_congr_left fun c hc => if_neg (h c hc)

theorem literal?_ofEscaped (h : ∃ c ∈ cs, c ∈ metacharacters) : (ofEscaped cs).literal? = none := by
  induction cs with
  | nil => simp at h
  | cons c rest ih =>
    have htokens : ofEscaped (c :: rest) = escapedToken c :: ofEscaped rest := rfl
    rw [htokens]
    by_cases hc : c ∈ metacharacters
    · rw [escapedToken, if_pos hc]
      rfl
    · rw [escapedToken, if_neg hc, Pattern.literal?, ih (by simpa [hc] using h)]
      rfl

theorem escape_append (cs ds : List Char) : escape (cs ++ ds) = escape cs ++ escape ds :=
  List.flatMap_append

theorem escape_intercalate (parts : List (List Char)) :
    escape (['/'].intercalate parts) = ['/'].intercalate (parts.map escape) := by
  induction parts with
  | nil => rfl
  | cons part rest ih =>
    cases rest with
    | nil => simp [List.intercalate]
    | cons next others =>
      rw [List.intercalate_cons_cons, List.map_cons, List.map_cons, List.intercalate_cons_cons,
        escape_append, escape_append, ih]
      rfl

theorem slash_notMem_escape (h : '/' ∉ cs) : '/' ∉ escape cs := by
  intro hmem
  obtain ⟨c, hc, hslash⟩ := List.mem_flatMap.mp hmem
  split at hslash
  · rename_i hmeta
    simp at hslash
    rw [← hslash] at hmeta
    exact absurd hmeta (by decide)
  · rw [List.mem_singleton.mp hslash] at h
    exact h hc

/-- The components of an escaped text are those of the text, escaped. -/
theorem splitSlashes_escape (cs : List Char) :
    Path.splitSlashes (escape cs) = (Path.splitSlashes cs).map escape := by
  have hne : Path.splitSlashes cs ≠ [] := Text.split_ne_nil '/' cs
  calc Path.splitSlashes (escape cs)
      = Path.splitSlashes (['/'].intercalate ((Path.splitSlashes cs).map escape)) := by
        rw [← escape_intercalate]
        exact congrArg (fun ds => Path.splitSlashes (escape ds))
          (Text.intercalate_split '/' cs).symm
    _ = (Path.splitSlashes cs).map escape := by
        refine Path.splitSlashes_intercalate (by simpa using hne) ?_
        intro _ hescaped
        obtain ⟨part, hpart, rfl⟩ := List.mem_map.mp hescaped
        exact slash_notMem_escape (Text.sep_notMem_split hpart)

/-! ## Where the reader stands -/

/-- States that differ in the positions that they keep for faults only. -/
inductive Alike : State → State → Prop
  | between (start : Bool) : Alike (.between start) (.between start)
  | stars (first first' count : Nat) (start : Bool) :
    Alike (.stars first count start) (.stars first' count start)
  | opened (first first' : Nat) : Alike (.opened first) (.opened first')
  | set (first first' : Nat) (negated : Bool) (content : List Char) :
    Alike (.set first negated content) (.set first' negated content)

theorem alike_readBetween (n m : Nat) (start : Bool) (c : Char) :
    (readBetween n start c).1 = (readBetween m start c).1
      ∧ Alike (readBetween n start c).2 (readBetween m start c).2 := by
  unfold readBetween
  split
  · exact ⟨rfl, .between _⟩
  · exact ⟨rfl, .stars _ _ _ _⟩
  · exact ⟨rfl, .opened _ _⟩
  · exact ⟨rfl, .between _⟩

theorem readAfterStars_alike {first first' count : Nat} {start : Bool} {next : Option Char}
    {tokens : List Token} (h : readAfterStars n first count start next = .ok (tokens, state)) :
    ∃ state', readAfterStars m first' count start next = .ok (tokens, state')
      ∧ Alike state state' := by
  unfold readAfterStars at *
  split
  · rename_i hone
    rw [if_pos hone] at h
    cases next with
    | none =>
      cases h
      exact ⟨_, rfl, .between _⟩
    | some c =>
      obtain ⟨htokens, hstate⟩ := alike_readBetween n m false c
      cases h
      exact ⟨_, congrArg (fun ts => Except.ok (Token.anyRun :: ts, _)) htokens.symm, hstate⟩
  · rename_i hone
    rw [if_neg hone] at h
    split
    · rename_i htwo
      rw [if_pos htwo] at h
      split
      · rename_i hstart
        rw [if_pos hstart] at h
        cases h
      · rename_i hstart
        rw [if_neg hstart] at h
        split at h
        · cases h
          exact ⟨_, rfl, .between _⟩
        · cases h
          exact ⟨_, rfl, .between _⟩
        · cases h
    · rename_i htwo
      rw [if_neg htwo] at h
      cases h

/-- Alike states read the same. -/
theorem readChar_alike {c : Char} {tokens : List Token} {next : State} (h : Alike state state')
    (hread : readChar n c state = .ok (tokens, next)) :
    ∃ next', readChar m c state' = .ok (tokens, next') ∧ Alike next next' := by
  cases h with
  | between start =>
    obtain ⟨htokens, hstate⟩ := alike_readBetween n m start c
    rw [readChar, Except.ok.injEq, Prod.ext_iff] at hread
    obtain ⟨rfl, rfl⟩ := hread
    exact ⟨_, congrArg (fun ts => Except.ok (ts, _)) htokens.symm, hstate⟩
  | stars first first' count start =>
    rw [readChar] at hread ⊢
    by_cases hstar : c = '*'
    · rw [if_pos hstar] at hread ⊢
      cases hread
      exact ⟨_, rfl, .stars _ _ _ _⟩
    · rw [if_neg hstar] at hread ⊢
      exact readAfterStars_alike hread
  | opened first first' =>
    cases hread
    refine ⟨_, rfl, ?_⟩
    split <;> exact .set _ _ _ _
  | set first first' negated content =>
    rw [readChar] at hread ⊢
    by_cases hclose : c = ']' ∧ content ≠ []
    · rw [if_pos hclose] at hread ⊢
      cases hread
      exact ⟨_, rfl, .between _⟩
    · rw [if_neg hclose] at hread ⊢
      cases hread
      exact ⟨_, rfl, .set _ _ _ _⟩

theorem readEnd_alike {tokens : List Token} (h : Alike state state')
    (hread : readEnd n state = .ok tokens) : readEnd m state' = .ok tokens := by
  cases h with
  | between start => exact hread
  | stars first first' count start =>
    obtain ⟨⟨_, next⟩, hstars, rfl⟩ := map_eq_ok.mp hread
    obtain ⟨next', hstars', -⟩ := readAfterStars_alike hstars
    exact map_eq_ok.mpr ⟨_, hstars', rfl⟩
  | opened first first' => cases hread
  | set first first' negated content => cases hread

theorem readFrom_eq_ok_cons {c : Char} :
    readFrom n state (c :: cs) = .ok p
      ↔ ∃ tokens next rest, readChar n c state = .ok (tokens, next)
        ∧ readFrom (n + 1) next cs = .ok rest ∧ tokens ++ rest = p := by
  rw [readFrom, bind_eq_ok]
  simp only [bind_eq_ok, Prod.exists, pure, Except.pure, Except.ok.injEq, exists_and_left]

theorem readFrom_alike (h : Alike state state') (hread : readFrom n state cs = .ok p) :
    readFrom m state' cs = .ok p := by
  induction cs generalizing n m state state' p with
  | nil => exact readEnd_alike h hread
  | cons c rest ih =>
    obtain ⟨tokens, next, others, hc, hrest, rfl⟩ := readFrom_eq_ok_cons.mp hread
    obtain ⟨next', hc', hnext⟩ := readChar_alike h hc
    exact readFrom_eq_ok_cons.mpr ⟨tokens, next', others, hc', ih hnext hrest, rfl⟩

/-! ## Texts with slashes -/

/-- Where a text may end it may go on with a slash, behind which the reader starts again. -/
theorem readChar_slash {tokens : List Token} (h : readEnd n state = .ok tokens) :
    ∃ tokens', readChar n '/' state = .ok (tokens', .between true) := by
  cases state with
  | between start => exact ⟨_, rfl⟩
  | stars first count start =>
    obtain ⟨⟨_, next⟩, hstars, -⟩ := map_eq_ok.mp h
    rw [readChar, if_neg (by decide)]
    unfold readAfterStars at hstars ⊢
    by_cases hone : count = 1
    · rw [if_pos hone]
      exact ⟨_, rfl⟩
    · rw [if_neg hone] at hstars ⊢
      by_cases htwo : count = 2
      · rw [if_pos htwo] at hstars ⊢
        cases start with
        | false => cases hstars
        | true => exact ⟨_, rfl⟩
      · rw [if_neg htwo] at hstars
        cases hstars
  | opened first => cases h
  | set first negated content => cases h

theorem readFrom_append_slash {front back : List Char} (h : readFrom n state front = .ok p)
    (hback : Readable back) : ∃ q, readFrom n state (front ++ '/' :: back) = .ok q := by
  induction front generalizing n state p with
  | nil =>
    obtain ⟨tokens, hslash⟩ := readChar_slash h
    obtain ⟨q, hq⟩ := hback
    exact ⟨_, readFrom_cons hslash (readFrom_alike (.between true) hq)⟩
  | cons c rest ih =>
    obtain ⟨tokens, next, others, hc, hrest, -⟩ := readFrom_eq_ok_cons.mp h
    obtain ⟨q, hq⟩ := ih hrest
    exact ⟨_, readFrom_cons hc hq⟩

/-- A text can be read if its components can. -/
theorem readable_of_parts (h : ∀ part ∈ Path.splitSlashes cs, Readable part) : Readable cs := by
  rw [← Text.intercalate_split '/' cs]
  have hparts : ∀ parts : List (List Char), (∀ part ∈ parts, Readable part) →
      Readable (['/'].intercalate parts) := by
    intro parts
    induction parts with
    | nil => exact fun _ => ⟨[], rfl⟩
    | cons part rest ih =>
      intro hall
      rw [List.forall_mem_cons] at hall
      cases rest with
      | nil => simpa [List.intercalate] using hall.1
      | cons next others =>
        obtain ⟨p, hp⟩ := hall.1
        rw [List.intercalate_cons_cons, List.append_assoc, List.singleton_append]
        exact readFrom_append_slash hp (ih hall.2)
  exact hparts _ h

/-! ## Characters of patterns -/

theorem eq_of_mem_readBetween {c d : Char} {start : Bool}
    (h : .char c ∈ (readBetween n start d).1) : d = c := by
  unfold readBetween at h
  split at h <;> simp_all

theorem eq_of_mem_readAfterStars {c : Char} {first count : Nat} {start : Bool} {next : Option Char}
    {tokens : List Token} (h : readAfterStars n first count start next = .ok (tokens, state))
    (hc : .char c ∈ tokens) : next = some c := by
  unfold readAfterStars at h
  by_cases hone : count = 1
  · rw [if_pos hone] at h
    cases next with
    | none =>
      cases h
      simp at hc
    | some d =>
      cases h
      rcases List.mem_cons.mp hc with hc | hc
      · cases hc
      · exact congrArg some (eq_of_mem_readBetween hc)
  · rw [if_neg hone] at h
    by_cases htwo : count = 2
    · rw [if_pos htwo] at h
      split at h
      · cases h
      · split at h <;> cases h <;> simp at hc
    · rw [if_neg htwo] at h
      cases h

theorem eq_of_mem_readChar {c d : Char} {tokens : List Token}
    (h : readChar n d state = .ok (tokens, state')) (hc : .char c ∈ tokens) : d = c := by
  cases state with
  | between start =>
    rw [readChar, Except.ok.injEq] at h
    rw [show tokens = (readBetween n start d).1 from (congrArg Prod.fst h).symm] at hc
    exact eq_of_mem_readBetween hc
  | stars first count start =>
    rw [readChar] at h
    by_cases hstar : d = '*'
    · rw [if_pos hstar] at h
      cases h
      simp at hc
    · rw [if_neg hstar] at h
      exact Option.some.inj (eq_of_mem_readAfterStars h hc)
  | opened first =>
    cases h
    simp at hc
  | set first negated content =>
    rw [readChar] at h
    by_cases hclose : d = ']' ∧ content ≠ []
    · rw [if_pos hclose] at h
      cases h
      cases negated <;> simp at hc
    · rw [if_neg hclose] at h
      cases h
      simp at hc

/-- Only characters of a text become characters of its pattern. -/
theorem mem_of_mem_readFrom {c : Char} (h : readFrom n state cs = .ok p) (hc : .char c ∈ p) :
    c ∈ cs := by
  induction cs generalizing n state p with
  | nil =>
    cases state with
    | between start =>
      cases h
      simp at hc
    | stars first count start =>
      obtain ⟨⟨_, next⟩, hstars, rfl⟩ := map_eq_ok.mp h
      cases eq_of_mem_readAfterStars hstars hc
    | opened first => cases h
    | set first negated content => cases h
  | cons d rest ih =>
    obtain ⟨tokens, next, others, hd, hrest, rfl⟩ := readFrom_eq_ok_cons.mp h
    rcases List.mem_append.mp hc with hc | hc
    · rw [eq_of_mem_readChar hd hc]
      exact List.mem_cons_self
    · exact List.mem_cons_of_mem _ (ih hrest hc)

/-- The pattern of a component holds no slash. -/
theorem slash_notMem_ofText (hcs : '/' ∉ cs) (h : Pattern.ofText cs = .ok p) : .char '/' ∉ p :=
  fun hmem => hcs (mem_of_mem_readFrom h hmem)

theorem slash_notMem_of_literal? (hp : .char '/' ∉ p) (h : p.literal? = some cs) : '/' ∉ cs := by
  rw [literal?_eq_some_iff.mp h] at hp
  exact fun hmem => hp (List.mem_map_of_mem hmem)

end DialogueBuild.Glob
