import DialogueBuild.Json.Decoder
import DialogueBuild.Proofs.Json.Spelling
/-!
Every JSON text is read as the tree that it spells.

The proof goes along the grammar. What a value is spelled with gives its tokens in front of every
text that goes on with no number, and these tokens take the reader from where a value must come to
where that value is complete, whatever frames are around it.

Results:

1. `readString_spelled`    a string is read in the pieces that it is written in;
2. `textOfPieces_eq`       and the pieces give back its text;
3. `reads_spelled`         a value is read as the tree that it spells;
4. `ofText_spelled`        so is a whole document;
5. `skip_spelled`          every value can be passed over.
-/
namespace DialogueBuild.Json

/-! ## Strings -/

theorem hexDigit_spelled {n : Nat} {c : Char} (h : SpellsHexDigit n c) : hexDigit? c = some n := by
  have hdecimal : ∀ n < 10, hexDigit? (Char.ofNat (48 + n)) = some n := by decide
  have hsmall : ∀ n < 6, hexDigit? (Char.ofNat (97 + n)) = some (10 + n) := by decide
  have hcapital : ∀ n < 6, hexDigit? (Char.ofNat (65 + n)) = some (10 + n) := by decide
  cases h with
  | decimal h => exact hdecimal _ h
  | small h => exact hsmall _ h
  | capital h => exact hcapital _ h

theorem readString_unit {n : Nat} {cs : List Char} (h : SpellsUnit n cs) (rest : List Char) :
    readString ('\\' :: 'u' :: cs ++ rest) = (readString rest).cons (.unit n) := by
  cases h with
  | @digits i j k l a b c d ha hb hc hd =>
    have hunit : hexUnit? a b c d = some (4096 * i + 256 * j + 16 * k + l) := by
      simp only [hexUnit?, hexDigit_spelled ha, hexDigit_spelled hb, hexDigit_spelled hc,
        hexDigit_spelled hd, Option.bind_eq_bind, Option.bind_some, Option.pure_def,
        Option.some.injEq]
      omega
    simp only [List.cons_append, List.nil_append]
    rw [readString.eq_def]
    simp [hunit]

theorem readString_piece {p : Piece} {cs : List Char} (h : SpellsPiece p cs) (rest : List Char) :
    readString (cs ++ rest) = (readString rest).cons p := by
  cases h with
  | @plain c hquote hslash hcontrol =>
    have hc : ¬ c.toNat < 0x20 := by omega
    rw [List.singleton_append, readString.eq_def]
    simp only [hquote, hslash, hc, ↓reduceIte]
  | @letter letter c hmem =>
    have hall : ∀ e ∈ letterEscapes, e.1 ≠ 'u' ∧ letterEscape? e.1 = some e.2 := by decide
    obtain ⟨hu, hletter⟩ := hall _ hmem
    simp only [List.cons_append, List.nil_append]
    rw [readString.eq_def]
    simp [hu, hletter]
  | unit hunit => exact readString_unit hunit rest

/-- A string is read in the pieces that it is written in. -/
theorem readString_spelled {ps : List Piece} {cs : List Char} (h : SpellsPieces ps cs)
    (rest : List Char) : readString (cs ++ '"' :: rest) = ⟨ps, .ok rest⟩ := by
  induction h with
  | nil =>
    rw [List.nil_append, readString.eq_def]
    rfl
  | cons hp _ ih =>
    rw [List.append_assoc, readString_piece hp, ih]
    rfl

theorem isSurrogate_eq_false {c : Char} (h : c.toNat < 0x10000) :
    isLowSurrogate c.toNat = false ∧ isHighSurrogate c.toNat = false := by
  have hvalid : c.toNat < 0xD800 ∨ 0xDFFF < c.toNat := by
    rcases c.valid with h | h
    · exact .inl h
    · exact .inr h.1
  unfold isLowSurrogate isHighSurrogate
  simp only [Bool.and_eq_false_iff, decide_eq_false_iff_not]
  omega

theorem textOfPieces_unit {n : Nat} (hlow : isLowSurrogate n = false)
    (hhigh : isHighSurrogate n = false) (ps : List Piece) :
    textOfPieces (.unit n :: ps) = (textOfPieces ps).map (Char.ofNat n :: ·) := by
  rw [textOfPieces.eq_def]
  simp only [hlow, hhigh, Bool.false_eq_true, ↓reduceIte]

/-- The code units of a character give back the character. -/
theorem textOfPieces_units (c : Char) (ps : List Piece) :
    textOfPieces ((codeUnits c).map Piece.unit ++ ps) = (textOfPieces ps).map (c :: ·) := by
  unfold codeUnits
  split
  · rename_i hlt
    obtain ⟨hlow, hhigh⟩ := isSurrogate_eq_false hlt
    rw [List.map_singleton, List.singleton_append, textOfPieces_unit hlow hhigh,
      Char.ofNat_toNat]
  · rename_i hge
    have hmax : c.toNat < 0x110000 := by
      rcases c.valid with h | h
      · exact Nat.lt_trans h (by decide)
      · exact h.2
    -- the two halves are a high and a low surrogate, and they join to the character
    generalize hn : c.toNat = n at hge hmax
    have hhigh : isHighSurrogate (0xD800 + (n - 0x10000) / 0x400) = true := by
      simp only [isHighSurrogate, Bool.and_eq_true, decide_eq_true_eq]
      omega
    have hnotlow : isLowSurrogate (0xD800 + (n - 0x10000) / 0x400) = false := by
      simp only [isLowSurrogate, Bool.and_eq_false_iff, decide_eq_false_iff_not]
      omega
    have hlow : isLowSurrogate (0xDC00 + (n - 0x10000) % 0x400) = true := by
      simp only [isLowSurrogate, Bool.and_eq_true, decide_eq_true_eq]
      omega
    have hjoin : joinSurrogates (0xD800 + (n - 0x10000) / 0x400)
        (0xDC00 + (n - 0x10000) % 0x400) = c := by
      have hback : 0x10000 + (0xD800 + (n - 0x10000) / 0x400 - 0xD800) * 0x400
          + (0xDC00 + (n - 0x10000) % 0x400 - 0xDC00) = n := by omega
      rw [joinSurrogates, hback, ← hn, Char.ofNat_toNat]
    simp only [List.map_cons, List.map_nil, List.cons_append, List.nil_append, textOfPieces,
      hnotlow, hhigh, hlow, hjoin, Bool.false_eq_true, ↓reduceIte]

/-- The pieces of a text give back the text. -/
theorem textOfPieces_eq {cs : List Char} {ps : List Piece} (h : PiecesOf cs ps) :
    textOfPieces ps = some cs := by
  induction h with
  | nil => rfl
  | char _ ih => simp [textOfPieces, ih]
  | units _ ih => rw [textOfPieces_units, ih, Option.map_some]

/-! ## Tokens -/

/-- The tokens of a text depend on what stands behind its first blanks. -/
theorem tokens_eq (cs : List Char) :
    tokens cs = match cs.dropWhile isSpace with
      | [] => []
      | c :: rest => match readToken c rest with
        | (.broken b, _) => [.broken b]
        | (t, after) => t :: tokens after := by
  rw [tokens.eq_def]
  split
  · rename_i heq
    rw [heq]
  · rename_i heq
    rw [heq]
    split
    · rename_i hbroken
      simp only [hbroken]
    · rename_i hother hread
      simp only [hread]

theorem tokens_blank {blank : List Char} (h : IsBlank blank) (rest : List Char) :
    tokens (blank ++ rest) = tokens rest := by
  have hspace : ∀ c ∈ blank, isSpace c := by
    intro c hc
    rcases h c hc with rfl | rfl | rfl | rfl <;> decide
  rw [tokens_eq (blank ++ rest), tokens_eq rest, List.dropWhile_append_of_pos hspace]

/-- The token is the last one of a text that breaks off. -/
def Token.IsBroken : Token → Prop
  | .broken _ => True
  | _ => False

theorem tokens_cons {c : Char} {rest after : List Char} {t : Token} (hc : isSpace c = false)
    (h : readToken c rest = (t, after)) (ht : ¬ t.IsBroken) :
    tokens (c :: rest) = t :: tokens after := by
  have hdrop : (c :: rest).dropWhile isSpace = c :: rest := by simp [hc]
  rw [tokens_eq, hdrop]
  simp only [h]
  cases t with
  | broken b => exact absurd trivial ht
  | _ => rfl

/-- A token of one character. -/
theorem tokens_symbol {c : Char} {rest : List Char} {t : Token} (hc : isSpace c = false)
    (h : readToken c rest = (t, rest)) (ht : ¬ t.IsBroken) :
    tokens (c :: rest) = t :: tokens rest :=
  tokens_cons hc h ht

/-- A text has these tokens in front of every text that goes on with no number. -/
def HasTokens (cs : List Char) (ts : List Token) : Prop :=
  ∀ rest, EndsNumeral rest → tokens (cs ++ rest) = ts ++ tokens rest

theorem readLiteral_word (s : Scalar) (word rest : List Char) :
    readLiteral s word (word ++ rest) = (.scalar s, rest) := by
  induction word with
  | nil => cases rest <;> rfl
  | cons w word ih => simp [readLiteral, ih]

theorem tokens_string {ps : List Piece} {cs : List Char} (h : SpellsPieces ps cs)
    (rest : List Char) :
    tokens ('"' :: cs ++ ['"'] ++ rest)
      = .scalar (.string ((textOfPieces ps).map String.ofList)) :: tokens rest := by
  have htext : '"' :: cs ++ ['"'] ++ rest = '"' :: (cs ++ '"' :: rest) := by simp
  have hread : readToken '"' (cs ++ '"' :: rest)
      = (.scalar (.string ((textOfPieces ps).map String.ofList)), rest) := by
    have hstring := readString_spelled h rest
    simp [readToken, hstring, StringRead.token]
  rw [htext]
  exact tokens_cons (by decide) hread id

theorem readToken_number {c : Char} (h : c = '-' ∨ c.isDigit) (rest : List Char) :
    isSpace c = false ∧ readToken c rest = (readNumeral (c :: rest)).token := by
  have hother : isSpace c = false ∧
      c ∉ ['[', ']', '{', '}', ',', ':', '"', 'n', 't', 'f'] := by
    rcases h with rfl | h
    · decide
    · have hall : ∀ n < 10, isSpace (Char.ofNat (48 + n)) = false ∧
          Char.ofNat (48 + n) ∉ ['[', ']', '{', '}', ',', ':', '"', 'n', 't', 'f'] := by
        decide
      obtain ⟨n, hn, rfl⟩ := exists_of_isDigit h
      exact hall n hn
  obtain ⟨hspace, hne⟩ := hother
  simp only [List.mem_cons, List.not_mem_nil, or_false, not_or] at hne
  obtain ⟨h1, h2, h3, h4, h5, h6, h7, h8, h9, h10⟩ := hne
  refine ⟨hspace, ?_⟩
  simp only [readToken, h1, h2, h3, h4, h5, h6, h7, h8, h9, h10, ↓reduceIte, if_pos h]

theorem tokens_number {t : Numeral} {cs : List Char} (h : t.Spells cs) {rest : List Char}
    (hr : EndsNumeral rest) : tokens (cs ++ rest) = .scalar (.number t) :: tokens rest := by
  have hread := readNumeral_append (readNumeral_spelled h) hr
  have hhead : ∃ c ds, cs = c :: ds ∧ (c = '-' ∨ c.isDigit) := by
    obtain ⟨hwf, power, -, rfl⟩ := h
    unfold Numeral.signText
    cases t.negative with
    | true => exact ⟨'-', _, rfl, .inl rfl⟩
    | false =>
      obtain ⟨d, ds, hw, hd⟩ := hwf.exists_whole
      rw [hw]
      exact ⟨d, _, rfl, .inr hd⟩
  obtain ⟨c, ds, rfl, hc⟩ := hhead
  obtain ⟨hspace, htoken⟩ := readToken_number hc (ds ++ rest)
  rw [List.cons_append] at hread ⊢
  rw [hread] at htoken
  exact tokens_cons hspace htoken id

theorem hasTokens_scalar {s : Scalar} {cs : List Char} (h : SpellsScalar s cs) :
    HasTokens cs [.scalar s] := by
  intro rest hr
  cases h with
  | null => exact tokens_cons (by decide) (readLiteral_word .null ['u', 'l', 'l'] rest) id
  | true => exact tokens_cons (by decide) (readLiteral_word (.bool true) ['r', 'u', 'e'] rest) id
  | false =>
    exact tokens_cons (by decide) (readLiteral_word (.bool false) ['a', 'l', 's', 'e'] rest) id
  | number h => exact tokens_number h hr
  | @string s cs h =>
    obtain ⟨ps, hpieces, hspelled⟩ := h
    rw [tokens_string hspelled, textOfPieces_eq hpieces, Option.map_some, String.ofList_toList]
    rfl
  | halfPair h hnone =>
    rw [tokens_string h, hnone]
    rfl

theorem HasTokens.padded {before cs after : List Char} {ts : List Token} (h : HasTokens cs ts)
    (hb : IsBlank before) (ha : IsBlank after) : HasTokens (before ++ cs ++ after) ts := by
  intro rest hr
  have hends : EndsNumeral (after ++ rest) := by
    cases after with
    | nil => exact hr
    | cons c cs =>
      rintro d ⟨⟩
      rcases ha c (by simp) with rfl | rfl | rfl | rfl <;> decide
  rw [List.append_assoc, List.append_assoc, tokens_blank hb, h _ hends, tokens_blank ha]

/-! ## Values -/

/-- A value can start with this token. -/
def Token.Starts : Token → Prop
  | .scalar _ | .openArray | .openObject => True
  | _ => False

/-- A text is read as a tree wherever a value must come. -/
def Reads (t : Tree) (cs : List Char) : Prop :=
  ∃ first others, first.Starts ∧ HasTokens cs (first :: others) ∧
    ∀ frames more, (State.value frames).run (first :: others ++ more)
      = (State.after t frames).run more

/-- A text is read as items wherever an item of an array must come. -/
def ReadsItems (items : List Tree) (cs : List Char) : Prop :=
  ∃ first others, first.Starts ∧ HasTokens cs (first :: others) ∧
    ∀ done frames more,
      (State.value (.array done :: frames)).run (first :: others ++ .closeArray :: more)
        = (State.after (.array (done.reverse ++ items) .closed) frames).run more

/-- A text is read as members wherever a member of an object must come. -/
def ReadsMembers (members : List (Tree × Tree)) (cs : List Char) : Prop :=
  ∃ key others, HasTokens cs (.scalar key :: others) ∧
    ∀ done frames more,
      (State.key done frames).run (.scalar key :: others ++ .closeObject :: more)
        = (State.after (.object (done.reverse ++ members) .closed) frames).run more

theorem endsNumeral_cons {c : Char} (h : c.isDigit = false ∧ c ≠ '.' ∧ c ≠ 'e' ∧ c ≠ 'E')
    (rest : List Char) : EndsNumeral (c :: rest) := by
  rintro d ⟨⟩
  exact h

theorem reads_empty {c d : Char} {blank : List Char} {first last : Token} {t : Tree}
    (hb : IsBlank blank) (hc : isSpace c = false ∧ ∀ rest, readToken c rest = (first, rest))
    (hd : isSpace d = false ∧ ∀ rest, readToken d rest = (last, rest)) (hfirst : first.Starts)
    (hlast : ¬ last.IsBroken)
    (hread : ∀ frames more, (State.value frames).run ([first, last] ++ more)
      = (State.after t frames).run more) :
    Reads t (c :: blank ++ [d]) := by
  have hbroken : ¬ first.IsBroken := by
    cases first <;> simp_all [Token.Starts, Token.IsBroken]
  refine ⟨first, [last], hfirst, fun rest _ => ?_, hread⟩
  have htext : c :: blank ++ [d] ++ rest = c :: (blank ++ d :: rest) := by simp
  rw [htext, tokens_symbol hc.1 (hc.2 _) hbroken, tokens_blank hb,
    tokens_symbol hd.1 (hd.2 _) hlast]
  rfl

theorem ReadsItems.array {items : List Tree} {cs : List Char} (h : ReadsItems items cs) :
    Reads (.array items .closed) ('[' :: cs ++ [']']) := by
  obtain ⟨first, others, hfirst, htokens, hread⟩ := h
  refine ⟨.openArray, first :: others ++ [.closeArray], trivial, fun rest _ => ?_,
    fun frames more => ?_⟩
  · have htext : '[' :: cs ++ [']'] ++ rest = '[' :: (cs ++ ']' :: rest) := by simp
    rw [htext, tokens_symbol (by decide) rfl id, htokens _ (endsNumeral_cons (by decide) rest),
      tokens_symbol (by decide) rfl id]
    simp
  · -- the first item is read as it is behind a comma, since it does not start with a bracket
    have hstart : (State.firstItem frames).run (first :: others ++ .closeArray :: more)
        = (State.value (.array [] :: frames)).run (first :: others ++ .closeArray :: more) := by
      cases first <;> first | rfl | exact absurd hfirst id
    have hopen : (State.value frames).run
        (.openArray :: (first :: others ++ [.closeArray]) ++ more)
        = (State.firstItem frames).run (first :: others ++ .closeArray :: more) := by
      simp [State.run, State.step, readValue]
    rw [hopen, hstart, hread]
    rfl

theorem ReadsMembers.object {members : List (Tree × Tree)} {cs : List Char}
    (h : ReadsMembers members cs) : Reads (.object members .closed) ('{' :: cs ++ ['}']) := by
  obtain ⟨key, others, htokens, hread⟩ := h
  refine ⟨.openObject, .scalar key :: others ++ [.closeObject], trivial, fun rest _ => ?_,
    fun frames more => ?_⟩
  · have htext : '{' :: cs ++ ['}'] ++ rest = '{' :: (cs ++ '}' :: rest) := by simp
    rw [htext, tokens_symbol (by decide) rfl id, htokens _ (endsNumeral_cons (by decide) rest),
      tokens_symbol (by decide) rfl id]
    simp
  · have hopen : (State.value frames).run
        (.openObject :: (.scalar key :: others ++ [.closeObject]) ++ more)
        = (State.key [] frames).run (.scalar key :: others ++ .closeObject :: more) := by
      simp [State.run, State.step, readValue]
    rw [hopen, hread]
    rfl

theorem Reads.oneItem {t : Tree} {cs : List Char} (h : Reads t cs) : ReadsItems [t] cs := by
  obtain ⟨first, others, hfirst, htokens, hread⟩ := h
  refine ⟨first, others, hfirst, htokens, fun done frames more => ?_⟩
  rw [hread]
  simp [State.run, State.step, readAfter]

theorem Reads.moreItems {t : Tree} {ts : List Tree} {cs ds : List Char} (h : Reads t cs)
    (hrest : ReadsItems ts ds) : ReadsItems (t :: ts) (cs ++ ',' :: ds) := by
  obtain ⟨first, others, hfirst, htokens, hread⟩ := h
  obtain ⟨next, more', hnext, htokens', hread'⟩ := hrest
  refine ⟨first, others ++ .comma :: next :: more', hfirst, fun rest hr => ?_,
    fun done frames more => ?_⟩
  · rw [List.append_assoc, List.cons_append, htokens _ (endsNumeral_cons (by decide) _),
      tokens_symbol (by decide) rfl id, htokens' rest hr]
    simp
  · have hshape : first :: (others ++ .comma :: next :: more') ++ .closeArray :: more
        = first :: others ++ (.comma :: (next :: more' ++ .closeArray :: more)) := by simp
    -- the items that are done stand in reverse, so the new one comes first
    have hcomma : (State.after t (.array done :: frames)).run
        (.comma :: (next :: more' ++ .closeArray :: more))
        = (State.value (.array (t :: done) :: frames)).run
          (next :: more' ++ .closeArray :: more) := rfl
    rw [hshape, hread, hcomma, hread']
    simp

/-- A text is read as a member wherever one must come. -/
def ReadsMember (key t : Tree) (cs : List Char) : Prop :=
  ∃ k others, HasTokens cs (.scalar k :: others) ∧
    ∀ done frames more, (State.key done frames).run (.scalar k :: others ++ more)
      = (State.after t (.object done key :: frames)).run more

theorem Reads.member {key t : Tree} {ks cs : List Char} (hk : SpellsKey key ks) (h : Reads t cs) :
    ReadsMember key t (ks ++ ':' :: cs) := by
  cases hk with
  | @key s before text after hb hs ha =>
    obtain ⟨first, others, -, htokens, hread⟩ := h
    refine ⟨.string s, .colon :: first :: others, fun rest hr => ?_, fun done frames more => ?_⟩
    · have hkey := (hasTokens_scalar hs).padded hb ha
      rw [List.append_assoc, List.cons_append, hkey _ (endsNumeral_cons (by decide) _),
        tokens_symbol (by decide) rfl id, htokens rest hr]
      rfl
    · have hcolon : (State.key done frames).run
          (.scalar (.string s) :: .colon :: first :: others ++ more)
          = (State.value (.object done (.scalar (.string s)) :: frames)).run
            (first :: others ++ more) := rfl
      rw [hcolon, hread]

theorem ReadsMember.oneMember {key t : Tree} {cs : List Char} (h : ReadsMember key t cs) :
    ReadsMembers [(key, t)] cs := by
  obtain ⟨k, others, htokens, hread⟩ := h
  refine ⟨k, others, htokens, fun done frames more => ?_⟩
  rw [hread]
  simp [State.run, State.step, readAfter]

theorem ReadsMember.moreMembers {key t : Tree} {ms : List (Tree × Tree)} {cs ds : List Char}
    (h : ReadsMember key t cs) (hrest : ReadsMembers ms ds) :
    ReadsMembers ((key, t) :: ms) (cs ++ ',' :: ds) := by
  obtain ⟨k, others, htokens, hread⟩ := h
  obtain ⟨k', others', htokens', hread'⟩ := hrest
  refine ⟨k, others ++ .comma :: .scalar k' :: others', fun rest hr => ?_,
    fun done frames more => ?_⟩
  · rw [List.append_assoc, List.cons_append, htokens _ (endsNumeral_cons (by decide) _),
      tokens_symbol (by decide) rfl id, htokens' rest hr]
    simp
  · have hshape : .scalar k :: (others ++ .comma :: .scalar k' :: others') ++ .closeObject :: more
        = .scalar k :: others ++ (.comma :: (.scalar k' :: others' ++ .closeObject :: more)) := by
      simp
    have hcomma : (State.after t (.object done key :: frames)).run
        (.comma :: (.scalar k' :: others' ++ .closeObject :: more))
        = (State.key ((key, t) :: done) frames).run
          (.scalar k' :: others' ++ .closeObject :: more) := rfl
    rw [hshape, hread, hcomma, hread']
    simp

mutual

/-- A value is read as the tree that it spells. -/
theorem reads_spelled : ∀ {t : Tree} {cs : List Char}, Spells t cs → Reads t cs
  | _, _, .scalar (s := s) h => ⟨.scalar s, [], trivial, hasTokens_scalar h, fun _ _ => rfl⟩
  | _, _, .noItems hb =>
    reads_empty hb ⟨by decide, fun _ => rfl⟩ ⟨by decide, fun _ => rfl⟩ trivial id fun _ _ => rfl
  | _, _, .array h => (readsItems_spelled h).array
  | _, _, .noMembers hb =>
    reads_empty hb ⟨by decide, fun _ => rfl⟩ ⟨by decide, fun _ => rfl⟩ trivial id fun _ _ => rfl
  | _, _, .object h => (readsMembers_spelled h).object

theorem reads_padded : ∀ {t : Tree} {cs : List Char}, SpellsPadded t cs → Reads t cs
  | _, _, .value hb h ha => by
    obtain ⟨first, others, hfirst, htokens, hread⟩ := reads_spelled h
    exact ⟨first, others, hfirst, htokens.padded hb ha, hread⟩

theorem readsItems_spelled : ∀ {items : List Tree} {cs : List Char}, SpellsItems items cs →
    ReadsItems items cs
  | _, _, .one h => (reads_padded h).oneItem
  | _, _, .more h hrest => (reads_padded h).moreItems (readsItems_spelled hrest)

theorem readsMembers_spelled : ∀ {members : List (Tree × Tree)} {cs : List Char},
    SpellsMembers members cs → ReadsMembers members cs
  | _, _, .one hk h => ((reads_padded h).member hk).oneMember
  | _, _, .more hk h hrest => ((reads_padded h).member hk).moreMembers (readsMembers_spelled hrest)

end

/-- A document is read as the tree that it spells, up to its end. -/
theorem ofText_spelled {t : Tree} {text : String} (h : SpellsPadded t text.toList) :
    Document.ofText text = ⟨t, false⟩ := by
  obtain ⟨first, others, -, htokens, hread⟩ := reads_padded h
  have htext := htokens [] endsNumeral_nil
  have hnil : tokens [] = [] := by
    rw [tokens_eq]
    rfl
  rw [List.append_nil, hnil] at htext
  rw [Document.ofText, htext, hread]
  rfl

/-! ## Passing over values -/

mutual

/-- Every value can be passed over, whatever its depth. -/
theorem skip_spelled : ∀ {t : Tree} {cs : List Char}, Spells t cs → skip t = .ok ()
  | _, _, .scalar _ => by rw [skip]
  | _, _, .noItems _ => by
    rw [skip, skipItems]
    rfl
  | _, _, .array h => by
    rw [skip, skipItems_spelled h]
    rfl
  | _, _, .noMembers _ => by
    rw [skip, skipMembers]
    rfl
  | _, _, .object h => by
    rw [skip, skipMembers_spelled h]
    rfl

theorem skip_padded : ∀ {t : Tree} {cs : List Char}, SpellsPadded t cs → skip t = .ok ()
  | _, _, .value _ h _ => skip_spelled h

theorem skipItems_spelled : ∀ {ts : List Tree} {cs : List Char}, SpellsItems ts cs →
    skipItems ts = .ok ()
  | _, _, .one h => by
    rw [skipItems, skip_padded h, skipItems]
    rfl
  | _, _, .more h hrest => by
    rw [skipItems, skip_padded h, skipItems_spelled hrest]
    rfl

theorem skipMembers_spelled : ∀ {ms : List (Tree × Tree)} {cs : List Char}, SpellsMembers ms cs →
    skipMembers ms = .ok ()
  | _, _, .one (.key _ _ _) h => by
    rw [skipMembers, skipKey, skip_padded h, skipMembers]
    rfl
  | _, _, .more (.key _ _ _) h hrest => by
    rw [skipMembers, skipKey, skip_padded h, skipMembers_spelled hrest]
    rfl

end

end DialogueBuild.Json
