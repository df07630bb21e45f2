import DialogueBuild.CommandLine.Run
import Mathlib.Data.List.Nodup
/-!
The order of arguments.

While arguments are read, options wait for their values and inputs for more inputs. What is settled
at last does not tell of it: it is what the options and inputs give one after the other, so that
only the order of the inputs among themselves is left of the order of all arguments.

Results:

1. `State.IsLost.readAll`    what cannot be settled is refused at the end, whatever follows;
2. `State.gives_item`        what one option or input does to what is settled;
3. `State.gives_items`       and what all of them do;
4. `foldlM_add_eq_ok_iff`    they are added if their values are accepted and no option comes twice;
5. `arguments_in_any_order`  so what is asked for does not depend on the order of arguments.
-/
namespace DialogueBuild.CommandLine

/-! ## Options and inputs -/

/-- How an option with a value is spelled. -/
inductive Spelling
  /-- A letter behind one dash; the value is the next argument. -/
  | short (letter : Char)
  /-- The name behind two dashes; the value is the next argument. -/
  | long
  /-- The name behind two dashes, an equals sign and the value. -/
  | joined
  deriving DecidableEq, Repr

/-- An option or an input of `compile`. -/
inductive Item
  | input (word : String)
  | flag
  | option (k : Key) (spelling : Spelling) (value : String)
  deriving DecidableEq, Repr

namespace Item

/-- The arguments that spell an item. -/
def arguments : Item → List String
  | .input word => [word]
  | .flag => ["--" ++ Key.stdout.long]
  | .option _ (.short letter) value => [String.ofList ['-', letter], value]
  | .option k .long value => ["--" ++ k.long, value]
  | .option k .joined value => ["--" ++ k.long ++ "=" ++ value]

def input? : Item → Option String
  | .input word => some word
  | _ => none

/-- The option with its value; flags have the empty one. -/
def option? : Item → Option (Key × String)
  | .input _ => none
  | .flag => some (.stdout, "")
  | .option k _ value => some (k, value)

end Item

/-- The argument does not begin with a dash. -/
def IsUndashed (arg : String) : Prop := arg.toList.head? ≠ some '-'

instance (arg : String) : Decidable (IsUndashed arg) := inferInstanceAs (Decidable (_ ≠ _))

/-- The option can be spelled so. -/
def Spelling.Fits (k : Key) : Spelling → Prop
  | .short letter => k.short? = some letter
  | .long | .joined => True

instance (k : Key) : (s : Spelling) → Decidable (s.Fits k)
  | .short letter => inferInstanceAs (Decidable (k.short? = some letter))
  | .long | .joined => .isTrue trivial

/-- An item that is recognized as what it is: its values begin with no dash, and its option is one
of `compile`. -/
def Item.IsSpelled : Item → Prop
  | .input word => IsUndashed word
  | .flag => True
  | .option k spelling value =>
    (k ∈ Command.compile.keys ∧ k.takesValue) ∧ spelling.Fits k ∧ IsUndashed value

instance : (item : Item) → Decidable item.IsSpelled
  | .input word => inferInstanceAs (Decidable (IsUndashed word))
  | .flag => .isTrue trivial
  | .option _ _ _ => inferInstanceAs (Decidable ((_ ∧ _) ∧ _ ∧ _))

/-- The value of an item is one that it can have: paths are not empty, and colours are chosen by one
of their three words. -/
def Item.IsAccepted : Item → Prop
  | .input word => word ≠ ""
  | .flag => True
  | .option k _ value =>
    (k.isPath → value ≠ "") ∧ (k = .color → (ColorChoice.ofName? value).isSome)

instance : (item : Item) → Decidable item.IsAccepted
  | .input _ => inferInstanceAs (Decidable (_ ≠ _))
  | .flag => .isTrue trivial
  | .option _ _ _ => inferInstanceAs (Decidable ((_ → _) ∧ (_ → _)))

/-! ## Arguments by their looks -/

namespace Argument

theorem ofText_word {word : String} (h : IsUndashed word) : ofText word = .word := by
  unfold ofText
  unfold IsUndashed at h
  split <;> simp_all

theorem ofText_long (k : Key) : ofText ("--" ++ k.long) = .long k.long none := by
  cases k <;> rfl

theorem ofText_equals {arg : String} {name value : List Char} (hname : '=' ∉ name)
    (htext : arg.toList = '-' :: '-' :: (name ++ '=' :: value)) :
    ofText arg = .long (String.ofList name) (some (String.ofList value)) := by
  have hpos : ∀ c ∈ name, decide (c ≠ '=') = true := fun c hc =>
    decide_eq_true fun heq => hname (heq ▸ hc)
  have htake : (name ++ '=' :: value).takeWhile (· ≠ '=') = name := by
    rw [List.takeWhile_append_of_pos hpos]
    simp
  have hdrop : (name ++ '=' :: value).dropWhile (· ≠ '=') = '=' :: value := by
    rw [List.dropWhile_append_of_pos hpos]
    simp
  cases name with
  | nil => simp [ofText, htext]
  | cons c cs =>
    simp only [List.cons_append] at htake hdrop
    simp only [ofText, htext, List.cons_append, htake, hdrop]

theorem ofText_joined (k : Key) (value : String) :
    ofText ("--" ++ k.long ++ "=" ++ value) = .long k.long (some value) := by
  have htext : ("--" ++ k.long ++ "=" ++ value).toList
      = '-' :: '-' :: (k.long.toList ++ '=' :: value.toList) := by
    simp [String.toList_append]
  have hlong : '=' ∉ k.long.toList := by cases k <;> decide
  simpa using ofText_equals hlong htext

theorem ofText_short {k : Key} {letter : Char} (h : k.short? = some letter) :
    ofText (String.ofList ['-', letter]) = .short letter [] := by
  cases k <;> simp only [Key.short?, reduceCtorEq, Option.some.injEq] at h <;> subst h <;> rfl

end Argument

theorem find?_long {k : Key} (hk : k ∈ Command.compile.keys) :
    Command.compile.keys.find? (·.long = k.long) = some k := by
  revert k
  decide

theorem find?_short {k : Key} {letter : Char} (hk : k ∈ Command.compile.keys)
    (h : k.short? = some letter) :
    Command.compile.keys.find? (·.short? = some letter) = some k := by
  have hall : ∀ k ∈ Command.compile.keys, k.short?.isSome →
      Command.compile.keys.find? (·.short? = k.short?) = some k := by decide
  rw [← h]
  exact hall k hk (by simp [h])

/-! ## Refusals -/

/-- What is asked for is refused, as an error of whoever asks for it. -/
def IsRefused {α : Type} (r : Except Stop α) : Prop :=
  ∃ stop, r = .error stop ∧ stop.isAnswer = false

theorem IsRefused.bind {α β : Type} {r : Except Stop α} {f : α → Except Stop β} (h : IsRefused r) :
    IsRefused (r >>= f) := by
  obtain ⟨stop, rfl, hstop⟩ := h
  exact ⟨stop, rfl, hstop⟩

theorem Settled.addOption_isRefused {t : Settled} {k : Key} {value : String} {stop : Stop}
    (h : t.addOption k value = .error stop) : IsRefused (t.addOption k value) := by
  refine ⟨stop, h, ?_⟩
  unfold addOption checkValue at h
  split at h
  · cases h; rfl
  · split at h
    · cases h; rfl
    · split at h
      · split at h <;> cases h <;> rfl
      · cases h

namespace State

variable {s : State}

/-- What waits cannot be settled, and nothing that follows can change this. -/
inductive IsLost : State → Prop
  | words {t : Settled} {ws : List String} {b : Bool} (h : "" ∈ ws) : IsLost ⟨t, .words ws, b⟩
  | option {t : Settled} {k : Key} {value : String} {stop : Stop} {b : Bool}
    (h : t.addOption k value = .error stop) : IsLost ⟨t, .option k (some value), b⟩

theorem IsLost.settle (h : s.IsLost) : IsRefused (s.settle .compile) := by
  cases h with
  | words h => exact ⟨.missingValue Command.compile.wordsText, by
      simp [State.settle, Settled.addWords, h], rfl⟩
  | option h => exact Settled.addOption_isRefused h

/-- Options settle what waits before they do anything else but complain. -/
theorem IsLost.readOption (h : s.IsLost) (k : Key) (attached : Option String) :
    IsRefused (s.readOption .compile k attached) := by
  unfold State.readOption
  split
  · exact h.settle.bind
  · split
    · exact ⟨_, rfl, rfl⟩
    · exact h.settle.bind

theorem IsLost.readWord (h : s.IsLost) (word : String) :
    IsRefused (s.readWord .compile word) ∨ ∃ s', s.readWord .compile word = .ok s' ∧ s'.IsLost := by
  cases h with
  | words h => exact .inr ⟨_, rfl, .words (List.mem_append_left _ h)⟩
  | option h => exact .inl (Settled.addOption_isRefused h).bind

/-- One more argument does not help. -/
theorem IsLost.read (h : s.IsLost) (arg : String) :
    IsRefused (s.read .compile arg) ∨ ∃ s', s.read .compile arg = .ok s' ∧ s'.IsLost := by
  unfold State.read
  split
  · exact h.readWord arg
  · split
    · refine .inr ⟨_, rfl, ?_⟩
      cases h with
      | words h => exact .words h
      | option h => exact .option h
    · split
      · exact .inl (h.readOption _ _)
      · exact .inl ⟨_, rfl, rfl⟩
    · split
      · exact .inl (h.readOption _ _)
      · exact .inl ⟨_, rfl, rfl⟩
    · split
      next hpending => cases h <;> cases hpending
      next => exact h.readWord arg

theorem IsLost.readAll (h : s.IsLost) (args : List String) :
    IsRefused (readAll .compile s args) := by
  induction args generalizing s with
  | nil => exact h.settle
  | cons arg rest ih =>
    rcases h.read arg with hrefused | ⟨s', hread, hlost⟩
    · exact hrefused.bind
    · rw [CommandLine.readAll, hread]
      exact ih hlost

/-! ## Item after item -/

/-- What waits can be settled, which gives `t`, and options are still read as such. -/
structure Settles (s : State) (t : Settled) : Prop where
  settle_eq : s.settle .compile = .ok t
  onlyWords_eq : s.onlyWords = false

end State

/-- Adds what an item gives. -/
def Settled.add (t : Settled) : Item → Except Stop Settled
  | .input word => t.addWords .compile [word]
  | .flag => t.addOption .stdout ""
  | .option k _ value => t.addOption k value

/-- Words may be added one after the other. -/
theorem Settled.addWords_append {t t' : Settled} {ws : List String} {word : String}
    (h : t.addWords .compile ws = .ok t') :
    t.addWords .compile (ws ++ [word]) = t'.addWords .compile [word] := by
  unfold addWords at h ⊢
  split at h
  · cases h
  · next hws =>
    cases h
    simp_all [List.append_assoc]

namespace State

variable {s s' : State} {t : Settled} {args : List String} {r : Except Stop Settled}

/-- From the state on, the arguments settle what `r` tells, or everything is refused. -/
def Gives (s : State) (args : List String) (r : Except Stop Settled) : Prop :=
  match r with
  | .ok t => ∃ s' : State, s'.Settles t ∧
      ∀ rest, readAll .compile s (args ++ rest) = readAll .compile s' rest
  | .error _ => ∀ rest, IsRefused (readAll .compile s (args ++ rest))

theorem Gives.append {args' : List String} (h : s.Gives args (.ok t))
    (hrest : ∀ s' : State, s'.Settles t → s'.Gives args' r) : s.Gives (args ++ args') r := by
  obtain ⟨s', hs', heq⟩ := h
  have h' := hrest s' hs'
  cases r with
  | ok t' =>
    obtain ⟨s'', hs'', heq'⟩ := h'
    exact ⟨s'', hs'', fun rest => by rw [List.append_assoc, heq, heq']⟩
  | error stop =>
    intro rest
    rw [List.append_assoc, heq]
    exact h' rest

/-- What waits after the arguments is what they give, if it cannot but be lost when refused. -/
theorem gives_settle (h : ∀ rest, readAll .compile s (args ++ rest) = readAll .compile s' rest)
    (honlyWords : s'.onlyWords = false)
    (hlost : ∀ stop, s'.settle .compile = .error stop → s'.IsLost) :
    s.Gives args (s'.settle .compile) := by
  cases hr : s'.settle .compile with
  | ok t => exact ⟨s', ⟨hr, honlyWords⟩, h⟩
  | error stop =>
    intro rest
    rw [h rest]
    exact (hlost stop hr).readAll rest

theorem gives_of_words {ws : List String}
    (h : ∀ rest, readAll .compile s (args ++ rest) = readAll .compile ⟨t, .words ws, false⟩ rest) :
    s.Gives args (t.addWords .compile ws) := by
  refine gives_settle h rfl fun stop hr => .words ?_
  by_contra hempty
  simp [settle, Settled.addWords, hempty] at hr

theorem gives_of_option {k : Key} {value : String}
    (h : ∀ rest, readAll .compile s (args ++ rest)
      = readAll .compile ⟨t, .option k (some value), false⟩ rest) :
    s.Gives args (t.addOption k value) :=
  gives_settle h rfl fun _ hr => .option hr

theorem readAll_of_read {arg : String} (h : s.read .compile arg = .ok s') (rest : List String) :
    readAll .compile s (arg :: rest) = readAll .compile s' rest := by
  rw [readAll, h]
  rfl

theorem gives_of_added {k : Key} {arg value : String}
    (h : s.read .compile arg = (do return ⟨← t.addOption k value, .nothing, false⟩)) :
    s.Gives [arg] (t.addOption k value) := by
  cases hr : t.addOption k value with
  | ok t' =>
    refine ⟨⟨t', .nothing, false⟩, ⟨rfl, rfl⟩, fun rest => ?_⟩
    rw [List.singleton_append, readAll, h, hr]
    rfl
  | error stop =>
    intro rest
    rw [List.singleton_append, readAll, h]
    exact (Settled.addOption_isRefused hr).bind.bind

theorem Settles.read_long {k : Key} {arg : String} {attached : Option String} (hs : s.Settles t)
    (hk : k ∈ Command.compile.keys) (harg : Argument.ofText arg = .long k.long attached) :
    s.read .compile arg = s.readOption .compile k attached := by
  simp only [State.read, hs.onlyWords_eq, harg, find?_long hk, Bool.false_eq_true, if_false]

theorem Settles.read_short {k : Key} {letter : Char} (hs : s.Settles t)
    (hk : k ∈ Command.compile.keys) (hletter : k.short? = some letter) :
    s.read .compile (String.ofList ['-', letter]) = s.readOption .compile k none := by
  simp only [State.read, hs.onlyWords_eq, Argument.ofText_short hletter, find?_short hk hletter,
    Bool.false_eq_true, if_false, attachedValue, ite_self]

/-- What waits is settled when an option comes, which then waits for its value. -/
theorem Settles.readOption {k : Key} (hs : s.Settles t) (hk : k.takesValue) :
    s.readOption .compile k none = .ok ⟨t, .option k none, false⟩ := by
  simp only [State.readOption, hk, hs.settle_eq, if_true, hs.onlyWords_eq]
  rfl

theorem Settles.readOption_attached {k : Key} (hs : s.Settles t) (hk : k.takesValue)
    (value : String) :
    s.readOption .compile k (some value)
      = (do return ⟨← t.addOption k value, .nothing, false⟩) := by
  simp only [State.readOption, hk, hs.settle_eq, if_true, hs.onlyWords_eq]
  rfl

theorem Settles.readOption_flag (hs : s.Settles t) :
    s.readOption .compile .stdout none
      = (do return ⟨← t.addOption .stdout "", .nothing, false⟩) := by
  have hk : Key.stdout.takesValue = false := rfl
  simp only [State.readOption, hk, hs.settle_eq, Bool.false_eq_true, if_false, hs.onlyWords_eq,
    reduceCtorEq]
  rfl

/-- An option takes the argument behind it as its value. -/
theorem gives_of_separate {k : Key} {name value : String} (hvalue : IsUndashed value)
    (hname : s.read .compile name = .ok ⟨t, .option k none, false⟩) :
    s.Gives [name, value] (t.addOption k value) := by
  have hread : State.read ⟨t, .option k none, false⟩ .compile value
      = .ok ⟨t, .option k (some value), false⟩ := by
    simp only [State.read, Argument.ofText_word hvalue, Bool.false_eq_true, if_false]
  refine gives_of_option fun rest => ?_
  rw [List.cons_append, readAll_of_read hname, List.singleton_append, readAll_of_read hread]

/-- Inputs wait for more inputs, which makes no difference to what is settled. -/
theorem gives_input {word : String} (hs : s.Settles t) (hword : IsUndashed word) :
    s.Gives [word] (t.addWords .compile [word]) := by
  obtain ⟨settled, pending, onlyWords⟩ := s
  obtain ⟨hsettle, rfl⟩ := hs
  have hread : State.read ⟨settled, pending, false⟩ .compile word
      = State.readWord ⟨settled, pending, false⟩ .compile word := by
    simp only [State.read, Argument.ofText_word hword, Bool.false_eq_true, if_false]
    split
    · simp [State.settle] at hsettle
    · rfl
  cases pending with
  | words ws =>
    -- Nothing is settled yet: the word waits together with those in front of it.
    rw [← Settled.addWords_append hsettle]
    exact gives_of_words fun rest => readAll_of_read hread rest
  | nothing =>
    obtain rfl : settled = t := by cases hsettle; rfl
    exact gives_of_words fun rest => readAll_of_read hread rest
  | option k value =>
    refine gives_of_words (readAll_of_read ?_)
    rw [hread]
    unfold State.readWord
    rw [hsettle]
    rfl

/-- What an item does to what is settled. -/
theorem gives_item {item : Item} (hs : s.Settles t) (hitem : item.IsSpelled) :
    s.Gives item.arguments (t.add item) := by
  match item, hitem with
  | .input word, hword => exact gives_input hs hword
  | .flag, _ =>
    refine gives_of_added ?_
    rw [hs.read_long (by decide) (Argument.ofText_long _), hs.readOption_flag]
  | .option k (.short letter) value, ⟨⟨hk, htakes⟩, hletter, hvalue⟩ =>
    refine gives_of_separate hvalue ?_
    rw [hs.read_short hk hletter, hs.readOption htakes]
  | .option k .long value, ⟨⟨hk, htakes⟩, _, hvalue⟩ =>
    refine gives_of_separate hvalue ?_
    rw [hs.read_long hk (Argument.ofText_long _), hs.readOption htakes]
  | .option k .joined value, ⟨⟨hk, htakes⟩, _, _⟩ =>
    refine gives_of_added ?_
    rw [hs.read_long hk (Argument.ofText_joined _ _), hs.readOption_attached htakes]

theorem gives_items {items : List Item} (hs : s.Settles t)
    (hitems : ∀ item ∈ items, item.IsSpelled) :
    s.Gives (items.flatMap Item.arguments) (items.foldlM Settled.add t) := by
  induction items generalizing s t with
  | nil => exact ⟨s, hs, fun _ => rfl⟩
  | cons item items ih =>
    simp only [List.forall_mem_cons] at hitems
    have hfirst := gives_item hs hitems.1
    rw [List.flatMap_cons, List.foldlM_cons]
    cases hadd : t.add item with
    | error stop =>
      rw [hadd] at hfirst
      intro rest
      rw [List.append_assoc]
      exact hfirst _
    | ok t' =>
      rw [hadd] at hfirst
      exact hfirst.append fun s' hs' => ih hs' hitems.2

end State

/-! ## What items settle -/

theorem checkValue_eq_ok_iff {k : Key} {value : String} : checkValue k value = .ok () ↔
    (k.isPath → value ≠ "") ∧ (k = .color → (ColorChoice.ofName? value).isSome) := by
  unfold checkValue
  split
  · simp_all
  · split
    · split <;> simp_all
    · simp_all [Option.isSome_iff_ne_none]

namespace Settled

variable {t t' : Settled} {items : List Item}

theorem has_iff {k : Key} : t.has k ↔ k ∈ t.options.map Prod.fst := by
  simp [has, value?]

/-- With one value for each option, the value of an option is the one that stands with it. -/
theorem value?_eq_some_iff {k : Key} {value : String} (h : (t.options.map Prod.fst).Nodup) :
    t.value? k = some value ↔ (k, value) ∈ t.options := by
  have hmem : ∀ v, t.value? k = some v → (k, v) ∈ t.options := by
    intro v hv
    obtain ⟨⟨k', v'⟩, hfind, rfl⟩ := Option.map_eq_some_iff.mp hv
    obtain rfl : k' = k := by simpa using List.find?_some hfind
    exact List.mem_of_find?_eq_some hfind
  refine ⟨hmem value, fun hvalue => ?_⟩
  obtain ⟨v, hv⟩ := Option.isSome_iff_exists.mp
    (has_iff.mpr (List.mem_map_of_mem (f := Prod.fst) hvalue))
  obtain rfl : v = value :=
    congrArg Prod.snd (List.inj_on_of_nodup_map h (hmem v hv) hvalue rfl)
  exact hv

theorem addOption_eq_ok_iff {k : Key} {value : String} : t.addOption k value = .ok t' ↔
    (k ∉ t.options.map Prod.fst ∧ checkValue k value = .ok ()) ∧
      { t with options := t.options ++ [(k, value)] } = t' := by
  rw [← has_iff]
  unfold addOption
  split
  · simp_all
  · next hhas =>
    cases hvalue : checkValue k value with
    | error stop => simp [bind, Except.bind]
    | ok _ => simp [hhas, bind, Except.bind, pure, Except.pure]

/-- What is settled with one more item. -/
def extend (t : Settled) (item : Item) : Settled :=
  ⟨t.options ++ item.option?.toList, t.words ++ item.input?.toList⟩

/-- An item is added if its value is accepted and its option is new. -/
theorem add_eq_ok_iff {item : Item} : t.add item = .ok t' ↔
    (item.IsAccepted ∧ ∀ o ∈ item.option?, o.1 ∉ t.options.map Prod.fst) ∧ t.extend item = t' := by
  cases item with
  | input word =>
    by_cases hword : word = "" <;>
      simp [add, addWords, hword, Item.IsAccepted, Item.option?, extend, Item.input?]
  | flag =>
    have hvalue : checkValue .stdout "" = .ok () := rfl
    simp [add, addOption_eq_ok_iff, hvalue, Item.IsAccepted, Item.option?, extend, Item.input?]
  | option k spelling value =>
    rw [add, addOption_eq_ok_iff, checkValue_eq_ok_iff, and_comm (a := k ∉ _)]
    simp [Item.IsAccepted, Item.option?, extend, Item.input?]

theorem nodup_extend_iff {item : Item} : ((t.extend item).options.map Prod.fst).Nodup ↔
    (t.options.map Prod.fst).Nodup ∧ ∀ o ∈ item.option?, o.1 ∉ t.options.map Prod.fst := by
  unfold extend
  cases item.option? with
  | none => simp
  | some o =>
    simp only [Option.toList_some, List.map_append, List.map_cons, List.map_nil, Option.mem_def,
      Option.some.injEq, forall_eq']
    rw [← List.concat_eq_append, List.nodup_concat, and_comm]

theorem foldl_extend : items.foldl extend t
    = ⟨t.options ++ items.filterMap Item.option?, t.words ++ items.filterMap Item.input?⟩ := by
  induction items generalizing t with
  | nil => simp
  | cons item items ih =>
    rw [List.foldl_cons, ih]
    cases item <;> simp [extend, Item.option?, Item.input?, List.filterMap_cons]

theorem nodup_of_foldl_extend (h : ((items.foldl extend t).options.map Prod.fst).Nodup) :
    (t.options.map Prod.fst).Nodup := by
  rw [foldl_extend] at h
  rw [List.map_append] at h
  exact h.of_append_left

/-- Items are added if their values are accepted and no option comes twice. -/
theorem foldlM_add_eq_ok_iff (ht : (t.options.map Prod.fst).Nodup) : items.foldlM add t = .ok t' ↔
    ((∀ item ∈ items, item.IsAccepted) ∧ ((items.foldl extend t).options.map Prod.fst).Nodup) ∧
      items.foldl extend t = t' := by
  induction items generalizing t with
  | nil => simp [pure, Except.pure, ht]
  | cons item items ih =>
    rw [List.foldlM_cons, List.foldl_cons, List.forall_mem_cons]
    cases hadd : t.add item with
    | ok t'' =>
      obtain ⟨⟨haccepted, hnew⟩, rfl⟩ := add_eq_ok_iff.mp hadd
      change items.foldlM add (t.extend item) = .ok t' ↔ _
      rw [ih (nodup_extend_iff.mpr ⟨ht, hnew⟩), and_iff_right haccepted]
    | error stop =>
      refine iff_of_false nofun fun ⟨⟨⟨haccepted, _⟩, hnodup⟩, _⟩ => ?_
      have hnew := (nodup_extend_iff.mp (nodup_of_foldl_extend hnodup)).2
      simp [add_eq_ok_iff.mpr ⟨⟨haccepted, hnew⟩, rfl⟩] at hadd

end Settled

/-! ## Choices -/

/-- What can be chosen for a compilation. -/
structure Choices where
  outputDirectory : Option String
  outputName : Option String
  stringTableName : Option String
  stdout : Bool
  compiler : Option String
  color : Option ColorChoice
  deriving DecidableEq, Repr

namespace Choices

variable {c : Choices}

/-- The value of the option that makes a choice; flags have the empty one. -/
def value? (c : Choices) : Key → Option String
  | .outputDirectory => c.outputDirectory
  | .outputName => c.outputName
  | .stringTableName => c.stringTableName
  | .stdout => if c.stdout then some "" else none
  | .compiler => c.compiler
  | .color => c.color.map ColorChoice.name
  | .excludeBuilds | .help => none

/-- The options that make the choices, in some order. -/
def options (c : Choices) : List (Key × String) :=
  Command.compile.keys.filterMap fun k => (c.value? k).map fun value => (k, value)

/-- What is asked for when these choices are made; the environment may name a compiler. -/
def request (c : Choices) (inputs : List String) (preset : Option String) : CompileRequest where
  inputs := inputs.map Path.mk
  outputDirectory := ⟨c.outputDirectory.getD "."⟩
  outputName := c.outputName
  stringTableName := c.stringTableName
  stdout := c.stdout
  compiler := ⟨(c.compiler <|> preset).getD defaultCompiler⟩
  color := c.color.getD .auto

theorem mem_options {k : Key} {value : String} :
    (k, value) ∈ c.options ↔ c.value? k = some value := by
  have hkey : c.value? k = some value → k ∈ Command.compile.keys := by
    cases k <;> simp [value?, Command.keys]
  simp [options]
  exact hkey

theorem nodup_options : (c.options.map Prod.fst).Nodup := by
  have hkeys : Command.compile.keys.Nodup := by decide
  rw [options, List.map_filterMap]
  refine hkeys.filterMap fun k k' b hb hb' => ?_
  simp at hb hb'
  rw [hb.2, hb'.2]

end Choices

theorem Settled.value?_of_perm {t : Settled} {c : Choices} (h : t.options.Perm c.options)
    (k : Key) : t.value? k = c.value? k := by
  have hnodup : (t.options.map Prod.fst).Nodup := (h.map Prod.fst).nodup_iff.mpr c.nodup_options
  ext value
  rw [value?_eq_some_iff hnodup, h.mem_iff, Choices.mem_options]

theorem ColorChoice.ofName?_name (c : ColorChoice) : ofName? c.name = some c := by
  cases c <;> rfl

theorem Settled.invocation_eq_error {t : Settled} {c : Choices} (h : ∀ k, t.value? k = c.value? k)
    (hcompiler : c.compiler = none) :
    t.invocation .compile (some "") = .error (.missingValue Key.compiler.text) := by
  have hvalue : t.value? .compiler = none := (h .compiler).trans hcompiler
  simp only [invocation, Settled.compiler, hvalue]
  rfl

theorem Settled.invocation_eq {t : Settled} {c : Choices} {preset : Option String}
    (h : ∀ k, t.value? k = c.value? k) (hwords : t.words ≠ [])
    (hpreset : c.compiler.isSome ∨ preset ≠ some "") :
    t.invocation .compile preset = .ok (.compile (c.request t.words preset)) := by
  have hcompiler : t.compiler preset = .ok ⟨(c.compiler <|> preset).getD defaultCompiler⟩ := by
    unfold Settled.compiler
    rw [h .compiler, Choices.value?]
    cases hc : c.compiler with
    | some value => rfl
    | none =>
      cases hp : preset with
      | none => rfl
      | some value => simp_all
  have hinputs : t.inputs .compile = .ok (t.words.map Path.mk) := by
    rw [Settled.inputs, if_neg (by simpa using hwords)]
  have hdirectory : t.outputDirectory = ⟨c.outputDirectory.getD "."⟩ := by
    rw [Settled.outputDirectory, h .outputDirectory, Choices.value?]
  have hstdout : t.has .stdout = c.stdout := by
    rw [Settled.has, h .stdout, Choices.value?]
    cases c.stdout <;> rfl
  have hcolor : t.color = c.color.getD .auto := by
    rw [Settled.color, h .color, Choices.value?]
    cases c.color <;> simp [ColorChoice.ofName?_name]
  simp only [invocation, hcompiler, hinputs, hdirectory, hstdout, hcolor, h .outputName,
    h .stringTableName]
  rfl

/-! ## All arguments -/

/-- The items make these choices about these inputs, whatever their spelling and order. -/
structure Expresses (items : List Item) (inputs : List String) (c : Choices) : Prop where
  isSpelled : ∀ item ∈ items, item.IsSpelled
  isAccepted : ∀ item ∈ items, item.IsAccepted
  inputs_eq : items.filterMap Item.input? = inputs
  options_perm : (items.filterMap Item.option?).Perm c.options

theorem parse_compile (args : List String) (preset : Option String) :
    parse ("compile" :: args) preset
      = (do (← readAll .compile .start args).invocation .compile preset) :=
  rfl

theorem State.start_settles : State.start.Settles ⟨[], []⟩ := ⟨rfl, rfl⟩

theorem Expresses.readAll_eq {items : List Item} {inputs : List String} {c : Choices}
    (h : Expresses items inputs c) :
    ∃ t, readAll .compile .start (items.flatMap Item.arguments) = .ok t ∧
      t.words = inputs ∧ ∀ k, t.value? k = c.value? k := by
  have hnodup : ((items.filterMap Item.option?).map Prod.fst).Nodup :=
    (h.options_perm.map Prod.fst).nodup_iff.mpr c.nodup_options
  have hadd : items.foldlM Settled.add ⟨[], []⟩
      = .ok ⟨items.filterMap Item.option?, items.filterMap Item.input?⟩ := by
    rw [Settled.foldlM_add_eq_ok_iff (t := ⟨[], []⟩) List.nodup_nil, Settled.foldl_extend]
    exact ⟨⟨h.isAccepted, hnodup⟩, rfl⟩
  have hgives := State.gives_items State.start_settles h.isSpelled
  rw [hadd] at hgives
  obtain ⟨s, hs, heq⟩ := hgives
  refine ⟨⟨_, _⟩, ?_, h.inputs_eq, Settled.value?_of_perm h.options_perm⟩
  rw [← List.append_nil (items.flatMap _), heq, readAll, hs.settle_eq]

/-- No option may come twice. -/
theorem isRefused_of_repeated {items : List Item} (hitems : ∀ item ∈ items, item.IsSpelled)
    (h : ¬ ((items.filterMap Item.option?).map Prod.fst).Nodup) (rest : List String) :
    IsRefused (readAll .compile .start (items.flatMap Item.arguments ++ rest)) := by
  have hgives := State.gives_items State.start_settles hitems
  cases hadd : items.foldlM Settled.add ⟨[], []⟩ with
  | error stop =>
    rw [hadd] at hgives
    exact hgives rest
  | ok t =>
    rw [Settled.foldlM_add_eq_ok_iff (t := ⟨[], []⟩) List.nodup_nil, Settled.foldl_extend] at hadd
    exact absurd hadd.1.2 h

/-- What `compile` is asked for does not depend on the order of options and inputs, nor on the
spelling of options: it is what the options choose about the inputs in their order. The compiler is
that of its option, else that of the environment, else the default one; an empty one is refused also
where the environment names it. No option may come twice, whatever follows. -/
theorem arguments_in_any_order (preset : Option String) :
    (∀ items inputs c, Expresses items inputs c → inputs ≠ [] →
      (c.compiler.isSome ∨ preset ≠ some "") →
        parse ("compile" :: items.flatMap Item.arguments) preset
          = .ok (.compile (c.request inputs preset))) ∧
    (∀ items inputs c, Expresses items inputs c → c.compiler = none → preset = some "" →
      parse ("compile" :: items.flatMap Item.arguments) preset
        = .error (.missingValue Key.compiler.text)) ∧
    (∀ (items : List Item) (rest : List String), (∀ item ∈ items, item.IsSpelled) →
      ¬ ((items.filterMap Item.option?).map Prod.fst).Nodup →
        IsRefused (parse ("compile" :: (items.flatMap Item.arguments ++ rest)) preset)) := by
  refine ⟨fun items inputs c h hinputs hpreset => ?_, fun items inputs c h hc hpreset => ?_,
    fun items rest hitems h => ?_⟩
  · obtain ⟨t, hread, rfl, hvalues⟩ := h.readAll_eq
    rw [parse_compile, hread, ← Settled.invocation_eq hvalues hinputs hpreset]
    rfl
  · obtain ⟨t, hread, -, hvalues⟩ := h.readAll_eq
    rw [parse_compile, hread, hpreset, ← Settled.invocation_eq_error hvalues hc]
    rfl
  · rw [parse_compile]
    exact (isRefused_of_repeated hitems h rest).bind

/-- Options of all spellings among inputs, an empty compiler of the environment, and a name that
comes twice. -/
theorem arguments_in_any_order_mixed :
    parse ["compile", "--compiler=yc", "b.yarn", "-o", "out", "--stdout", "a.yarn"] (some "ysc")
        = .ok (.compile ⟨[⟨"b.yarn"⟩, ⟨"a.yarn"⟩], ⟨"out"⟩, none, none, true, ⟨"yc"⟩, .auto⟩) ∧
      parse ["compile", "a.yarn"] (some "") = .error (.missingValue "--compiler <CMD>") ∧
      IsRefused (parse ["compile", "-n", "Foo", "a.yarn", "--output-name=Bar", "--help"] none) :=
  ⟨(arguments_in_any_order (some "ysc")).1
      [.option .compiler .joined "yc", .input "b.yarn", .option .outputDirectory (.short 'o') "out",
        .flag, .input "a.yarn"]
      ["b.yarn", "a.yarn"] ⟨some "out", none, none, true, some "yc", none⟩
      ⟨by decide, by decide, by decide, by decide⟩ (by decide) (by decide),
    (arguments_in_any_order (some "")).2.1 [.input "a.yarn"] ["a.yarn"]
      ⟨none, none, none, false, none, none⟩ ⟨by decide, by decide, by decide, by decide⟩ rfl rfl,
    (arguments_in_any_order none).2.2
      [.option .outputName (.short 'n') "Foo", .input "a.yarn", .option .outputName .joined "Bar"]
      ["--help"] (by decide) (by decide)⟩

/-- An empty compiler of the environment does not make way for the default one. -/
theorem empty_preset_ne_default :
    parse ["compile", "a.yarn"] (some "")
      ≠ .ok (.compile ⟨[⟨"a.yarn"⟩], ⟨"."⟩, none, none, false, ⟨defaultCompiler⟩, .auto⟩) := by
  decide

end DialogueBuild.CommandLine
