import DialogueBuild.Project.Definitions
import DialogueBuild.Proofs.Except
/-!
What a definitions document declares, and which of its faults is reported.

A function declares something if it has a name, types that are known, and parameters in a list.
Otherwise it has a first fault, in the order name, return type, parameters. A document declares what
its functions declare, unless one of them is faulty: then the first fault of the first faulty
function is all that is reported.

Results:

1. `declarationOf_eq_ok_iff`      a function is read as what it declares;
2. `declarationOf_eq_error_iff`   or its first fault is reported;
3. `declarationsFrom_eq_error_iff`  of several functions, that of the first one with a fault;
4. `first_fault_wins`             the same for every text of a document.
-/
namespace DialogueBuild.Definitions

open Json (Value)

/-! ## What functions declare -/

/-- The text under a key stands for a type. -/
def NamesType (key : String) (v : Value) (t : ValueType) : Prop :=
  ∃ name, v.member? key = some (.string name) ∧ ValueType.resolve? name = some t

/-- A function has parameters of these types. -/
inductive TakesTypes (function : Value) : List ValueType → Prop
  | absent (h : function.member? "Parameters" = none) : TakesTypes function []
  | null (h : function.member? "Parameters" = some .null) : TakesTypes function []
  | listed {parameters : List Value} {types : List ValueType}
      (h : function.member? "Parameters" = some (.array parameters))
      (htypes : List.Forall₂ (NamesType "Type") parameters types) : TakesTypes function types

/-- A function declares just this. -/
structure Declares (function : Value) (d : Declaration) : Prop where
  name : function.member? "YarnName" = some (.string d.name)
  returnType : NamesType "ReturnType" function d.returnType
  parameters : TakesTypes function d.parameters
  /-- Whatever is no text counts as no documentation. -/
  documentation : ∀ text, d.documentation = some text
    ↔ function.member? "Documentation" = some (.string text)

/-- There is no text under a key. -/
def LacksText (key : String) (v : Value) : Prop := ∀ text, v.member? key ≠ some (.string text)

/-- The text under a key stands for no type. -/
def NamesNoType (key : String) (v : Value) (name : String) : Prop :=
  v.member? key = some (.string name) ∧ ValueType.resolve? name = none

/-- The first fault of a parameter list, of the function with this name. -/
inductive ParametersFault (path : Path) (name : String) (function : Value) : Failure → Prop
  | notArray {v : Value} (h : function.member? "Parameters" = some v) (hnull : v ≠ .null)
      (harray : ∀ parameters, v ≠ .array parameters) :
      ParametersFault path name function (.definitions path (.parametersNotArray name))
  | missingType {front back : List Value} {parameter : Value}
      (h : function.member? "Parameters" = some (.array (front ++ parameter :: back)))
      (hfront : ∀ p ∈ front, ∃ t, NamesType "Type" p t) (hparameter : LacksText "Type" parameter) :
      ParametersFault path name function (.definitions path (.missingParameterType name))
  | unknownType {front back : List Value} {parameter : Value} {type : String}
      (h : function.member? "Parameters" = some (.array (front ++ parameter :: back)))
      (hfront : ∀ p ∈ front, ∃ t, NamesType "Type" p t)
      (hparameter : NamesNoType "Type" parameter type) :
      ParametersFault path name function (.unknownType type)

/-- The first fault of the function with this index. -/
inductive FirstFault (path : Path) (index : Nat) (function : Value) : Failure → Prop
  | missingName (h : LacksText "YarnName" function) :
      FirstFault path index function (.definitions path (.missingText index "YarnName"))
  | missingReturnType {name : String} (hname : function.member? "YarnName" = some (.string name))
      (h : LacksText "ReturnType" function) :
      FirstFault path index function (.definitions path (.missingText index "ReturnType"))
  | unknownReturnType {name type : String}
      (hname : function.member? "YarnName" = some (.string name))
      (h : NamesNoType "ReturnType" function type) :
      FirstFault path index function (.unknownType type)
  | parameters {name : String} {t : ValueType} {failure : Failure}
      (hname : function.member? "YarnName" = some (.string name))
      (hreturn : NamesType "ReturnType" function t)
      (h : ParametersFault path name function failure) :
      FirstFault path index function failure

/-! ## Reading functions -/

variable {path : Path} {index : Nat} {key name : String} {function : Value} {failure : Failure}

theorem bind_text?_eq_some_iff {v : Value} {text : String} :
    (v.member? key).bind Value.text? = some text ↔ v.member? key = some (.string text) := by
  cases v.member? key with
  | none => simp
  | some m => cases m <;> simp [Value.text?]

theorem bind_text?_eq_none_iff {v : Value} :
    (v.member? key).bind Value.text? = none ↔ LacksText key v := by
  simp only [Option.eq_none_iff_forall_ne_some, ne_eq, bind_text?_eq_some_iff, LacksText]

theorem textOf_eq_ok_iff {text : String} :
    textOf path index key function = .ok text ↔ function.member? key = some (.string text) := by
  unfold textOf
  rw [← bind_text?_eq_some_iff]
  split <;> simp [*]

theorem textOf_eq_error_iff :
    textOf path index key function = .error failure
      ↔ LacksText key function ∧ failure = .definitions path (.missingText index key) := by
  unfold textOf
  rw [← bind_text?_eq_none_iff]
  split <;> simp [*, eq_comm]

theorem resolveType_eq_ok_iff {t : ValueType} :
    resolveType name = .ok t ↔ ValueType.resolve? name = some t := by
  unfold resolveType
  split <;> simp [*]

theorem resolveType_eq_error_iff :
    resolveType name = .error failure
      ↔ ValueType.resolve? name = none ∧ failure = .unknownType name := by
  unfold resolveType
  split <;> simp [*, eq_comm]

theorem parameterOf_eq_ok_iff {parameter : Value} {t : ValueType} :
    parameterOf path name parameter = .ok t ↔ NamesType "Type" parameter t := by
  unfold parameterOf NamesType
  simp only [← bind_text?_eq_some_iff]
  split <;> simp [*, resolveType_eq_ok_iff]

theorem parameterOf_eq_error_iff {parameter : Value} :
    parameterOf path name parameter = .error failure
      ↔ LacksText "Type" parameter ∧ failure = .definitions path (.missingParameterType name)
        ∨ ∃ type, NamesNoType "Type" parameter type ∧ failure = .unknownType type := by
  unfold parameterOf NamesNoType
  simp only [← bind_text?_eq_some_iff, ← bind_text?_eq_none_iff]
  split
  · simp [*, resolveType_eq_error_iff]
  · simp [*, eq_comm]

/-- Either a function takes parameters or there is a first fault in them. -/
theorem parametersOf_cases (path : Path) (name : String) (function : Value) :
    (∃ types, parametersOf path name (function.member? "Parameters") = .ok types
        ∧ TakesTypes function types)
      ∨ ∃ failure, parametersOf path name (function.member? "Parameters") = .error failure
        ∧ ParametersFault path name function failure := by
  cases hm : function.member? "Parameters" with
  | none => exact .inl ⟨[], rfl, .absent hm⟩
  | some v =>
    cases v with
    | null => exact .inl ⟨[], rfl, .null hm⟩
    | array parameters =>
      simp only [parametersOf]
      cases hread : parameters.mapM (parameterOf path name) with
      | ok types =>
        exact .inl ⟨types, rfl,
          .listed hm ((mapM_eq_ok.mp hread).imp fun _ _ => parameterOf_eq_ok_iff.mp)⟩
      | error failure =>
        obtain ⟨front, parameter, back, rfl, hfront, hparameter⟩ := mapM_eq_error.mp hread
        simp only [parameterOf_eq_ok_iff] at hfront
        rcases parameterOf_eq_error_iff.mp hparameter with ⟨hlacks, rfl⟩ | ⟨type, htype, rfl⟩
        · exact .inr ⟨_, rfl, .missingType hm hfront hlacks⟩
        · exact .inr ⟨_, rfl, .unknownType hm hfront htype⟩
    | _ => exact .inr ⟨_, rfl, .notArray hm (by simp) (by simp)⟩

theorem parametersOf_eq_ok_iff {types : List ValueType} :
    parametersOf path name (function.member? "Parameters") = .ok types
      ↔ TakesTypes function types := by
  constructor
  · intro h
    rcases parametersOf_cases path name function with ⟨types', heq, htakes⟩ | ⟨failure, heq, -⟩
    · cases heq.symm.trans h
      exact htakes
    · cases heq.symm.trans h
  · intro h
    cases h with
    | absent h =>
      rw [h]
      rfl
    | null h =>
      rw [h]
      rfl
    | listed h htypes =>
      rw [h]
      exact mapM_eq_ok.mpr (htypes.imp fun _ _ => parameterOf_eq_ok_iff.mpr)

theorem parametersOf_eq_error_iff :
    parametersOf path name (function.member? "Parameters") = .error failure
      ↔ ParametersFault path name function failure := by
  constructor
  · intro h
    rcases parametersOf_cases path name function with ⟨types, heq, -⟩ | ⟨failure', heq, hfault⟩
    · cases heq.symm.trans h
    · cases heq.symm.trans h
      exact hfault
  · intro h
    have hread {front : List Value} (hfront : ∀ p ∈ front, ∃ t, NamesType "Type" p t) :
        ∀ p ∈ front, ∃ t, parameterOf path name p = .ok t :=
      fun p hp => (hfront p hp).imp fun _ => parameterOf_eq_ok_iff.mpr
    cases h with
    | @notArray v hm hnull harray =>
      rw [hm]
      cases v with
      | null => exact absurd rfl hnull
      | array parameters => exact absurd rfl (harray parameters)
      | _ => rfl
    | missingType hm hfront hlacks =>
      rw [hm]
      exact mapM_eq_error.mpr ⟨_, _, _, rfl, hread hfront,
        parameterOf_eq_error_iff.mpr (.inl ⟨hlacks, rfl⟩)⟩
    | unknownType hm hfront htype =>
      rw [hm]
      exact mapM_eq_error.mpr ⟨_, _, _, rfl, hread hfront,
        parameterOf_eq_error_iff.mpr (.inr ⟨_, htype, rfl⟩)⟩

/-- A function is read as what it declares. -/
theorem declarationOf_eq_ok_iff {d : Declaration} :
    declarationOf path index function = .ok d ↔ Declares function d := by
  unfold declarationOf
  simp only [bind_eq_ok, textOf_eq_ok_iff, resolveType_eq_ok_iff, parametersOf_eq_ok_iff]
  constructor
  · rintro ⟨name, hname, type, htype, t, ht, parameters, hparameters, h⟩
    cases h
    exact ⟨hname, ⟨type, htype, ht⟩, hparameters, fun _ => bind_text?_eq_some_iff⟩
  · rintro ⟨hname, ⟨type, htype, ht⟩, hparameters, hdocumentation⟩
    refine ⟨d.name, hname, type, htype, d.returnType, ht, d.parameters, hparameters, ?_⟩
    have hsame : (function.member? "Documentation").bind Value.text? = d.documentation :=
      Option.ext fun text => bind_text?_eq_some_iff.trans (hdocumentation text).symm
    rw [hsame]
    rfl

/-- If a function declares nothing, its first fault is reported. -/
theorem declarationOf_eq_error_iff :
    declarationOf path index function = .error failure
      ↔ FirstFault path index function failure := by
  unfold declarationOf
  simp only [bind_eq_error, textOf_eq_ok_iff, textOf_eq_error_iff, resolveType_eq_ok_iff,
    resolveType_eq_error_iff, parametersOf_eq_error_iff]
  constructor
  · rintro (⟨hlacks, rfl⟩ | ⟨name, hname, ⟨hlacks, rfl⟩ | ⟨type, htype, ⟨hnone, rfl⟩ | ⟨t, ht, h⟩⟩⟩)
    · exact .missingName hlacks
    · exact .missingReturnType hname hlacks
    · exact .unknownReturnType hname ⟨htype, hnone⟩
    · rcases h with hfault | ⟨parameters, -, h⟩
      · exact .parameters hname ⟨type, htype, ht⟩ hfault
      · cases h
  · intro h
    cases h with
    | missingName hlacks => exact .inl ⟨hlacks, rfl⟩
    | missingReturnType hname hlacks => exact .inr ⟨_, hname, .inl ⟨hlacks, rfl⟩⟩
    | unknownReturnType hname htype => exact .inr ⟨_, hname, .inr ⟨_, htype.1, .inl ⟨htype.2, rfl⟩⟩⟩
    | parameters hname hreturn hfault =>
      obtain ⟨type, htype, ht⟩ := hreturn
      exact .inr ⟨_, hname, .inr ⟨_, htype, .inr ⟨_, ht, .inl hfault⟩⟩⟩

/-! ## Reading documents -/

theorem declarationsFrom_eq_ok_iff {functions : List Value} {ds : List Declaration} :
    declarationsFrom path index functions = .ok ds ↔ List.Forall₂ Declares functions ds := by
  induction functions generalizing index ds with
  | nil => cases ds <;> simp [declarationsFrom]
  | cons function rest ih =>
    simp only [declarationsFrom, bind_eq_ok, declarationOf_eq_ok_iff, ih]
    constructor
    · rintro ⟨d, hd, others, hothers, h⟩
      cases h
      exact .cons hd hothers
    · rintro (_ | ⟨hd, hothers⟩)
      exact ⟨_, hd, _, hothers, rfl⟩

/-- Of several functions, the first fault of the first faulty one is reported. -/
theorem declarationsFrom_eq_error_iff {functions : List Value} :
    declarationsFrom path index functions = .error failure
      ↔ ∃ front function back, functions = front ++ function :: back
        ∧ (∀ f ∈ front, ∃ d, Declares f d)
        ∧ FirstFault path (index + front.length) function failure := by
  induction functions generalizing index with
  | nil => simp [declarationsFrom]
  | cons function rest ih =>
    simp only [declarationsFrom, bind_eq_error, declarationOf_eq_ok_iff,
      declarationOf_eq_error_iff, ih]
    constructor
    · rintro (hfault | ⟨d, hd, ⟨front, f, back, rfl, hfront, hfault⟩ | ⟨_, _, h⟩⟩)
      · exact ⟨[], function, rest, rfl, by simp, hfault⟩
      · refine ⟨function :: front, f, back, rfl, List.forall_mem_cons.mpr ⟨⟨d, hd⟩, hfront⟩, ?_⟩
        rwa [List.length_cons, Nat.add_comm front.length, ← Nat.add_assoc]
      · cases h
    · rintro ⟨front, f, back, hsplit, hfront, hfault⟩
      cases front with
      | nil =>
        cases hsplit
        exact .inl hfault
      | cons g front =>
        cases hsplit
        obtain ⟨⟨d, hd⟩, hfront⟩ := List.forall_mem_cons.mp hfront
        rw [List.length_cons, Nat.add_comm front.length, ← Nat.add_assoc] at hfault
        exact .inr ⟨d, hd, .inl ⟨front, f, back, rfl, hfront, hfault⟩⟩

theorem functionsOf_of_array {root : Value} {functions : List Value}
    (h : root.member? "Functions" = some (.array functions)) : functionsOf root = functions := by
  rw [functionsOf, h]
  rfl

theorem functionsOf_of_not_array {root : Value}
    (h : ∀ functions, root.member? "Functions" ≠ some (.array functions)) :
    functionsOf root = [] := by
  unfold functionsOf
  cases hm : root.member? "Functions" with
  | none => rfl
  | some v =>
    cases v with
    | array functions => exact absurd hm (h functions)
    | _ => rfl

/-- The first fault wins. A text that is no document is reported as such. A document without a list
of functions declares nothing. From a list, one declaration is read for each function in its place
if all of them declare something; if not, nothing is read, and the report is of the first fault of
the first function that has one, whatever comes behind it. -/
theorem first_fault_wins (path : Path) (text : String) :
    (∀ problem, Value.ofText text = .error problem →
        ofText path text = .error (.definitions path (.unreadable problem)))
      ∧ ∀ root, Value.ofText text = .ok root →
        ((∀ functions, root.member? "Functions" ≠ some (.array functions)) →
          ofText path text = .ok [])
        ∧ ∀ functions, root.member? "Functions" = some (.array functions) →
          (∀ ds, ofText path text = .ok ds ↔ List.Forall₂ Declares functions ds)
          ∧ ((∃ ds, ofText path text = .ok ds) ↔ ∀ f ∈ functions, ∃ d, Declares f d)
          ∧ ∀ failure, ofText path text = .error failure
            ↔ ∃ front f back, functions = front ++ f :: back ∧ (∀ g ∈ front, ∃ d, Declares g d)
              ∧ FirstFault path front.length f failure := by
  constructor
  · intro problem h
    rw [ofText, h]
  · intro root h
    have hread : ofText path text = declarationsFrom path 0 (functionsOf root) := by
      rw [ofText, h]
    rw [hread]
    constructor
    · intro hnone
      have hfunctions : functionsOf root = [] := functionsOf_of_not_array hnone
      rw [hfunctions]
      rfl
    · intro functions hlist
      have hfunctions : functionsOf root = functions := functionsOf_of_array hlist
      rw [hfunctions]
      refine ⟨fun ds => declarationsFrom_eq_ok_iff, ?_, fun failure => ?_⟩
      · simp only [declarationsFrom_eq_ok_iff, exists_forall₂_iff]
      · rw [declarationsFrom_eq_error_iff]
        simp only [Nat.zero_add]

/-- A function that declares something, one with two faulty parameters, and one without a name. -/
theorem first_fault_wins_second :
    let roll : Value := .object [("YarnName", .string "roll"), ("ReturnType", .string "Number")]
    let parameters : List Value := [.object [("Type", .string "list")], .object []]
    let pick : Value :=
      .object [("YarnName", .string "pick"), ("ReturnType", .string "any"),
        ("Parameters", .array parameters)]
    let root : Value := .object [("Functions", .array [roll, pick, .object []])]
    let text := "\x7b\"Functions\": [\x7b\"YarnName\": \"roll\", \"ReturnType\": \"Number\"\x7d,"
      ++ "\x7b\"YarnName\": \"pick\", \"ReturnType\": \"any\","
      ++ "\"Parameters\": [\x7b\"Type\": \"list\"\x7d, \x7b\x7d]\x7d, \x7b\x7d]\x7d"
    Value.ofText text = .ok root ∧ Declares roll ⟨"roll", .number, [], none⟩
      ∧ FirstFault ⟨"defs.json"⟩ 1 pick (.unknownType "list")
      ∧ ofText ⟨"defs.json"⟩ text = .error (.unknownType "list") := by
  intro roll parameters pick root text
  have htext : Value.ofText text = .ok root := by
    unfold text root pick parameters roll
    cbv
  have hroll : Declares roll ⟨"roll", .number, [], none⟩ :=
    ⟨rfl, ⟨"Number", rfl, rfl⟩, .absent rfl, by simp [roll, Value.member?, findEntry?]⟩
  have hpick : FirstFault ⟨"defs.json"⟩ 1 pick (.unknownType "list") :=
    .parameters rfl ⟨"any", rfl, rfl⟩
      (.unknownType (show pick.member? _ = some (.array ([] ++ _ :: _)) from rfl) (by simp)
        ⟨rfl, rfl⟩)
  obtain ⟨-, hdocument⟩ := first_fault_wins ⟨"defs.json"⟩ text
  obtain ⟨-, hlisted⟩ := hdocument root htext
  obtain ⟨-, -, hfault⟩ := hlisted [roll, pick, .object []] rfl
  refine ⟨htext, hroll, hpick, (hfault _).mpr ⟨[roll], pick, [.object []], rfl, ?_, hpick⟩⟩
  exact List.forall_mem_singleton.mpr ⟨_, hroll⟩

end DialogueBuild.Definitions
