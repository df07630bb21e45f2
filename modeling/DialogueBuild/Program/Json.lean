import DialogueBuild.Program.Basic
/-!
Programs as documents. Compilers write field names that start in lower case; outputs have names
that start with a capital, and operands and opcodes as plain values.
-/
namespace DialogueBuild

open Json (Value Decoder Form Field)

/-! ## Reading -/

def OpCode.decode : Decoder OpCode := Json.decodeVariant variants

def Operand.decode : Decoder Operand := fun room t => do
  match ofValue (← Json.decodeValue room t) with
  | .ok operand => return operand
  | .error refusal => throw (.refused refusal.message)

def Instruction.form : Form Instruction where
  record := "Instruction"
  fields :=
    [.mustHave "opcode" OpCode.decode fun v i => { i with opcode := v },
     .mayHave "operands" (Json.decodeList Operand.decode) fun v i => { i with operands := v }]
  blank := ⟨.stop, []⟩

def Instruction.decode : Decoder Instruction := Instruction.form.decode

def Header.form : Form Header where
  record := "Header"
  fields :=
    [.mustHave "key" Json.decodeString fun v h => { h with key := v },
     .mayHave "value" Json.decodeString fun v h => { h with value := v }]
  blank := ⟨"", ""⟩

def Header.decode : Decoder Header := Header.form.decode

def Node.form : Form Node where
  record := "Node"
  fields :=
    [.mayHave "name" Json.decodeString fun v n => { n with name := v },
     .mayHave "instructions" (Json.decodeList Instruction.decode)
       fun v n => { n with instructions := v },
     .mayHave "labels" (Json.decodeTable Json.int32) fun v n => { n with labels := v },
     .mayHave "tags" (Json.decodeList Json.decodeString) fun v n => { n with tags := v },
     .mayHave "sourceTextStringID" (Json.decodeOption Json.decodeString)
       fun v n => { n with sourceTextId := v },
     .mayHave "headers" (Json.decodeList Header.decode) fun v n => { n with headers := v }]
  blank := ⟨"", [], .empty, [], none, []⟩

def Node.decode : Decoder Node := Node.form.decode

def Program.form : Form Program where
  record := "Program"
  fields :=
    [.mayHave "name" Json.decodeString fun v p => { p with name := v },
     .mayHave "nodes" (Json.decodeTable Node.decode) fun v p => { p with nodes := v },
     .mayHave "initialValues" (Json.decodeTable Operand.decode)
       fun v p => { p with initialValues := v }]
  blank := ⟨"", .empty, .empty⟩

def Program.decode : Decoder Program := Program.form.decode

/-! ## Writing -/

/-- An absent text is null. -/
def optionalText : Option String → Value
  | some s => .string s
  | none => .null

def OpCode.toJson (c : OpCode) : Value := c.plain.toJson

def Operand.toJson (o : Operand) : Value := o.plain.toJson

def Instruction.toJson (i : Instruction) : Value :=
  .object [("Opcode", i.opcode.toJson), ("Operands", .array (i.operands.map Operand.toJson))]

def Header.toJson (h : Header) : Value :=
  .object [("Key", .string h.key), ("Value", .string h.value)]

def Node.toJson (n : Node) : Value :=
  .object
    [("Name", .string n.name),
     ("Instructions", .array (n.instructions.map Instruction.toJson)),
     ("Labels", .ofTable .ofInt32 n.labels),
     ("Tags", .ofTexts n.tags),
     ("SourceTextStringID", optionalText n.sourceTextId),
     ("Headers", .array (n.headers.map Header.toJson))]

def Program.toJson (p : Program) : Value :=
  .object
    [("Name", .string p.name),
     ("Nodes", .ofTable Node.toJson p.nodes),
     ("InitialValues", .ofTable Operand.toJson p.initialValues)]

end DialogueBuild
