import DialogueBuild.Proofs.Documents
import DialogueBuild.Proofs.Json.Compact
import DialogueBuild.Proofs.Json.Rereading
import DialogueBuild.Proofs.WireFormat
/-!
Operands that are read back from their texts.

The text of an operand is read as an operand of its kind, and as the operand itself unless it is a
float: the reader rounds the digits, the power of ten and the result one after the other, so that a
float may come back a few last binary digits away.

Results:

1. `Operand.decode_plain`      the text of an operand is decoded as what its tree stands for;
2. `Operand.recovers`          every operand with a finite float comes back, if not quite the same;
3. `exists_operand_changed`    and one of them does not come back the same.
-/
namespace DialogueBuild

open Json

namespace Operand

/-- What an operand is read back as. -/
inductive ReadAs : Operand → Operand → Prop
  | unset : ReadAs .unset .unset
  | bool (b : Bool) : ReadAs (.bool b) (.bool b)
  | string (s : String) : ReadAs (.string s) (.string s)
  | float {x y : Float} (h : Json.ReadAs x y) : ReadAs (.float x) (.float y)

theorem tree_float {x : Float} (h : x.isFinite) :
    (Operand.float x).toJson.tree = .scalar (.number (floatNumeral x)) := by
  show (Value.ofFloat x).tree = _
  rw [Value.ofFloat, if_pos h]
  rfl

/-- The tree of an operand is written as what the operand is read back as. -/
theorem exists_rendersPlain {o : Operand} (h : o.IsFinite) :
    ∃ p, o.ReadAs p ∧ p.RendersPlain o.toJson.tree := by
  cases o with
  | unset => exact ⟨_, .unset, .unset⟩
  | bool b => exact ⟨_, .bool b, .bool b⟩
  | string s => exact ⟨_, .string s, .string s⟩
  | float x =>
    have hx : x.isFinite := h
    obtain ⟨y, hy, hread⟩ := number_floatNumeral hx
    refine ⟨.float y, .float hread, ?_⟩
    rw [tree_float hx]
    exact .float hy

theorem decode_plain {o p : Operand} (h : p.RendersPlain o.toJson.tree) :
    decodeText? decode o.toJson.text = .ok p :=
  decode_text o.finite_toJson (decodes_operand p _ (.plain h) _ (by decide))

/-- Every operand, if it is no float that is not finite, is read back from its text as an operand of
its kind: as itself, or as a float with its sign that is at most six last binary digits away, and
not away at all if the digits and the power of ten of the text fit into doubles. -/
theorem recovers {o : Operand} (h : o.IsFinite) :
    ∃ p, decodeText? decode o.toJson.text = .ok p ∧ o.ReadAs p := by
  obtain ⟨p, hread, hrenders⟩ := exists_rendersPlain h
  exact ⟨p, decode_plain hrenders, hread⟩

/-- Minus a quarter is read back as itself. -/
theorem recovers_quarter :
    (Operand.float (.ofBits 0xBFD0000000000000)).IsFinite
      ∧ decodeText? decode (Operand.float (.ofBits 0xBFD0000000000000)).toJson.text
        = .ok (.float (.ofBits 0xBFD0000000000000)) := by
  have hfinite : (Operand.float (.ofBits 0xBFD0000000000000)).IsFinite := by
    show (Float.ofBits 0xBFD0000000000000).isFinite
    decide +kernel
  have hfits : (floatNumeral (.ofBits 0xBFD0000000000000)).Fits := by decide +kernel
  obtain ⟨p, hp, hread⟩ := recovers hfinite
  cases hread with
  | float h =>
    rw [h.exact hfits] at hp
    exact ⟨hfinite, hp⟩

/-- The float 9007199254740991 is written with a zero behind its point, and so with one digit more
than fits: it is read back as 9007199254740990. -/
theorem exists_operand_changed :
    ∃ o p : Operand, o.IsFinite ∧ decodeText? decode o.toJson.text = .ok p ∧ o.same p = false := by
  have hfinite : (Float.ofBits 0x433FFFFFFFFFFFFF).isFinite := by decide +kernel
  have hsign : Decimal.isNegative (.ofBits 0x433FFFFFFFFFFFFF) = false := by decide +kernel
  have hread : (floatNumeral (.ofBits 0x433FFFFFFFFFFFFF)).magnitude?.map Float.toBits
      = some 0x433FFFFFFFFFFFFE := by decide +kernel
  have hchanged : (Float.ofBits 0x433FFFFFFFFFFFFF == .ofBits 0x433FFFFFFFFFFFFE) = false := by
    decide +kernel
  obtain ⟨y, hy, hbits⟩ := Option.map_eq_some_iff.mp hread
  obtain rfl : y = .ofBits 0x433FFFFFFFFFFFFE := Decimal.eq_of_toBits_eq hbits
  have hnumber := number_eq hy
  rw [hsign, if_neg Bool.false_ne_true] at hnumber
  refine ⟨.float (.ofBits 0x433FFFFFFFFFFFFF), .float (.ofBits 0x433FFFFFFFFFFFFE), hfinite,
    decode_plain ?_, hchanged⟩
  rw [tree_float hfinite]
  exact .float hnumber

end Operand

end DialogueBuild
