import Mathlib.Data.List.Lex
import Mathlib.Data.String.Basic

/-!
# The order of texts by their bytes

Texts are compared character by character. In UTF-8 that comes to the same as comparing them byte by
byte (`compare_eq_lt_iff_bytes`): of two characters the greater has the greater bytes, at the first
place where they differ, and none begins with all bytes of another (`utf8EncodeChar_lt`).
-/

namespace PluralForms.Text

/-- The bytes of a text in UTF-8. -/
def bytes (text : String) : List UInt8 :=
  text.toByteArray.data.toList

theorem bytes_eq_flatMap (text : String) :
    bytes text = text.toList.flatMap String.utf8EncodeChar := by
  rw [bytes, ← String.utf8Encode_toList, List.utf8Encode, List.toList_data_toByteArray]

/-- The smaller of two characters has the smaller bytes, whatever comes after them. -/
theorem utf8EncodeChar_lt {c d : Char} (h : c < d) (s t : List UInt8) :
    String.utf8EncodeChar c ++ s < String.utf8EncodeChar d ++ t := by
  have hlt : c.val.toNat < d.val.toNat := h
  have hd : d.val.toNat < 0x110000 := by
    have hvalid := d.valid
    simp only [UInt32.isValidChar, Nat.isValidChar] at hvalid
    omega
  -- six bits at a time, from the end
  have htwice : ∀ n, n / 4096 = n / 64 / 64 := fun n ↦ by omega
  have hthrice : ∀ n, n / 262144 = n / 64 / 64 / 64 := fun n ↦ by omega
  unfold String.utf8EncodeChar
  generalize c.val.toNat = v at hlt ⊢
  generalize d.val.toNat = w at hlt hd ⊢
  dsimp only
  split_ifs <;> simp only [List.cons_append, List.nil_append, List.cons_lt_cons_iff,
    UInt8.lt_iff_toNat_lt, ← UInt8.toNat_inj, UInt8.toNat_ofNat', htwice, hthrice] <;> omega

/-- **Texts are encoded in their order.** -/
theorem flatMap_utf8EncodeChar_lt {cs ds : List Char} (h : cs < ds) :
    cs.flatMap String.utf8EncodeChar < ds.flatMap String.utf8EncodeChar := by
  induction h with
  | @nil d ds =>
    rcases hbytes : String.utf8EncodeChar d with _ | ⟨byte, rest⟩
    · exact absurd hbytes String.utf8EncodeChar_ne_nil
    · rw [List.flatMap_cons, hbytes]
      exact List.nil_lt_cons _ _
  | rel hcd =>
    rw [List.flatMap_cons, List.flatMap_cons]
    exact utf8EncodeChar_lt hcd _ _
  | cons _ ih =>
    rw [List.flatMap_cons, List.flatMap_cons]
    exact List.append_left_lt ih

/-- **The order of texts is the order of their bytes.** -/
theorem compare_eq_lt_iff_bytes {a b : String} : compare a b = .lt ↔ bytes a < bytes b := by
  have hmono : ∀ {a b : String}, a < b → bytes a < bytes b := fun h ↦ by
    rw [bytes_eq_flatMap, bytes_eq_flatMap]
    exact flatMap_utf8EncodeChar_lt (String.lt_iff.1 h)
  rw [compare_lt_iff_lt]
  refine ⟨hmono, fun h ↦ ?_⟩
  rcases lt_trichotomy a b with hlt | rfl | hgt
  · exact hlt
  · exact absurd h (List.lt_irrefl _)
  · exact absurd h (List.lt_asymm (hmono hgt))

end PluralForms.Text
