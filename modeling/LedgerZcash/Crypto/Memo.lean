import Mathlib.Data.List.TakeWhile
import LedgerZcash.Crypto.Balance
import LedgerZcash.Crypto.Decrypt

/-!
# A memo from the sender to the recipient

The builder pads the bytes of a memo with zeros, and `decodeMemo` reads them up to the
first zero.  In UTF-8 a zero byte is a NUL character and nothing else
(`zero_mem_utf8EncodeChar`), so that what arrives is the text before the first NUL
(`decodeMemo_memoBytes`): the whole text when it has none, and less when it has one, also
in its middle.
-/

namespace LedgerZcash

open Hex

/-! ## Zeros in UTF-8 -/

/-- The bytes of a longer encoding have their highest bit set. -/
theorem zero_ne_ofNat_mod_add {n m k : Nat} (hm : 0 < m) (hk : 0 < k) (h : m + k ≤ 256) :
    0 ≠ UInt8.ofNat (n % m + k) := by
  intro hzero
  have hlt : n % m + k < 256 := (Nat.add_lt_add_right (Nat.mod_lt n hm) k).trans_le h
  have hnat : 0 = (UInt8.ofNat (n % m + k)).toNat := congrArg UInt8.toNat hzero
  rw [UInt8.toNat_ofNat', Nat.mod_eq_of_lt hlt] at hnat
  omega

theorem zero_mem_utf8EncodeChar {c : Char} : 0 ∈ String.utf8EncodeChar c ↔ c = '\x00' := by
  constructor
  · intro h
    simp only [String.utf8EncodeChar] at h
    split at h
    · rename_i hle
      have hlt : c.val.toNat < 256 := hle.trans_lt (by decide)
      have hbyte : 0 = (UInt8.ofNat c.val.toNat).toNat :=
        congrArg UInt8.toNat (List.mem_singleton.mp h)
      rw [UInt8.toNat_ofNat', Nat.mod_eq_of_lt hlt] at hbyte
      exact Char.ext (UInt32.toNat_inj.mp hbyte.symm)
    · exfalso
      split at h
      · simp only [List.mem_cons, List.not_mem_nil, or_false] at h
        rcases h with h | h <;>
          exact zero_ne_ofNat_mod_add (by decide) (by decide) (by decide) h
      · split at h
        · simp only [List.mem_cons, List.not_mem_nil, or_false] at h
          rcases h with h | h | h <;>
            exact zero_ne_ofNat_mod_add (by decide) (by decide) (by decide) h
        · simp only [List.mem_cons, List.not_mem_nil, or_false] at h
          rcases h with h | h | h | h <;>
            exact zero_ne_ofNat_mod_add (by decide) (by decide) (by decide) h
  · rintro rfl
    decide

/-- What stands before the first zero of padded UTF-8. -/
theorem takeWhile_utf8 (l : List Char) (n : Nat) :
    (l.flatMap String.utf8EncodeChar ++ List.replicate n 0).takeWhile (· ≠ 0) =
      (l.takeWhile (· ≠ '\x00')).flatMap String.utf8EncodeChar := by
  induction l with
  | nil => cases n <;> rfl
  | cons c l ih =>
      by_cases hc : c = '\x00'
      · subst hc
        rfl
      · have hbytes : ∀ b ∈ String.utf8EncodeChar c, decide (b ≠ 0) = true := by
          intro b hb
          refine decide_eq_true ?_
          rintro rfl
          exact hc (zero_mem_utf8EncodeChar.mp hb)
        have hkeep : (c :: l).takeWhile (· ≠ '\x00') = c :: l.takeWhile (· ≠ '\x00') :=
          List.takeWhile_cons_of_pos (by simpa using hc)
        rw [List.flatMap_cons, List.append_assoc, List.takeWhile_append_of_pos hbytes, ih, hkeep,
          List.flatMap_cons]

/-- UTF-8 is read as the text that it encodes. -/
theorem fromUTF8?_flatMap (l : List Char) :
    String.fromUTF8? ⟨(l.flatMap String.utf8EncodeChar).toArray⟩ = some (String.ofList l) := by
  have hbytes : (⟨(l.flatMap String.utf8EncodeChar).toArray⟩ : ByteArray) = l.utf8Encode := by
    refine ByteArray.ext ?_
    rw [List.utf8Encode, List.data_toByteArray]
  rw [hbytes, String.fromUTF8?, dif_pos ByteArray.isValidUTF8_utf8Encode, Option.some.injEq,
    ← String.toByteArray_inj, String.toByteArray_ofList]
  rfl

/-! ## The round trip -/

section Memo

variable {Path : Type} {T : CraftTypes Path} (P : CraftUpstream T)

/-- A text of at most 512 bytes is encoded. -/
theorem encodeMemo_utf8 {s : String} (h : (utf8Bytes s).length ≤ 512) :
    ∃ m, encodeMemo P (some (utf8Bytes s)) = .ok m ∧ m.1 = memoBytes (some (utf8Bytes s)) :=
  ⟨_, dif_pos h, rfl⟩

/-- What the recipient reads: the text before its first NUL. -/
theorem decodeMemo_memoBytes (s : String) :
    decodeMemo (memoBytes (some (utf8Bytes s))) =
      String.ofList (s.toList.takeWhile (· ≠ '\x00')) := by
  show (String.fromUTF8? ⟨(List.takeWhile (· ≠ 0) (utf8Bytes s ++ _)).toArray⟩).getD "" = _
  rw [utf8Bytes, takeWhile_utf8, fromUTF8?_flatMap]
  rfl

theorem ofList_takeWhile_eq_iff {s : String} :
    String.ofList (s.toList.takeWhile (· ≠ '\x00')) = s ↔ '\x00' ∉ s.toList := by
  rw [← String.toList_inj, String.toList_ofList, List.takeWhile_eq_self_iff]
  simp only [decide_eq_true_eq]
  exact ⟨fun h hmem ↦ h _ hmem rfl, fun h c hc heq ↦ h (heq ▸ hc)⟩

/-- A memo that the builder takes arrives as it was entered exactly when no character of it is
NUL. -/
theorem memo_survives_iff (s : String) (h : (utf8Bytes s).length ≤ 512) :
    ∃ m, encodeMemo P (some (utf8Bytes s)) = .ok m ∧
      (decodeMemo m.1 = s ↔ '\x00' ∉ s.toList) := by
  obtain ⟨m, hm, hbytes⟩ := encodeMemo_utf8 P h
  refine ⟨m, hm, ?_⟩
  rw [hbytes, decodeMemo_memoBytes]
  exact ofList_takeWhile_eq_iff

theorem memo_survives_iff_greeting :
    ∃ m, encodeMemo (permissive Unit) (some (utf8Bytes "grüße")) = .ok m ∧
      (decodeMemo m.1 = "grüße" ↔ '\x00' ∉ "grüße".toList) :=
  memo_survives_iff (permissive Unit) "grüße" (by decide)

/-- A NUL in the middle: the text behind it is lost. -/
theorem memo_cut_at_nul :
    (utf8Bytes "a\x00b").length ≤ 512 ∧ "a\x00b".toList.getLast? ≠ some '\x00' ∧
      ∃ m, encodeMemo (permissive Unit) (some (utf8Bytes "a\x00b")) = .ok m ∧
        decodeMemo m.1 ≠ "a\x00b" := by
  have hlen : (utf8Bytes "a\x00b").length ≤ 512 := by decide
  obtain ⟨m, hm, hbytes⟩ := encodeMemo_utf8 (permissive Unit) hlen
  refine ⟨hlen, by decide, m, hm, ?_⟩
  rw [hbytes, decodeMemo_memoBytes]
  decide

end Memo

end LedgerZcash
