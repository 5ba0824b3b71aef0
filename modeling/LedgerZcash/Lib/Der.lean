import Mathlib.Data.List.Basic
import Mathlib.Data.UInt

/-!
# DER, short forms

Elements with a tag and a length byte below 128, and an ECDSA signature as a sequence of
two integers of at most 256 bits.  `signature` writes one and `readSignature` reads
exactly what it writes (`readSignature_eq_some`), so that a signature has one encoding and
an encoding is of one signature.
-/

namespace LedgerZcash.Der

/-! ## Elements -/

/-- An element with a short length. -/
def element (tag : UInt8) (content : List UInt8) : List UInt8 :=
  tag :: UInt8.ofNat content.length :: content

/-- The content of a leading element, and what is behind it. -/
def takeElement (tag : UInt8) : List UInt8 → Option (List UInt8 × List UInt8)
  | t :: len :: rest =>
      if t = tag ∧ len < 0x80 ∧ len.toNat ≤ rest.length then
        some (rest.take len.toNat, rest.drop len.toNat)
      else none
  | _ => none

theorem toNat_length {content : List UInt8} (h : content.length < 128) :
    (UInt8.ofNat content.length).toNat = content.length := by
  rw [UInt8.toNat_ofNat']
  exact Nat.mod_eq_of_lt (by omega)

theorem takeElement_eq_some {tag : UInt8} {bytes content rest : List UInt8} :
    takeElement tag bytes = some (content, rest) ↔
      content.length < 128 ∧ bytes = element tag content ++ rest := by
  constructor
  · intro h
    unfold takeElement at h
    split at h
    · rename_i t len tail
      split at h
      · rename_i hcond
        obtain ⟨rfl, hshort, hle⟩ := hcond
        cases h
        have hlen : (tail.take len.toNat).length = len.toNat := List.length_take_of_le hle
        have hlt : len.toNat < 128 := UInt8.lt_iff_toNat_lt.mp hshort
        refine ⟨hlen.trans_lt hlt, ?_⟩
        rw [element, hlen, UInt8.ofNat_toNat, List.cons_append, List.cons_append,
          List.take_append_drop]
      · cases h
    · cases h
  · rintro ⟨hlt, rfl⟩
    have hlen := toNat_length hlt
    have hshort : UInt8.ofNat content.length < 0x80 :=
      UInt8.lt_iff_toNat_lt.mpr (hlen.trans_lt hlt)
    have hle : (UInt8.ofNat content.length).toNat ≤ (content ++ rest).length := by
      rw [hlen, List.length_append]
      exact Nat.le_add_right _ _
    rw [element, List.cons_append, List.cons_append, takeElement, if_pos ⟨rfl, hshort, hle⟩, hlen,
      List.take_left, List.drop_left]

/-! ## Integers -/

/-- The content of an integer: a number below `2 ^ 256`, with no byte more than needed and
with a zero in front when it would look negative. -/
inductive IsUInt256 : List UInt8 → Prop
  | zero : IsUInt256 [0]
  | plain {b : UInt8} {rest : List UInt8} (hpos : 0 < b) (hlow : b < 0x80)
      (hlen : rest.length < 32) : IsUInt256 (b :: rest)
  | padded {b : UInt8} {rest : List UInt8} (hhigh : 0x80 ≤ b) (hlen : rest.length < 32) :
      IsUInt256 (0 :: b :: rest)

theorem IsUInt256.length_le {bytes : List UInt8} (h : IsUInt256 bytes) : bytes.length ≤ 33 := by
  cases h with
  | zero => decide
  | plain _ _ hlen => exact Nat.succ_le_succ (hlen.le)
  | padded _ hlen => exact Nat.succ_le_succ hlen

instance : DecidablePred IsUInt256
  | [] => isFalse nofun
  | b :: rest =>
      if hzero : b = 0 then
        match rest with
        | [] => isTrue (hzero ▸ .zero)
        | c :: tail =>
            decidable_of_iff (0x80 ≤ c ∧ tail.length < 32) <| by
              subst hzero
              refine ⟨fun h ↦ .padded h.1 h.2, fun h ↦ ?_⟩
              cases h with
              | plain hpos => exact absurd hpos (UInt8.lt_irrefl _)
              | padded hhigh hlen => exact ⟨hhigh, hlen⟩
      else
        decidable_of_iff (b < 0x80 ∧ rest.length < 32) <| by
          refine ⟨fun h ↦ .plain (UInt8.pos_iff_ne_zero.mpr hzero) h.1 h.2, fun h ↦ ?_⟩
          cases h with
          | zero => exact absurd rfl hzero
          | plain _ hlow hlen => exact ⟨hlow, hlen⟩
          | padded => exact absurd rfl hzero

/-! ## Signatures -/

def sequenceTag : UInt8 := 0x30

def integerTag : UInt8 := 0x02

/-- The encoding of two integers, from their contents. -/
def signature (r s : List UInt8) : List UInt8 :=
  element sequenceTag (element integerTag r ++ element integerTag s)

/-- A strict encoding that fills its buffer. -/
def IsStrict (bytes : List UInt8) : Prop :=
  ∃ r s, IsUInt256 r ∧ IsUInt256 s ∧ bytes = signature r s

/-- The contents of the two integers of a strict encoding. -/
def readSignature (bytes : List UInt8) : Option (List UInt8 × List UInt8) := do
  let (content, behind) ← takeElement sequenceTag bytes
  let (r, rest) ← takeElement integerTag content
  let (s, rest) ← takeElement integerTag rest
  if behind = [] ∧ rest = [] ∧ IsUInt256 r ∧ IsUInt256 s then some (r, s) else none

theorem length_element (tag : UInt8) (content : List UInt8) :
    (element tag content).length = content.length + 2 := rfl

/-- The content of a signature is short. -/
theorem length_content_le {r s : List UInt8} (hr : IsUInt256 r) (hs : IsUInt256 s) :
    (element integerTag r ++ element integerTag s).length ≤ 70 := by
  have hr := hr.length_le
  have hs := hs.length_le
  rw [List.length_append, length_element, length_element]
  omega

theorem readSignature_eq_some {bytes r s : List UInt8} :
    readSignature bytes = some (r, s) ↔
      IsUInt256 r ∧ IsUInt256 s ∧ bytes = signature r s := by
  simp only [readSignature, Option.bind_eq_bind, Option.bind_eq_some_iff, Prod.exists,
    takeElement_eq_some, Option.ite_none_right_eq_some, Option.some.injEq, Prod.mk.injEq]
  constructor
  · rintro ⟨content, behind, ⟨-, rfl⟩, r, rest, ⟨-, rfl⟩, s, rest', ⟨-, rfl⟩,
      ⟨rfl, rfl, hr, hs⟩, rfl, rfl⟩
    refine ⟨hr, hs, ?_⟩
    rw [List.append_nil, List.append_nil, signature]
  · rintro ⟨hr, hs, rfl⟩
    have hcontent := length_content_le hr hs
    have hrlen := hr.length_le
    have hslen := hs.length_le
    exact ⟨_, [], ⟨by omega, (List.append_nil _).symm⟩, r, _, ⟨by omega, rfl⟩, s, [],
      ⟨by omega, (List.append_nil _).symm⟩, ⟨rfl, rfl, hr, hs⟩, rfl, rfl⟩

theorem isStrict_iff {bytes : List UInt8} :
    IsStrict bytes ↔ ∃ rs, readSignature bytes = some rs := by
  constructor
  · rintro ⟨r, s, hr, hs, h⟩
    exact ⟨(r, s), readSignature_eq_some.mpr ⟨hr, hs, h⟩⟩
  · rintro ⟨⟨r, s⟩, h⟩
    exact ⟨r, s, readSignature_eq_some.mp h⟩

/-- A strict encoding begins with the tag and the length of what follows. -/
theorem IsStrict.exists_content {bytes : List UInt8} (h : IsStrict bytes) :
    ∃ content, content.length < 128 ∧ bytes = element sequenceTag content := by
  obtain ⟨r, s, hr, hs, rfl⟩ := h
  exact ⟨_, (length_content_le hr hs).trans_lt (by decide), rfl⟩

end LedgerZcash.Der
