import LedgerZcash.Lib.Der
import LedgerZcash.Crypto.Signatures

/-!
# What the device may send as a DER signature

The device marks an odd `y` in the header of a signature and may put the sighash type
behind it, so that a strict encoding comes in four forms (`deviceForm`).
`parseTransparentDer` tells them apart by the header and by the length that it declares:
it undoes a form and no more (`normalize_deviceForm`, `exists_deviceForm`).
-/

namespace LedgerZcash

open Collect Der

/-! ## The forms -/

/-- The device marks an odd `y` in the lowest bit of the header. -/
def setParityBit : List UInt8 → List UInt8
  | tag :: rest => (tag ||| 1) :: rest
  | [] => []

/-- A signature as the device sends it, marked or not, with a byte behind it or not. -/
def deviceForm (odd : Bool) (sighashType : Option UInt8) (der : List UInt8) : List UInt8 :=
  (if odd then setParityBit der else der) ++ sighashType.toList

/-- The two normalizations. -/
def normalizeDer (bytes : List UInt8) : List UInt8 := stripSighashType (resetParityBit bytes)

theorem resetParityBit_deviceForm (odd : Bool) (sighashType : Option UInt8)
    (content : List UInt8) :
    resetParityBit (deviceForm odd sighashType (element sequenceTag content)) =
      element sequenceTag content ++ sighashType.toList := by
  cases odd <;> rfl

theorem stripSighashType_append {content : List UInt8} (h : content.length < 128) (tag : UInt8)
    (sighashType : Option UInt8) :
    stripSighashType (element tag content ++ sighashType.toList) = element tag content := by
  have hlen := toNat_length h
  have hshort : UInt8.ofNat content.length < 0x80 := UInt8.lt_iff_toNat_lt.mpr (hlen.trans_lt h)
  cases sighashType with
  | none =>
      rw [Option.toList_none, List.append_nil, element, stripSighashType, if_neg]
      rintro ⟨-, hmore⟩
      omega
  | some b =>
      have hmore : (content ++ [b]).length = (UInt8.ofNat content.length).toNat + 1 := by
        rw [hlen, List.length_append, List.length_singleton]
      show stripSighashType (tag :: UInt8.ofNat content.length :: (content ++ [b])) = _
      rw [stripSighashType, if_pos ⟨hshort, hmore⟩, hlen, List.take_left]
      rfl

/-- Normalizing undoes each form. -/
theorem normalize_deviceForm {der : List UInt8} (h : IsStrict der) (odd : Bool)
    (sighashType : Option UInt8) : normalizeDer (deviceForm odd sighashType der) = der := by
  obtain ⟨content, hlt, rfl⟩ := h.exists_content
  rw [normalizeDer, resetParityBit_deviceForm, stripSighashType_append hlt]

/-- At most one byte is taken off. -/
theorem exists_sighashType (bytes : List UInt8) :
    ∃ sighashType : Option UInt8, bytes = stripSighashType bytes ++ sighashType.toList := by
  unfold stripSighashType
  split
  · rename_i tag len content
    split
    · rename_i hcond
      obtain ⟨last, hlast⟩ : ∃ last, content.drop len.toNat = [last] := by
        rw [← List.length_eq_one_iff, List.length_drop, hcond.2]
        exact Nat.add_sub_cancel_left _ _
      refine ⟨some last, ?_⟩
      rw [List.cons_append, List.cons_append, Option.toList_some, ← hlast, List.take_append_drop]
    · exact ⟨none, (List.append_nil _).symm⟩
  · exact ⟨none, (List.append_nil _).symm⟩

theorem resetParityBit_cases (bytes : List UInt8) :
    resetParityBit bytes = bytes ∨ ∃ rest, bytes = 0x31 :: rest ∧
      resetParityBit bytes = 0x30 :: rest := by
  unfold resetParityBit
  split
  · exact .inr ⟨_, rfl, rfl⟩
  · exact .inl rfl

/-- What normalizes to a strict encoding is one of its forms. -/
theorem exists_deviceForm {bytes : List UInt8} (h : IsStrict (normalizeDer bytes)) :
    ∃ odd sighashType, bytes = deviceForm odd sighashType (normalizeDer bytes) := by
  obtain ⟨sighashType, hbytes⟩ := exists_sighashType (resetParityBit bytes)
  rcases resetParityBit_cases bytes with hsame | ⟨rest, hodd, hreset⟩
  · exact ⟨false, sighashType, hsame.symm.trans hbytes⟩
  · obtain ⟨content, -, hder⟩ := h.exists_content
    refine ⟨true, sighashType, ?_⟩
    have hrest : 0x30 :: rest = element sequenceTag content ++ sighashType.toList := by
      rw [← hreset, ← hder]
      exact hbytes
    rw [hder, hodd, (List.cons.inj hrest).2]
    rfl

/-! ## The parser -/

section Parser

variable {Path : Type} {T : CraftTypes Path} {U : FinalizeUpstream T} {bytes : List UInt8}
  {sig : U.EcdsaSignature}

theorem length_deviceForm_le {der : List UInt8} (h : IsStrict der) (odd : Bool)
    (sighashType : Option UInt8) : 2 ≤ (deviceForm odd sighashType der).length := by
  obtain ⟨content, -, rfl⟩ := h.exists_content
  cases odd <;> exact Nat.le_add_left 2 _

theorem parseTransparentDer_eq_ok :
    parseTransparentDer U bytes = .ok sig ↔
      2 ≤ bytes.length ∧ U.fromDer (normalizeDer bytes) = .ok sig := by
  rw [parseTransparentDer]
  constructor
  · intro h
    obtain ⟨_, hlen, h⟩ := bind_eq_ok.mp h
    exact ⟨not_lt.mp (refuseIf_eq_ok.mp hlen), mapError_eq_ok.mp h⟩
  · rintro ⟨hlen, h⟩
    exact bind_eq_ok.mpr ⟨(), refuseIf_eq_ok.mpr (not_lt.mpr hlen), mapError_eq_ok.mpr h⟩

/-- The parser accepts the four forms of the strict encodings and nothing else, and reads each
form as the one encoding that it is a form of. -/
theorem parseTransparentDer_grammar
    (hder : ∀ buf, (∃ sig, U.fromDer buf = .ok sig) ↔ IsStrict buf) :
    (∀ der, IsStrict der → ∀ odd sighashType, ∃ sig, U.fromDer der = .ok sig ∧
      parseTransparentDer U (deviceForm odd sighashType der) = .ok sig) ∧
    ∀ bytes sig, parseTransparentDer U bytes = .ok sig →
      ∃! der, IsStrict der ∧ (∃ odd sighashType, bytes = deviceForm odd sighashType der) ∧
        U.fromDer der = .ok sig := by
  constructor
  · intro der h odd sighashType
    obtain ⟨sig, hsig⟩ := (hder der).mpr h
    refine ⟨sig, hsig, parseTransparentDer_eq_ok.mpr ⟨length_deviceForm_le h odd sighashType, ?_⟩⟩
    rw [normalize_deviceForm h]
    exact hsig
  · intro bytes sig h
    obtain ⟨-, hsig⟩ := parseTransparentDer_eq_ok.mp h
    have hstrict := (hder _).mp ⟨sig, hsig⟩
    refine ⟨normalizeDer bytes, ⟨hstrict, exists_deviceForm hstrict, hsig⟩, ?_⟩
    rintro der ⟨hstrict', ⟨odd, sighashType, rfl⟩, -⟩
    exact (normalize_deviceForm hstrict' odd sighashType).symm

end Parser

/-! A reader of DER in the place of the upstream one. -/

section Sample

/-- Signatures are the contents of their two integers. -/
def derFinalizer : FinalizeUpstream recordTypes where
  __ := recordFinalizer
  EcdsaSignature := List UInt8 × List UInt8
  fromDer bytes :=
    match readSignature bytes with
    | some rs => .ok rs
    | none => .error "malformed signature"
  appendTransparentSignature pczt _ _ := .ok pczt

theorem derFinalizer_fromDer (buf : List UInt8) :
    (∃ sig, derFinalizer.fromDer buf = .ok sig) ↔ IsStrict buf := by
  rw [isStrict_iff]
  show (∃ sig, (match readSignature buf with
    | some rs => Except.ok rs
    | none => .error "malformed signature") = .ok sig) ↔ _
  cases readSignature buf <;> simp

theorem parseTransparentDer_grammar_sample :
    ∃ sig, derFinalizer.fromDer (signature [0, 0x80] [5]) = .ok sig ∧
      parseTransparentDer derFinalizer [0x31, 7, 2, 2, 0, 0x80, 2, 1, 5, 1] = .ok sig :=
  (parseTransparentDer_grammar derFinalizer_fromDer).1 _
    ⟨_, _, .padded (by decide) (by decide), .plain (by decide) (by decide) (by decide), rfl⟩ true
    (some 1)

end Sample

end LedgerZcash
