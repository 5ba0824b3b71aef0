import Mathlib.Tactic

/-!
# Hexadecimal text

The byte/text codec of the `hex` crate.  Text is a `String`; the decoder works on
its UTF-8 bytes, two at a time, and accepts both letter cases, while the encoder
writes lower-case digits only.  So `decode` is a left inverse of `encode`
(`decode_encode`), but not a right inverse.  Error texts quote what they refuse as `{:?}`
does (`debugText`).
-/

namespace LedgerZcash.Hex

/-- A byte array of a fixed length: `[u8; n]`. -/
abbrev Arr (n : Nat) := { bs : List UInt8 // bs.length = n }

/-- `<[u8; n]>::try_from`: a slice is an array exactly when its length fits. -/
def Arr.tryFrom (n : Nat) (bs : List UInt8) : Option (Arr n) :=
  if h : bs.length = n then some ⟨bs, h⟩ else none

@[simp] theorem Arr.tryFrom_val {n : Nat} (a : Arr n) : Arr.tryFrom n a.1 = some a := by
  simp [Arr.tryFrom, a.2]

theorem Arr.tryFrom_eq_some {n : Nat} {bs : List UInt8} {a : Arr n} :
    Arr.tryFrom n bs = some a ↔ bs = a.1 := by
  constructor
  · intro h
    unfold Arr.tryFrom at h
    split at h
    · cases h; rfl
    · cases h
  · rintro rfl
    exact Arr.tryFrom_val a

/-- Why a text is not hexadecimal. -/
inductive FromHexError where
  | oddLength
  | invalidHexCharacter (c : UInt8) (index : Nat)
deriving DecidableEq, Repr

/-- The message of a decoding error. -/
def FromHexError.toString : FromHexError → String
  | .oddLength => "Odd number of digits"
  | .invalidHexCharacter c index =>
      "Invalid character '" ++ (Char.ofNat c.toNat).toString ++ "' at position " ++ index.repr

/-- The code points that `{:?}` does not print: controls, separators, format characters, private
use and the blocks of combining marks.  Neither unassigned code points nor the marks of a single
script are listed. -/
def notPrinted : List (Nat × Nat) :=
  [(0, 0x1F), (0x7F, 0xA0), (0xAD, 0xAD), (0x300, 0x36F), (0x600, 0x605), (0x61C, 0x61C),
    (0x6DD, 0x6DD), (0x70F, 0x70F), (0x890, 0x891), (0x8E2, 0x8E2), (0x1680, 0x1680),
    (0x180E, 0x180E), (0x1AB0, 0x1AFF), (0x1DC0, 0x1DFF), (0x2000, 0x200F), (0x2028, 0x202F),
    (0x205F, 0x206F), (0x20D0, 0x20FF), (0x3000, 0x3000), (0xE000, 0xF8FF), (0xFE00, 0xFE0F),
    (0xFE20, 0xFE2F), (0xFEFF, 0xFEFF), (0xFFF9, 0xFFFB), (0x110BD, 0x110BD),
    (0x110CD, 0x110CD), (0x13430, 0x1343F), (0x1BCA0, 0x1BCA3), (0x1D173, 0x1D17A),
    (0xE0000, 0xE0FFF), (0xF0000, 0x10FFFF)]

/-- A character escaped as in `{:?}`, where only the given quotation mark needs it. -/
def escapeChar (quote : Nat) (c : Char) : String :=
  match c.toNat with
  | 0 => "\\0"
  | 9 => "\\t"
  | 10 => "\\n"
  | 13 => "\\r"
  | 92 => "\\\\"
  | n =>
    if n = quote then "\\" ++ c.toString
    else if notPrinted.any fun (low, high) ↦ low ≤ n && n ≤ high then
      "\\u\x7b" ++ String.ofList (Nat.toDigits 16 n) ++ "\x7d"
    else c.toString

/-- `{:?}` of a text. -/
def debugText (s : String) : String :=
  "\"" ++ String.join (s.toList.map (escapeChar 34)) ++ "\""

/-- `{:?}` of a decoding error. -/
def FromHexError.debug : FromHexError → String
  | .oddLength => "OddLength"
  | .invalidHexCharacter c index =>
      "InvalidHexCharacter \x7b c: '" ++ escapeChar 39 (Char.ofNat c.toNat) ++ "', index: " ++
        index.repr ++ " \x7d"

/-- The UTF-8 bytes of a text. -/
def utf8Bytes (s : String) : List UInt8 := s.toList.flatMap String.utf8EncodeChar

theorem length_utf8Bytes (s : String) : (utf8Bytes s).length = s.utf8ByteSize := by
  have h := congrArg ByteArray.size (String.utf8Encode_toList (b := s))
  simpa [List.utf8Encode, utf8Bytes] using h

/-- The value of one digit, at a byte position used for the error only. -/
def val (c : UInt8) (index : Nat) : Except FromHexError UInt8 :=
  if 65 ≤ c ∧ c ≤ 70 then .ok (c - 65 + 10)
  else if 97 ≤ c ∧ c ≤ 102 then .ok (c - 97 + 10)
  else if 48 ≤ c ∧ c ≤ 57 then .ok (c - 48)
  else .error (.invalidHexCharacter c index)

/-- Decode the digits from byte position `index` on, two for a byte. -/
def decodePairs : Nat → List UInt8 → Except FromHexError (List UInt8)
  | index, hi :: lo :: rest => do
      let h ← val hi index
      let l ← val lo (index + 1)
      let bs ← decodePairs (index + 2) rest
      pure ((h <<< 4 ||| l) :: bs)
  | _, _ => pure []

/-- `hex::decode`. -/
def decode (s : String) : Except FromHexError (List UInt8) :=
  let bs := utf8Bytes s
  if bs.length % 2 = 0 then decodePairs 0 bs else .error .oddLength

/-- The lower-case digit of a value below sixteen. -/
def digit (n : UInt8) : Char :=
  if n < 10 then Char.ofNat (48 + n.toNat) else Char.ofNat (87 + n.toNat)

/-- The two digits of a byte, high half first. -/
def encodeByte (b : UInt8) : List Char := [digit (b >>> 4), digit (b &&& 15)]

/-- `hex::encode`. -/
def encode (bs : List UInt8) : String := String.ofList (bs.flatMap encodeByte)

/-! ## Round trip -/

/-- Every digit is one ASCII byte, which reads back as the value it was written from. -/
theorem val_digit (n : UInt8) (h : n < 16) (index : Nat) :
    ∃ c, String.utf8EncodeChar (digit n) = [c] ∧ val c index = .ok n := by
  have key : ∀ k : Fin 16, ∃ c, String.utf8EncodeChar (digit (UInt8.ofNat k)) = [c] ∧
      val c index = .ok (UInt8.ofNat k) := by
    intro k
    fin_cases k <;> exact ⟨_, rfl, rfl⟩
  have hn : n = UInt8.ofNat n.toNat := by simp
  rw [hn]
  exact key ⟨n.toNat, by simpa using UInt8.lt_iff_toNat_lt.mp h⟩

theorem halves (b : UInt8) :
    b >>> 4 < 16 ∧ b &&& 15 < 16 ∧ (b >>> 4) <<< 4 ||| (b &&& 15) = b := by
  have key : ∀ k : Fin 256, UInt8.ofNat k >>> 4 < 16 ∧ UInt8.ofNat k &&& 15 < 16 ∧
      (UInt8.ofNat k >>> 4) <<< 4 ||| (UInt8.ofNat k &&& 15) = UInt8.ofNat k := by
    decide +kernel
  have hb : b = UInt8.ofNat b.toNat := by simp
  rw [hb]
  exact key ⟨b.toNat, b.toNat_lt⟩

@[simp] theorem utf8Bytes_encode_nil : utf8Bytes (encode []) = [] := by
  simp [utf8Bytes, encode]

theorem utf8Bytes_encode_cons (b : UInt8) (bs : List UInt8) :
    ∃ hi lo, utf8Bytes (encode (b :: bs)) = hi :: lo :: utf8Bytes (encode bs) ∧
      ∀ index, val hi index = .ok (b >>> 4) ∧ val lo index = .ok (b &&& 15) := by
  obtain ⟨h₁, h₂, -⟩ := halves b
  obtain ⟨hi, ehi, -⟩ := val_digit (b >>> 4) h₁ 0
  obtain ⟨lo, elo, -⟩ := val_digit (b &&& 15) h₂ 0
  refine ⟨hi, lo, by simp [utf8Bytes, encode, encodeByte, ehi, elo], fun index ↦ ⟨?_, ?_⟩⟩
  · obtain ⟨c, ec, hc⟩ := val_digit (b >>> 4) h₁ index
    cases ehi.symm.trans ec
    exact hc
  · obtain ⟨c, ec, hc⟩ := val_digit (b &&& 15) h₂ index
    cases elo.symm.trans ec
    exact hc

@[simp] theorem length_utf8Bytes_encode (bs : List UInt8) :
    (utf8Bytes (encode bs)).length = 2 * bs.length := by
  induction bs with
  | nil => simp
  | cons b bs ih =>
      obtain ⟨hi, lo, h, -⟩ := utf8Bytes_encode_cons b bs
      simp only [h, List.length_cons, ih]
      omega

theorem decodePairs_encode (bs : List UInt8) (index : Nat) :
    decodePairs index (utf8Bytes (encode bs)) = .ok bs := by
  induction bs generalizing index with
  | nil => simp [decodePairs, pure, Except.pure]
  | cons b bs ih =>
      obtain ⟨hi, lo, h, hval⟩ := utf8Bytes_encode_cons b bs
      rw [h, decodePairs, (hval index).1, (hval (index + 1)).2, ih]
      simp [bind, Except.bind, pure, Except.pure, (halves b).2.2]

/-- Decoding what was encoded gives the bytes back. -/
@[simp] theorem decode_encode (bs : List UInt8) : decode (encode bs) = .ok bs := by
  simp [decode, decodePairs_encode]

theorem encode_injective : Function.Injective encode := by
  intro xs ys h
  have := congrArg decode h
  simpa using this

@[simp] theorem encode_inj {xs ys : List UInt8} : encode xs = encode ys ↔ xs = ys :=
  encode_injective.eq_iff

end LedgerZcash.Hex
