import LedgerZcash.Lib.Hex
import Mathlib.Data.Fintype.Defs

/-!
# Machine integers and errors

Counters, positions and zatoshi values are natural numbers; the widths of the Rust
types appear where the code narrows (`asU32`) or checks (`checkedAdd`).  Errors keep
the variants and the texts of the source: `Error` is the crypto crate's enum, and
`Failure` is what an `anyhow` function of the sync crate ends with when it returns no
value — an error text, or a panic.
-/

namespace LedgerZcash

open Hex

/-- `[u8; 32]`. -/
abbrev Bytes32 := Arr 32

/-- A value of the right length, for the tests: `[b; n]`. -/
def fill (n : Nat) (b : UInt8) : Arr n := ⟨List.replicate n b, List.length_replicate⟩

/-- `u32::MAX + 1`. -/
abbrev u32Size : Nat := 2 ^ 32

/-- `u64::MAX + 1`. -/
abbrev u64Size : Nat := 2 ^ 64

/-- `x as u32`. -/
def asU32 (n : Nat) : Nat := n % u32Size

theorem asU32_of_lt {n : Nat} (h : n < u32Size) : asU32 n = n := Nat.mod_eq_of_lt h

theorem asU32_lt (n : Nat) : asU32 n < u32Size := Nat.mod_lt n (by decide)

theorem exists_toNat_eq {n : Nat} (h : n < u32Size) : ∃ i : UInt32, i.toNat = n :=
  ⟨.ofNat n, Nat.mod_eq_of_lt h⟩

/-- `u64::checked_add`. -/
def checkedAdd (a b : Nat) : Option Nat := if a + b < u64Size then some (a + b) else none

theorem checkedAdd_eq_some {a b c : Nat} :
    checkedAdd a b = some c ↔ c = a + b ∧ a + b < u64Size := by
  unfold checkedAdd
  split <;> simp_all [eq_comm]

/-- The two pools that share the Orchard protocol. -/
inductive Pool where
  | orchard
  | ironwood
deriving DecidableEq, Repr

instance : Fintype Pool := ⟨{.orchard, .ironwood}, fun pool ↦ by cases pool <;> simp⟩

/-- `{:?}`. -/
def Pool.debug : Pool → String
  | .orchard => "Orchard"
  | .ironwood => "Ironwood"

/-- The errors of the crypto crate that the model can produce. -/
inductive Error where
  | derivation (msg : String)
  | decrypt (msg : String)
  | shardTree (msg : String)
  | invalidShardRoot (shardIndex : Nat)
  | invalidShardSize (got expected : Nat)
  | invalidLeaf (position : Nat)
  | frontierDecode (msg : String)
  | noCheckpointForAnchor (anchorHeight : Nat)
  | witnessMismatch (position : Nat) (expected got : Bytes32)
  | craft (msg : String)
  | expiryTooCloseToActivation (targetHeight activationHeight cappedExpiry : Nat)
  | finalize (msg : String)
  | parse (msg : String)
  /-- With the upstream error's text. -/
  | bip32 (msg : String)
deriving DecidableEq

/-- The message of a crypto error. -/
def Error.toString : Error → String
  | .derivation msg => "key derivation failed: " ++ msg
  | .decrypt msg => "decrypt error: " ++ msg
  | .shardTree msg => "shardtree error: " ++ msg
  | .invalidShardRoot i => "invalid shard root for shard " ++ i.repr
  | .invalidShardSize got expected =>
      "invalid shard size: expected " ++ expected.repr ++ " leaves, got " ++ got.repr
  | .invalidLeaf p => "invalid leaf bytes at position " ++ p.repr
  | .frontierDecode msg => "orchard frontier decode failed: " ++ msg
  | .noCheckpointForAnchor h => "no checkpoint found for anchor height " ++ h.repr
  | .witnessMismatch p e g =>
      "witness root mismatch at position " ++ p.repr ++ ": expected " ++
        (repr (e.1.map UInt8.toNat)).pretty ++ ", got " ++ (repr (g.1.map UInt8.toNat)).pretty
  | .craft msg => "craft error: " ++ msg
  | .expiryTooCloseToActivation t a c =>
      "expiry too close to activation: target " ++ t.repr ++ ", next upgrade at " ++ a.repr ++
        ", capped expiry " ++ c.repr
  | .finalize msg => "finalize error: " ++ msg
  | .parse msg => "parse error: " ++ msg
  | .bip32 msg => "BIP-32 error: " ++ msg

/-- `ok_or`. -/
def okOr {α : Type} (x : Option α) (e : Error) : Except Error α :=
  match x with
  | some a => .ok a
  | none => .error e

theorem okOr_eq_ok {α : Type} {x : Option α} {e : Error} {a : α} :
    okOr x e = .ok a ↔ x = some a := by
  cases x <;> simp [okOr]

theorem okOr_eq_error {α : Type} {x : Option α} {e e' : Error} :
    okOr x e = .error e' ↔ x = none ∧ e = e' := by
  cases x <;> simp [okOr]

/-- `if c { return Err(e) }`. -/
def refuseIf {ε : Type} (c : Prop) [Decidable c] (e : ε) : Except ε Unit :=
  if c then .error e else .ok ()

theorem refuseIf_eq_ok {ε : Type} {c : Prop} [Decidable c] {e : ε} {u : Unit} :
    refuseIf c e = .ok u ↔ ¬c := by
  unfold refuseIf
  split <;> simp_all

/-- How a function of the sync crate ends when it does not return a value. -/
inductive Failure where
  /-- An `anyhow` error with its text. -/
  | error (msg : String)
  /-- A panic: no caller of the modelled code catches it. -/
  | panic
deriving DecidableEq, Repr

/-- `map_err(|e| anyhow!(text))`. -/
def orFail {ε α : Type} (x : Except ε α) (text : ε → String) : Except Failure α :=
  x.mapError fun e ↦ .error (text e)

/-- `ok_or_else(|| anyhow!(msg))`. -/
def orElse {α : Type} (x : Option α) (msg : String) : Except Failure α :=
  match x with
  | some a => .ok a
  | none => .error (.error msg)

theorem orFail_eq_ok {ε α : Type} {x : Except ε α} {text : ε → String} {a : α} :
    orFail x text = .ok a ↔ x = .ok a := by
  cases x <;> simp [orFail, Except.mapError]

theorem orElse_eq_ok {α : Type} {x : Option α} {msg : String} {a : α} :
    orElse x msg = .ok a ↔ x = some a := by
  cases x <;> simp [orElse]

/-! ## Arithmetic with overflow checks

An overflow is a panic, as in a build with overflow checks. -/

/-- `a + b` on `u32`. -/
def addU32 (a b : UInt32) : Except Failure UInt32 :=
  if a.toNat + b.toNat < u32Size then .ok (a + b) else .error .panic

/-- `a - b` on `u32`. -/
def subU32 (a b : UInt32) : Except Failure UInt32 :=
  if b ≤ a then .ok (a - b) else .error .panic

/-- `a + b` on `u64`. -/
def addU64 (a b : Nat) : Except Failure Nat :=
  if a + b < u64Size then .ok (a + b) else .error .panic

/-- `a - b` on `u64`. -/
def subU64 (a b : Nat) : Except Failure Nat := if b ≤ a then .ok (a - b) else .error .panic

/-- `a * b` on `u64`. -/
def mulU64 (a b : Nat) : Except Failure Nat :=
  if a * b < u64Size then .ok (a * b) else .error .panic

/-- `a.pow(n)` on `u64`. -/
def powU64 (a : Nat) (n : UInt32) : Except Failure Nat :=
  if a ^ n.toNat < u64Size then .ok (a ^ n.toNat) else .error .panic

theorem addU32_eq_ok {a b c : UInt32} :
    addU32 a b = .ok c ↔ c.toNat = a.toNat + b.toNat := by
  unfold addU32
  split
  · rename_i h
    rw [Except.ok.injEq, ← UInt32.toNat_inj, UInt32.toNat_add, Nat.mod_eq_of_lt h, eq_comm]
  · rename_i h
    have hc := c.toNat_lt
    refine iff_of_false (fun h' ↦ nomatch h') fun h' ↦ h ?_
    rw [← h']
    exact hc

theorem subU32_eq_ok {a b c : UInt32} :
    subU32 a b = .ok c ↔ a.toNat = b.toNat + c.toNat := by
  unfold subU32
  split
  · rename_i h
    have hle := UInt32.le_iff_toNat_le.mp h
    rw [Except.ok.injEq, ← UInt32.toNat_inj, UInt32.toNat_sub_of_le _ _ h]
    omega
  · rename_i h
    refine iff_of_false (fun h' ↦ nomatch h') fun h' ↦ h ?_
    rw [UInt32.le_iff_toNat_le, h']
    exact Nat.le_add_right _ _

theorem addU64_of_lt {a b : Nat} (h : a + b < u64Size) : addU64 a b = .ok (a + b) := if_pos h

theorem subU64_of_le {a b : Nat} (h : b ≤ a) : subU64 a b = .ok (a - b) := if_pos h

theorem subU64_of_lt {a b : Nat} (h : a < b) : subU64 a b = .error .panic :=
  if_neg (Nat.not_le.mpr h)

theorem powU64_of_lt {a : Nat} {n : UInt32} (h : a ^ n.toNat < u64Size) :
    powU64 a n = .ok (a ^ n.toNat) := if_pos h

theorem mulU64_of_lt {a b : Nat} (h : a * b < u64Size) : mulU64 a b = .ok (a * b) := if_pos h

end LedgerZcash
