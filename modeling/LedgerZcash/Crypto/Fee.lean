import LedgerZcash.Crypto.Network

/-!
# Fees, expiry and derivation paths

The arithmetic of the transaction builders: how far ahead a transaction may stay valid,
which ZIP-317 fee its layout requires, and the derivation paths stamped into it.
Heights and child indices are natural numbers; what is a `u32` in the source is narrowed
where the source narrows it.
-/

namespace LedgerZcash

open Hex

/-! ## Expiry -/

/-- zcashd's `TX_EXPIRING_SOON_THRESHOLD`. -/
def expiringSoonThreshold : Nat := 3

/-- Blocks allowed to pass between crafting and broadcast. -/
def signingMarginBlocks : Nat := 5

/-- Fewest blocks of validity a crafted transaction must keep. -/
def minValidityBlocks : Nat := expiringSoonThreshold + signingMarginBlocks

/-- The network upgrade that follows another one. -/
def nextUpgrade : NetworkUpgrade → Option NetworkUpgrade
  | .overwinter => some .sapling
  | .sapling => some .blossom
  | .blossom => some .heartwood
  | .heartwood => some .canopy
  | .canopy => some .nu5
  | .nu5 => some .nu6
  | .nu6 => some .nu6_1
  | .nu6_1 => some .nu6_2
  | .nu6_2 => some .nu6_3
  | .nu6_3 => some .nu7
  | .nu7 => none

/-- One round of the walk: keep the lower of two heights above the target. -/
def lowerActivation (target : Nat) (next height : Option Nat) : Option Nat :=
  match height with
  | some h => if target < h ∧ next.all (h < ·) then some h else next
  | none => next

/-- The walk over the upgrades from `nu` on, for at most `rounds` of them. -/
def activationWalk (heights : Schedule) (target : Nat) :
    Nat → Option NetworkUpgrade → Option Nat → Option Nat
  | rounds + 1, some current, next =>
      activationWalk heights target rounds (nextUpgrade current)
        (lowerActivation target next (heights current))
  | _, _, next => next

/-- The lowest activation height strictly above `target`.  There are eleven upgrades, so
the walk ends before its rounds do. -/
def nextActivationHeight (heights : Schedule) (target : Nat) : Option Nat :=
  activationWalk heights target 11 (some .overwinter) none

/-- Lowers `expiry` so that the transaction cannot outlive the next network upgrade. -/
def capExpiryBelowNextActivation (heights : Schedule) (target expiry : Nat) : Except Error Nat :=
  if expiry = 0 then .ok expiry
  else
    match nextActivationHeight heights target with
    | none => .ok expiry
    | some activation =>
        let capped := min expiry (activation - 1)
        if capped < min (target + minValidityBlocks) (u32Size - 1) then
          .error (.expiryTooCloseToActivation target activation capped)
        else .ok capped

/-! ## ZIP-317 -/

/-- The marginal fee wallets paid before ZIP 2009. -/
def legacyMarginalFee : Nat := 5000

/-- The marginal fee set by ZIP 2009. -/
def zip2009MarginalFee : Nat := 1000

/-- The mainnet height from which wallets pay `zip2009MarginalFee`. -/
def zip2009MainnetHeight : Nat := 3590000

def graceActions : Nat := 2

/-- `BundleType::DEFAULT` pads to at least this many actions. -/
def orchardMinActions : Nat := 2

/-- The marginal fee a transaction targeting `target` pays. -/
def standardMarginalFee (network : AnyZcashNetwork) (target : Nat) : Nat :=
  if network.networkType = .main ∧ target < zip2009MainnetHeight then legacyMarginalFee
  else zip2009MarginalFee

/-- The marginal fee the caller's `fee` was computed with; otherwise the reason why it is
neither the standard nor the legacy one. -/
def callerMarginalFee (network : AnyZcashNetwork) (target fee : Nat) (feeFor : Nat → Nat) :
    Except String Nat :=
  let standard := standardMarginalFee network target
  if fee = feeFor standard then .ok standard
  else if standard ≠ legacyMarginalFee ∧ fee = feeFor legacyMarginalFee then .ok legacyMarginalFee
  else .error ("fee " ++ fee.repr ++ " does not satisfy ZIP-317 for this transaction (requires " ++
    (feeFor standard).repr ++
    "); fee selection is owned by the caller and must equal the ZIP-317 fee")

/-- The actions of a shielded bundle after padding. -/
def paddedActions (nSpends nOutputs : Nat) : Nat :=
  if nSpends = 0 ∧ nOutputs = 0 then 0 else max orchardMinActions (max nSpends nOutputs)

/-- The ZIP-317 fee of a layout with one shielded pool.  No intermediate value leaves
`u64`: the counts are `u32`s. -/
def layoutFee (marginalFee nSpends nOutputs nTransparentInputs nTransparentOutputs : Nat) : Nat :=
  marginalFee * max graceActions
    (max nTransparentInputs nTransparentOutputs + paddedActions nSpends nOutputs)

/-- The fee of an Orchard layout; its Sapling actions are zero. -/
def zip317FeeAt (marginalFee nSpends nOrchardOutputs nTransparentInputs
    nTransparentOutputs : Nat) : Nat :=
  layoutFee marginalFee nSpends nOrchardOutputs nTransparentInputs nTransparentOutputs

/-- The fee of an Ironwood layout, priced like an Orchard one. -/
def zip317FeeIronwoodAt (marginalFee nIronwoodSpends nIronwoodOutputs nTransparentInputs
    nTransparentOutputs : Nat) : Nat :=
  layoutFee marginalFee nIronwoodSpends nIronwoodOutputs nTransparentInputs nTransparentOutputs

/-! ## Derivation paths -/

/-- The SLIP-44 coin type of a named network. -/
def Network.coinType : Network → Nat
  | .mainNetwork => 133
  | .testNetwork => 1

/-- The coin type stamped into a derivation path: a local network derives as mainnet. -/
def stampedCoinType : AnyZcashNetwork → Nat
  | .local _ => Network.mainNetwork.coinType
  | .named n => n.coinType

/-- `1 << 31`. -/
def hardenedOffset : Nat := 2 ^ 31

/-- `ChildIndex::hardened(i).index()`. -/
def hardened (i : Nat) : Nat := i + hardenedOffset

def accountIndexError (accountIndex : Nat) : Error :=
  .craft ("account_index " ++ accountIndex.repr ++ " exceeds the ZIP-32 hardened range")

/-- `m/32'/coin_type'/account'`. -/
def zip32Path (coinType accountIndex : Nat) : Except Error (List Nat) :=
  if hardenedOffset ≤ accountIndex then throw (accountIndexError accountIndex)
  else pure [hardened 32, hardened coinType, hardened accountIndex]

/-- The scope of transparent change addresses. -/
def transparentInternalScope : Nat := 1

/-- `m/44'/coin_type'/account'/scope/address_index`. -/
def bip44TransparentPath (coinType accountIndex scope addressIndex : Nat) :
    Except Error (List Nat) :=
  if hardenedOffset ≤ accountIndex then throw (accountIndexError accountIndex)
  else if hardenedOffset ≤ scope then
    throw (.craft ("transparent derivation scope " ++ scope.repr ++ " must be non-hardened"))
  else if hardenedOffset ≤ addressIndex then
    throw (.craft ("transparent address index " ++ addressIndex.repr ++ " must be non-hardened"))
  else pure [hardened 44, hardened coinType, hardened accountIndex, scope, addressIndex]

end LedgerZcash
