import LedgerZcash.Crypto.Craft
import LedgerZcash.Crypto.Decrypt
import LedgerZcash.Sync.Witness

/-!
# The crafting orchestrators

`craftTransactionWithTip` and `craftIronwoodTransactionWithTip` decode a request, fetch
the anchor and the witnesses of its notes, and call the builder.  Each is split where
the builder is called: `craftInputs` and `craftIronwoodInputs` are all that comes
before, so that a property of what reaches the builder can be stated.

Keys and addresses are upstream (`WalletKeys`).  The chain tip and the anchor are asked
of two connections; the tip is an argument, as it is in the source.
-/

namespace LedgerZcash

open Hex Collect

/-! ## Requests -/

/-- `SpendInputDto` and `IronwoodSpendInputDto`. -/
structure SpendInputDto where
  recipientHex : String
  valueZat : Nat
  rhoHex : String
  rseedHex : String
  cmxHex : String
  /-- Leaf index in the commitment tree of the pool. -/
  position : Nat
deriving DecidableEq

structure TransparentInputDto where
  /-- Internal byte order. -/
  txidHex : String
  vout : Nat
  scriptPubkeyHex : String
  valueZat : Nat
  pubkeyHex : String
  derivationScope : Nat
  addressIndex : Nat
deriving DecidableEq

/-- `OutputRequestDto` and `IronwoodOutputRequestDto`. -/
structure OutputRequestDto where
  address : String
  valueZat : Nat
  memo : Option String
deriving DecidableEq

/-- The fields that both requests have. -/
structure CommonRequest where
  network : Option String
  regtestActivationHeights : Option Schedule
  seedFingerprintHex : String
  accountIndex : Nat
  feeZat : Nat
  spends : List SpendInputDto
  transparentInputs : List TransparentInputDto
  outputs : List OutputRequestDto
  anchorHeight : Option Nat

structure CraftRequest extends CommonRequest where
  ufvk : Option String
  transparentAccountPubkeyHex : Option String

structure IronwoodCraftRequest extends CommonRequest where
  ufvk : String

/-! ## Upstream -/

/-- A decoded address. -/
inductive Address {Path : Type} (T : CraftTypes Path) where
  | transparent (address : T.TransparentAddress)
  /-- The Orchard and the transparent receiver. -/
  | unified (orchard : Option T.OrchardAddress) (transparent : Option T.TransparentAddress)
  | sapling
  | tex

/-- What the orchestrators call in the upstream key and address crates. -/
structure WalletKeys {Path : Type} (T : CraftTypes Path) where
  Ufvk : Type
  AccountPubKey : Type
  /-- `Ufvk::decode`; its error is the debug text. -/
  decodeUfvk : String → Except String String
  /-- `UnifiedFullViewingKey::parse`. -/
  parseUfvk : String → Except String Ufvk
  orchard : Ufvk → Option T.Fvk
  p2pkh : Ufvk → Option AccountPubKey
  addressAt : T.Fvk → Nat → Scope → T.OrchardAddress
  toOvk : T.Fvk → Scope → T.Ovk
  deserializeAccount : Arr 65 → Except String AccountPubKey
  serializeAccount : AccountPubKey → Arr 65
  /-- The default address of `derive_internal_ivk`, with its index. -/
  internalDefaultAddress : AccountPubKey → Option (T.TransparentAddress × Nat)
  /-- `NonHardenedChildIndex::from_index` accepts the index. -/
  validIndex : Nat → Bool
  deriveAddressPubkey : AccountPubKey → Scope → Nat → Except String (Arr 33)
  decodeAddress : AnyZcashNetwork → String → Option (Address T)

/-! ## Decoding -/

def hexToArray (n : Nat) (s field : String) : Except Failure (Arr n) := do
  let v ← orFail (Hex.decode s) fun e ↦ field ++ " hex decode: " ++ e.toString
  orElse (Arr.tryFrom n v)
    (field ++ ": expected " ++ n.repr ++ " bytes, got " ++ v.length.repr)

/-- A sum of `u64`s, none when it overflows. -/
def checkedSum (values : List Nat) : Option Nat := values.foldlM checkedAdd 0

variable {Path : Type} {T : CraftTypes Path} (K : WalletKeys T)

/-- `Ufvk::decode`, then `UnifiedFullViewingKey::parse`. -/
def parseEncodedUfvk (encoded : String) : Except Failure K.Ufvk := do
  let ufvkStr ← orFail (K.decodeUfvk encoded) fun e ↦ "UFVK decode failed: " ++ e
  orFail (K.parseUfvk ufvkStr) fun e ↦ "UFVK parse failed: " ++ e

/-- Transparent addresses, and unified ones with an Orchard or a transparent receiver. -/
def decodeDestination (network : AnyZcashNetwork) (address : String) :
    Except Failure (Destination T) := do
  let addr ← orElse (K.decodeAddress network address) ("invalid destination address: " ++ address)
  match addr with
  | .transparent ta => pure (.transparent ta)
  | .unified (some oa) _ => pure (.shielded oa)
  | .unified none (some ta) => pure (.transparent ta)
  | .unified none none => throw (.error
      ("unified address has no Orchard or Transparent receiver: " ++ address))
  | .sapling => throw (.error "Sapling destination not supported")
  | .tex => throw (.error "ZIP-320 TEX address not supported")

/-- The same receiver selects the Ironwood pool. -/
def decodeIronwoodDestination (network : AnyZcashNetwork) (address : String) :
    Except Failure (Destination T) :=
  decodeDestination K network address

/-- The output requests of the builder. -/
def decodeOutputs (decode : String → Except Failure (Destination T))
    (outputs : List OutputRequestDto) : Except Failure (List (OutputRequest T)) :=
  outputs.mapM fun o ↦ do
    let destination ← decode o.address
    pure { destination, value := o.valueZat, memo := o.memo.map utf8Bytes }

def decodeAccountPubkey (hexStr : String) : Except Failure K.AccountPubKey := do
  let bytes ← hexToArray 65 hexStr "transparent_account_pubkey"
  orFail (K.deserializeAccount bytes) fun e ↦
    "transparent_account_pubkey is not a valid account-level transparent pubkey: " ++ e

/-- The account's transparent key: the UFVK's and the explicit one must agree. -/
def resolveAccountPubkey (fromUfvk : Option K.AccountPubKey) (explicitHex : Option String) :
    Except Failure (Option K.AccountPubKey) :=
  match fromUfvk, explicitHex with
  | some ufvkKey, some explicitHex => do
      let explicit ← decodeAccountPubkey K explicitHex
      refuseIf (K.serializeAccount explicit ≠ K.serializeAccount ufvkKey)
        (Failure.error ("transparent_account_pubkey does not match the UFVK's transparent " ++
          "component; they must describe the same account"))
      pure (some explicit)
  | some ufvkKey, none => pure (some ufvkKey)
  | none, some explicitHex => do
      let explicit ← decodeAccountPubkey K explicitHex
      pure (some explicit)
  | none, none => pure none

/-- The scope of a transparent input. -/
def parseScope : Nat → Except Failure Scope
  | 0 => .ok .external
  | 1 => .ok .internal
  | other => .error (.error ("transparent input derivation_scope must be 0 (external) or 1 " ++
      "(internal), got " ++ other.repr))

/-- Decode one transparent input and verify its derivation under the account's key. -/
def decodeTransparentInput (accountPubkey : Option K.AccountPubKey) (dto : TransparentInputDto) :
    Except Failure TransparentInput := do
  let txid ← hexToArray 32 dto.txidHex "txid"
  let pubkey ← hexToArray 33 dto.pubkeyHex "pubkey"
  let scriptPubkey ← orFail (Hex.decode dto.scriptPubkeyHex) fun e ↦
    "script_pubkey hex: " ++ e.toString
  let scope ← parseScope dto.derivationScope
  let apk ← orElse accountPubkey
    ("transparent inputs were supplied but no transparent account key was given to derive " ++
      "(and verify) their signing keys from; pass transparent_account_pubkey, or a UFVK " ++
      "carrying a transparent component")
  refuseIf (!K.validIndex dto.addressIndex) (Failure.error ("transparent input address_index " ++
    dto.addressIndex.repr ++ " is not a valid non-hardened index"))
  let derived ← orFail (K.deriveAddressPubkey apk scope dto.addressIndex) fun e ↦
    "failed to derive transparent input pubkey at scope " ++ dto.derivationScope.repr ++
      " index " ++ dto.addressIndex.repr ++ ": " ++ e
  refuseIf (derived ≠ pubkey) (Failure.error ("transparent input pubkey does not match the key " ++
    "derived from the account's transparent key at scope " ++ dto.derivationScope.repr ++
    " index " ++ dto.addressIndex.repr ++ "; the supplied (derivation_scope, address_index) " ++
    "does not identify this UTXO's key"))
  pure
    { pubkey, txid, vout := dto.vout, scriptPubkey, value := dto.valueZat
      derivationScope := dto.derivationScope, derivationAddressIndex := dto.addressIndex }

def decodeTransparentInputs (accountPubkey : Option K.AccountPubKey)
    (dtos : List TransparentInputDto) : Except Failure (List TransparentInput) :=
  dtos.mapM (decodeTransparentInput K accountPubkey)

/-! ## Transparent change -/

variable (T) in
/-- The internal change address, with what its output is stamped with. -/
structure TransparentChange where
  address : T.TransparentAddress
  pubkey : Arr 33
  index : Nat

/-- The change address of an account key; its public key is derived at the same index. -/
def deriveChange (tpk : K.AccountPubKey) : Option (TransparentChange T) := do
  let (address, index) ← K.internalDefaultAddress tpk
  let pubkey ← (K.deriveAddressPubkey tpk .internal index).toOption
  pure { address, pubkey, index }

/-- Without a change address the transparent inputs must be spent exactly; `text` is the
error for a surplus. -/
def checkNoSurplus (req : CommonRequest) (text : Nat → String) : Except Failure Unit := do
  let totalIn ← orElse (checkedSum (req.transparentInputs.map TransparentInputDto.valueZat))
    "transparent input value overflow"
  let totalOut ← orElse (checkedSum (req.outputs.map OutputRequestDto.valueZat))
    "output value overflow"
  let outflow ← orElse (checkedAdd totalOut req.feeZat) "total_out + fee overflow"
  refuseIf (outflow < totalIn) (Failure.error (text (totalIn - outflow)))

/-- The transparent change of a request: none when a note is spent. -/
def resolveTransparentChange (req : CommonRequest) (accountPubkey : Option K.AccountPubKey)
    (text : Nat → String) : Except Failure (Option (TransparentChange T)) :=
  if req.spends.isEmpty then
    match accountPubkey.bind (deriveChange K) with
    | some change => pure (some change)
    | none => do
        checkNoSurplus req text
        pure none
  else pure none

/-! ## Anchor and witnesses -/

section Witnesses

variable (S : ShardTrees) (srv : Server) (pool : Pool)

/-- The note of a spend, as its witness is requested. -/
def noteRef (dto : SpendInputDto) : Except Failure NoteRef := do
  let cmx ← hexToArray 32 dto.cmxHex "cmx"
  pure { position := dto.position, cmx }

/-- A spend joined with its path. -/
def spendInput (dto : SpendInputDto) (mp : Path) : Except Failure (SpendInput Path) := do
  let recipient ← hexToArray 43 dto.recipientHex "recipient"
  let rho ← hexToArray 32 dto.rhoHex "rho"
  let rseed ← hexToArray 32 dto.rseedHex "rseed"
  pure { recipient, value := dto.valueZat, rho, rseed, merklePath := mp }

/-- The anchor and the spends of a request that spends notes. -/
def witnessSpends (anchorHeight : Nat) (dtos : List SpendInputDto) :
    Except Failure (Bytes32 × List (SpendInput S.Path)) := do
  let notes ← dtos.mapM noteRef
  let witnessOut ← computeWitnessesForPool S srv pool
    { anchorHeight := some anchorHeight, anchorDepthBlocks := none, notes }
  refuseIf (witnessOut.witnesses.length ≠ dtos.length) (Failure.error ("internal: witness count " ++
    witnessOut.witnesses.length.repr ++ " != spends count " ++ dtos.length.repr))
  let spends ← (dtos.zip witnessOut.witnesses).mapM fun (dto, mp) ↦ spendInput dto mp
  pure (witnessOut.anchor, spends)

/-- The anchor of a request: with witnesses when it spends notes, alone when a bundle
needs it, and zero otherwise. -/
def routeAnchor (anchorHeight : Nat) (needsAnchor : Bool) (dtos : List SpendInputDto) :
    Except Failure (Bytes32 × List (SpendInput S.Path)) :=
  if !dtos.isEmpty then witnessSpends S srv pool anchorHeight dtos
  else if needsAnchor then do
    let witnessOut ← fetchAnchorForPool S srv pool (some anchorHeight) none
    pure (witnessOut.anchor, [])
  else pure (fill 32 0, [])

end Witnesses

/-! ## The Orchard orchestrator -/

variable (T) in
/-- The shielded key material of a flow. -/
structure ShieldedKeys where
  fvk : Option T.Fvk
  changeAddress : Option T.OrchardAddress
  ovk : Option T.Ovk

/-- The viewing key, the change address and the outgoing key of a flow with a bundle. -/
def shieldedKeys (ufvk : Option K.Ufvk) (hasBundle : Bool) :
    Except Failure (ShieldedKeys T) :=
  if hasBundle then do
    let ufvk ← orElse ufvk ("this flow carries an Orchard bundle (an Orchard spend or an " ++
      "Orchard recipient) and needs the account's Orchard key material, so a UFVK is required; " ++
      "only a fully transparent send may omit it")
    let fvk ← orElse (K.orchard ufvk) "UFVK does not contain an Orchard component"
    pure
      { fvk := some fvk, changeAddress := some (K.addressAt fvk 0 .internal)
        ovk := some (K.toOvk fvk .external) }
  else pure { fvk := none, changeAddress := none, ovk := none }

/-- The guards at the top of both orchestrators. -/
def checkRequest (pool : Pool) (req : CommonRequest) : Except Failure Unit := do
  refuseIf (req.spends.isEmpty && req.transparentInputs.isEmpty)
    (Failure.error ("craft: no inputs — both " ++ pool.name ++
      " spends and transparent inputs are empty"))
  refuseIf req.outputs.isEmpty (Failure.error "craft: outputs list is empty")

def noAccountKeyText : String :=
  "craft: no account key — neither a UFVK nor transparent_account_pubkey was supplied; a fully " ++
    "transparent send needs the account's transparent pubkey, and every flow with a shielded " ++
    "bundle needs the UFVK"

def orchardSurplusText (surplus : Nat) : String :=
  "transparent change of " ++ surplus.repr ++ " zatoshis is required but no transparent account " ++
    "key was supplied to derive an internal change address from; pass " ++
    "transparent_account_pubkey (or a UFVK carrying a transparent component), or send an " ++
    "exact-balance amount (transparent inputs == outputs + fee)"

def ironwoodSurplusText (surplus : Nat) : String :=
  "transparent change of " ++ surplus.repr ++ " zatoshis is required but the UFVK has no " ++
    "transparent receiver to derive an internal change address from; use a UFVK with a " ++
    "transparent component or send an exact-balance amount (transparent inputs == outputs + fee)"

variable (S : ShardTrees) {T : CraftTypes S.Path} (K : WalletKeys T) (P : CraftUpstream T)
  (tip : Except Failure Nat) (srv : Server)

/-- What a request hands to `buildTransaction`. -/
def craftInputs (req : CraftRequest) : Except Failure (BuildInputs T) := do
  checkRequest .orchard req.toCommonRequest
  refuseIf (req.ufvk.isNone && req.transparentAccountPubkeyHex.isNone)
    (Failure.error noAccountKeyText)
  let network ← orFail (resolveAnyNetwork req.network req.regtestActivationHeights) Error.toString
  let seedFingerprint ← hexToArray 32 req.seedFingerprintHex "seed_fingerprint"
  let ufvk ← req.ufvk.mapM (parseEncodedUfvk K)
  let outputs ← decodeOutputs (decodeDestination K network) req.outputs
  let hasOrchardOutputs := outputs.any fun o ↦ o.destination.isShielded
  let keys ← shieldedKeys K ufvk (!req.spends.isEmpty || hasOrchardOutputs)
  let accountPubkey ← resolveAccountPubkey K (ufvk.bind K.p2pkh) req.transparentAccountPubkeyHex
  let change ← resolveTransparentChange K req.toCommonRequest accountPubkey orchardSurplusText
  let tip ← tip
  let anchorHeight ← resolveAnchorFromTip tip req.anchorHeight
  let targetHeight ← nextBlockHeight tip
  let (anchor, spends) ← routeAnchor S srv .orchard anchorHeight hasOrchardOutputs req.spends
  let transparentInputs ← decodeTransparentInputs K accountPubkey req.transparentInputs
  pure
    { network, targetHeight, anchorHeight, fvk := keys.fvk, ovk := keys.ovk
      changeAddress := keys.changeAddress
      transparentChangeAddress := change.map TransparentChange.address
      transparentChangePubkey := change.map TransparentChange.pubkey
      transparentChangeAddressIndex := change.map TransparentChange.index
      anchor, seedFingerprint, accountIndex := req.accountIndex, fee := req.feeZat
      spends, transparentInputs, outputs }

/-- Compute witnesses, decode addresses, then call the builder. -/
def craftTransactionWithTip (req : CraftRequest) : Except Failure BuildOutput := do
  let inputs ← craftInputs S K tip srv req
  orFail (buildTransaction P inputs) fun e ↦ "build_transaction: " ++ e.toString

/-- The tip is asked of a connection of its own. -/
def craftTransaction (tipSrv : Server) (req : CraftRequest) : Except Failure BuildOutput :=
  craftTransactionWithTip S K P (chainTip tipSrv) srv req

/-! ## The Ironwood orchestrator -/

/-- The Orchard key of the UFVK, which the Ironwood pool uses as well. -/
def ironwoodFvk (ufvk : K.Ufvk) : Except Failure T.Fvk :=
  orElse (K.orchard ufvk) ("UFVK does not contain an Orchard component (required for Ironwood " ++
    "spends and outputs — the same key spends and receives both pools)")

/-- What a request hands to `buildIronwoodTransaction`. -/
def craftIronwoodInputs (req : IronwoodCraftRequest) : Except Failure (BuildInputs T) := do
  checkRequest .ironwood req.toCommonRequest
  let network ← orFail (resolveAnyNetwork req.network req.regtestActivationHeights) Error.toString
  let seedFingerprint ← hexToArray 32 req.seedFingerprintHex "seed_fingerprint"
  let ufvk ← parseEncodedUfvk K req.ufvk
  let outputs ← decodeOutputs (decodeIronwoodDestination K network) req.outputs
  let hasIronwoodOutputs := outputs.any fun o ↦ o.destination.isShielded
  refuseIf (req.spends.isEmpty && !hasIronwoodOutputs)
    (Failure.error ("craft: no Ironwood bundle — ironwood spends and ironwood outputs are both " ++
      "empty; use craft_transaction for a transparent-only send"))
  let fvk ← ironwoodFvk S K ufvk
  let changeAddress := if req.spends.isEmpty then none else some (K.addressAt fvk 0 .internal)
  let change ← resolveTransparentChange K req.toCommonRequest (K.p2pkh ufvk) ironwoodSurplusText
  let tip ← tip
  let anchorHeight ← resolveAnchorFromTip tip req.anchorHeight
  let targetHeight ← nextBlockHeight tip
  let (anchor, spends) ← routeAnchor S srv .ironwood anchorHeight true req.spends
  let transparentInputs ← decodeTransparentInputs K (K.p2pkh ufvk) req.transparentInputs
  pure
    { network, targetHeight, anchorHeight, fvk := some fvk, ovk := some (K.toOvk fvk .external)
      changeAddress
      transparentChangeAddress := change.map TransparentChange.address
      transparentChangePubkey := change.map TransparentChange.pubkey
      transparentChangeAddressIndex := change.map TransparentChange.index
      anchor, seedFingerprint, accountIndex := req.accountIndex, fee := req.feeZat
      spends, transparentInputs, outputs }

/-- Compute Ironwood witnesses, decode addresses, then call the builder. -/
def craftIronwoodTransactionWithTip (req : IronwoodCraftRequest) : Except Failure BuildOutput := do
  let inputs ← craftIronwoodInputs S K tip srv req
  orFail (buildIronwoodTransaction P inputs) fun e ↦ "build_ironwood_transaction: " ++ e.toString

def craftIronwoodTransaction (tipSrv : Server) (req : IronwoodCraftRequest) :
    Except Failure BuildOutput :=
  craftIronwoodTransactionWithTip S K P (chainTip tipSrv) srv req

end LedgerZcash
