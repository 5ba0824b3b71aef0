import LedgerZcash.Crypto.Builder

/-!
# Building a transaction

`buildTransaction` and `buildIronwoodTransaction`.  Both lay out the inputs, the
requested outputs and the change in a builder (`layOut`), and turn the builder into the
bytes of a PCZT (`finish`); they differ in their guards, in the anchor they set, in how
shielded change is added and in the encoding.  The layout is a value of its own, `Plan`,
so that a property of what is built can be stated.
-/

namespace LedgerZcash

open Hex

/-! ## Inputs and output -/

section Types

variable {Path : Type} (T : CraftTypes Path)

/-- `BuildInputs` and `IronwoodBuildInputs`. -/
structure BuildInputs where
  network : AnyZcashNetwork
  targetHeight : Nat
  /-- Echoed in the output. -/
  anchorHeight : Nat
  /-- `orchard_fvk`, or `ironwood_fvk`. -/
  fvk : Option T.Fvk
  ovk : Option T.Ovk
  /-- The shielded change address. -/
  changeAddress : Option T.OrchardAddress
  transparentChangeAddress : Option T.TransparentAddress
  transparentChangePubkey : Option (Arr 33)
  transparentChangeAddressIndex : Option Nat
  anchor : Bytes32
  seedFingerprint : Bytes32
  accountIndex : Nat
  /-- Owned by the caller: the builder validates it and never chooses one. -/
  fee : Nat
  spends : List (SpendInput Path)
  transparentInputs : List TransparentInput
  outputs : List (OutputRequest T)

/-- The stamp of a transparent change output: its index in the transparent bundle, its
public key and its address index. -/
structure ChangeStamp where
  index : Nat
  pubkey : Arr 33
  addressIndex : Nat

/-- The running state of the layout. -/
structure Layout where
  builder : Builder T
  totalIn : Nat
  totalOut : Nat
  nShieldedOutputs : Nat
  nTransparentOutputs : Nat

/-- A complete layout. -/
structure Plan extends Layout T where
  change : Nat
  changeStamp : Option ChangeStamp
  feeRule : FeeRule

end Types

structure BuildOutput where
  pcztBytes : List UInt8
  fee : Nat
  anchorHeight : Nat
  nActionsOrchard : Nat
  nTransparentInputs : Nat
  /-- Change included. -/
  nTransparentOutputs : Nat
  nActionsIronwood : Nat
deriving DecidableEq

variable {Path : Type} {T : CraftTypes Path} (P : CraftUpstream T)

/-- `u64::checked_add`, with the error of an overflow. -/
def addChecked (a b : Nat) (msg : String) : Except Error Nat := okOr (checkedAdd a b) (.craft msg)

theorem addChecked_eq_ok {a b c : Nat} {msg : String} :
    addChecked a b msg = .ok c ↔ c = a + b ∧ a + b < u64Size := by
  rw [addChecked, okOr_eq_ok, checkedAdd_eq_some]

/-! ## Layout -/

/-- One round of the loop over the spends. -/
def addSpendStep (pool : Pool) (fvk : T.Fvk) (l : Layout T) (spend : SpendInput Path) :
    Except Error (Layout T) := do
  let builder ← addShieldedSpend P pool l.builder fvk spend
  let totalIn ← addChecked l.totalIn spend.value "spend value overflow"
  pure { l with builder, totalIn }

/-- The spends; without any, no viewing key is needed. -/
def addSpends (pool : Pool) (fvk : Option T.Fvk) (spends : List (SpendInput Path))
    (l : Layout T) : Except Error (Layout T) :=
  if spends.isEmpty then pure l
  else do
    let fvk ← okOr fvk (.craft (pool.name ++ "_fvk is required when " ++ pool.debug ++
      " spends are present"))
    spends.foldlM (addSpendStep P pool fvk) l

/-- One round of the loop over the transparent inputs. -/
def addTransparentInputStep (l : Layout T) (tin : TransparentInput) : Except Error (Layout T) := do
  let builder ← addTransparentInput P l.builder tin
  let totalIn ← addChecked l.totalIn tin.value "transparent input value overflow"
  pure { l with builder, totalIn }

/-- One more shielded or transparent output; the counters are `u32`s. -/
def Layout.count (l : Layout T) (isShielded : Bool) : Layout T :=
  if isShielded then { l with nShieldedOutputs := asU32 (l.nShieldedOutputs + 1) }
  else { l with nTransparentOutputs := asU32 (l.nTransparentOutputs + 1) }

/-- One round of the loop over the requested outputs. -/
def addOutputStep (pool : Pool) (ovk : Option T.Ovk) (l : Layout T) (out : OutputRequest T) :
    Except Error (Layout T) := do
  let builder ← addPoolOutput P pool l.builder ovk out
  let totalOut ← addChecked l.totalOut out.value "output value overflow"
  let l : Layout T := { l with builder, totalOut }
  pure (l.count out.destination.isShielded)

/-- The shielded change output.  Orchard change needs the viewing key as well, and the
builder's own change call; Ironwood change is an ordinary output. -/
def addShieldedChange (pool : Pool) (i : BuildInputs T) (b : Builder T) (change : Nat) :
    Except Error (Builder T) := do
  let changeAddr ← okOr i.changeAddress (.craft ("change_address required for " ++ pool.debug ++
    " change but none supplied"))
  match pool with
  | .orchard => do
      let changeFvk ← okOr i.fvk (.craft "orchard_fvk is required to add Orchard change")
      addOrchardChange P b changeFvk i.ovk changeAddr change
  | .ironwood =>
      addIronwoodOutput P b i.ovk
        { destination := .shielded changeAddr, value := change, memo := none }

/-- The transparent change output, and what it is stamped with. -/
def addTransparentChange (pool : Pool) (i : BuildInputs T) (l : Layout T) (change : Nat) :
    Except Error (Builder T × ChangeStamp) := do
  let addr ← okOr i.transparentChangeAddress
    (.craft "transparent change required but no transparent_change_address supplied")
  let pubkey ← okOr i.transparentChangePubkey
    (.craft ("transparent change required but no transparent_change_pubkey supplied — " ++
      "the device needs the change output's bip32_derivation to recognize it as " ++
      "change rather than a third-party recipient"))
  let addressIndex ← okOr i.transparentChangeAddressIndex
    (.craft "transparent change required but no transparent_change_address_index supplied")
  let builder ← addPoolOutput P pool l.builder none
    { destination := .transparent addr, value := change, memo := none }
  pure (builder, { index := l.nTransparentOutputs, pubkey, addressIndex })

/-- Surplus goes back to the pool that funds it: shielded as soon as there is a spend. -/
def addChange (pool : Pool) (i : BuildInputs T) (l : Layout T) (change : Nat) :
    Except Error (Layout T × Option ChangeStamp) :=
  if 0 < change then
    if 0 < asU32 i.spends.length then do
      let builder ← addShieldedChange P pool i l.builder change
      let l : Layout T := { l with builder }
      pure (l.count true, none)
    else do
      let (builder, stamp) ← addTransparentChange P pool i l change
      let l : Layout T := { l with builder }
      pure (l.count false, some stamp)
  else pure (l, none)

/-- The fee function of a builder. -/
def feeAt : Pool → Nat → Nat → Nat → Nat → Nat → Nat
  | .orchard => zip317FeeAt
  | .ironwood => zip317FeeIronwoodAt

/-- `zip317_fee_rule`. -/
def zip317FeeRule (marginalFee : Nat) : Except Error FeeRule := do
  let marginalFee ← zatoshis P "marginal fee" marginalFee
  refuseIf (!P.validMarginalFee marginalFee) (Error.craft "invalid ZIP-317 fee rule")
  pure ⟨marginalFee⟩

/-- The supplied fee must be the one of the final layout, for this crate and for the
upstream builder. -/
def validateFee (pool : Pool) (i : BuildInputs T) (l : Layout T) (change : Nat) :
    Except Error FeeRule := do
  let marginalFee ← (callerMarginalFee i.network i.targetHeight i.fee fun marginalFee ↦
      feeAt pool marginalFee (asU32 i.spends.length) l.nShieldedOutputs
        (asU32 i.transparentInputs.length) l.nTransparentOutputs).mapError fun reason ↦
    Error.craft (reason ++ " — total_in=" ++ l.totalIn.repr ++ ", total_out=" ++
      l.totalOut.repr ++ ", change=" ++ change.repr)
  let feeRule ← zip317FeeRule P marginalFee
  let builderFee ← (P.getFee l.builder feeRule).mapError fun e ↦ Error.craft ("get_fee: " ++ e)
  refuseIf (builderFee ≠ i.fee)
    (Error.craft ("fee mismatch — caller-supplied " ++ i.fee.repr ++ ", builder " ++
      builderFee.repr))
  pure feeRule

/-- Spends, transparent inputs and requested outputs. -/
def addItems (pool : Pool) (i : BuildInputs T) (builder : Builder T) :
    Except Error (Layout T) := do
  let l ← addSpends P pool i.fvk i.spends
    { builder, totalIn := 0, totalOut := 0, nShieldedOutputs := 0, nTransparentOutputs := 0 }
  let l ← i.transparentInputs.foldlM (addTransparentInputStep P) l
  i.outputs.foldlM (addOutputStep P pool i.ovk) l

/-- What is left of the inputs after the requested outputs and the fee. -/
def surplus (i : BuildInputs T) (l : Layout T) : Except Error Nat := do
  let outflow ← addChecked l.totalOut i.fee "total_out + fee overflow"
  refuseIf (l.totalIn < outflow)
    (Error.craft ("insufficient funds: total_in=" ++ l.totalIn.repr ++ " < total_out=" ++
      l.totalOut.repr ++ " + fee=" ++ i.fee.repr))
  pure (l.totalIn - outflow)

/-- The items and the change of a builder that has no item yet. -/
def arrange (pool : Pool) (i : BuildInputs T) (builder : Builder T) :
    Except Error (Layout T × Nat × Option ChangeStamp) := do
  let l ← addItems P pool i builder
  let change ← surplus i l
  let (l, changeStamp) ← addChange P pool i l change
  pure (l, change, changeStamp)

/-- Steps 1 and 2 of both builders. -/
def layOut (pool : Pool) (i : BuildInputs T) (builder : Builder T) : Except Error (Plan T) := do
  let (l, change, changeStamp) ← arrange P pool i builder
  let feeRule ← validateFee P pool i l change
  pure { toLayout := l, change, changeStamp, feeRule }

/-! ## Stamps -/

/-- Stamps every action of a bundle with the account's ZIP-32 path. -/
def stampActions (pool : Pool) (pczt : T.Pczt) (network : AnyZcashNetwork)
    (seedFingerprint : Bytes32) (accountIndex : Nat) : Except Error T.Pczt := do
  let path ← zip32Path (stampedCoinType network) accountIndex
  let derivation : Derivation := { seedFingerprint, path }
  let stamp (pczt : T.Pczt) (action : Nat) : Except String T.Pczt :=
    if P.validZip32 derivation then P.setSpendDerivation pool pczt action derivation
    else throw "InvalidIndex"
  let stampAll : Except String T.Pczt := do
    P.openBundle pool pczt
    (List.range (P.bundleActions pool pczt)).foldlM stamp pczt
  stampAll.mapError fun e ↦ .craft ("PCZT Updater (" ++ pool.name ++ " zip32): " ++ e)

def stampSpendDerivations (pczt : T.Pczt) (network : AnyZcashNetwork)
    (seedFingerprint : Bytes32) (accountIndex : Nat) : Except Error T.Pczt :=
  stampActions P .orchard pczt network seedFingerprint accountIndex

def stampIronwoodSpendDerivations (pczt : T.Pczt) (network : AnyZcashNetwork)
    (seedFingerprint : Bytes32) (accountIndex : Nat) : Except Error T.Pczt :=
  stampActions P .ironwood pczt network seedFingerprint accountIndex

/-- The derivation of a transparent key; `what` names the item in the error. -/
def transparentDerivation (network : AnyZcashNetwork) (seedFingerprint : Bytes32)
    (accountIndex scope addressIndex : Nat) (what : String) : Except Error Derivation := do
  let path ← bip44TransparentPath (stampedCoinType network) accountIndex scope addressIndex
  let derivation : Derivation := { seedFingerprint, path }
  (P.parseBip32 derivation).mapError fun e ↦
    Error.craft ("transparent " ++ what ++ " bip32 derivation: " ++ e)
  pure derivation

/-- The derivations of the transparent inputs, each with the input's public key. -/
def inputDerivations (network : AnyZcashNetwork) (seedFingerprint : Bytes32) (accountIndex : Nat)
    (transparentInputs : List TransparentInput) : Except Error (List (Arr 33 × Derivation)) :=
  transparentInputs.mapM fun tin ↦ do
    let derivation ← transparentDerivation P network seedFingerprint accountIndex
      tin.derivationScope tin.derivationAddressIndex "input"
    pure (tin.pubkey, derivation)

/-- The derivation of the change output, if there is one. -/
def changeDerivation (network : AnyZcashNetwork) (seedFingerprint : Bytes32) (accountIndex : Nat)
    (change : Option ChangeStamp) : Except Error (Option (ChangeStamp × Derivation)) :=
  match change with
  | none => pure none
  | some stamp => do
      let derivation ← transparentDerivation P network seedFingerprint accountIndex
        transparentInternalScope stamp.addressIndex "change"
      pure (some (stamp, derivation))

/-- Stamps every transparent input and the transparent change output. -/
def stampTransparentDerivations (pczt : T.Pczt) (network : AnyZcashNetwork)
    (seedFingerprint : Bytes32) (accountIndex : Nat) (transparentInputs : List TransparentInput)
    (change : Option ChangeStamp) : Except Error T.Pczt := do
  let inputs ← inputDerivations P network seedFingerprint accountIndex transparentInputs
  let change ← changeDerivation P network seedFingerprint accountIndex change
  let stampAll : Except String T.Pczt := do
    let pczt ← inputs.zipIdx.foldlM (fun pczt ((pubkey, derivation), i) ↦
      P.setInputDerivation pczt i pubkey derivation) pczt
    match change with
    | none => pure pczt
    | some (stamp, derivation) =>
        P.setOutputDerivation pczt stamp.index stamp.pubkey derivation
  stampAll.mapError fun e ↦ .craft ("PCZT Updater (transparent bip32): " ++ e)

/-! ## From the builder to the bytes -/

/-- The circuit version a branch's Orchard bundle is proved with. -/
def orchardCircuitVersionFor (branch : Option NetworkUpgrade) : OrchardCircuitVersion :=
  match P.bundleCircuit branch with
  | some .postNu6_3 => .postNu6_3
  | _ => .fixedPostNu6_2

/-- The proving key of a pool's bundle mined at `target`; the keys are named by their
circuit version. -/
def provingKeyFor (pool : Pool) (network : AnyZcashNetwork) (target : Nat) :
    OrchardCircuitVersion :=
  match pool with
  | .orchard =>
      match orchardCircuitVersionFor P (P.branchForHeight network target) with
      | .postNu6_3 => .postNu6_3
      | _ => .fixedPostNu6_2
  | .ironwood => .postNu6_3

/-- `Prover`: the proof of the bundle, when the PCZT needs one. -/
def prove (pool : Pool) (network : AnyZcashNetwork) (target : Nat) (pczt : T.Pczt) :
    Except Error T.Pczt :=
  if P.requiresProof pool pczt then
    (P.createProof pool (provingKeyFor P pool network target) pczt).mapError fun e ↦
      .craft ("PCZT Prover (" ++ pool.name ++ "): " ++ e)
  else pure pczt

/-- The viewing key stays on the Ironwood spends. -/
def applyV6Redaction (pczt : T.Pczt) : T.Pczt :=
  P.redactActions .ironwood [.cvNet, .encCiphertext .v3]
    (P.redactActions .orchard [.cvNet, .cmx, .spendFvk, .encCiphertext .v2] pczt)

/-- PCZT v1 for the Orchard path; v2 after redaction for the Ironwood path. -/
def encodePczt (pool : Pool) (pczt : T.Pczt) : Except Error (List UInt8) :=
  match pool with
  | .orchard => (P.serializeV1 pczt).mapError fun e ↦ .craft ("PCZT v1 encoding: " ++ e)
  | .ironwood =>
      (P.serializeV2 (applyV6Redaction P pczt)).mapError fun e ↦
        .craft ("PCZT v2 encoding: " ++ e)

/-- The ZIP-32 stamps, when there is a bundle to stamp. -/
def stampBundle (pool : Pool) (i : BuildInputs T) (hasBundle : Bool) (pczt : T.Pczt) :
    Except Error T.Pczt :=
  if hasBundle then
    match pool with
    | .orchard => stampSpendDerivations P pczt i.network i.seedFingerprint i.accountIndex
    | .ironwood => stampIronwoodSpendDerivations P pczt i.network i.seedFingerprint i.accountIndex
  else pure pczt

/-- The BIP-32 stamps, when there is a transparent item to stamp. -/
def stampTransparent (i : BuildInputs T) (change : Option ChangeStamp) (pczt : T.Pczt) :
    Except Error T.Pczt :=
  if !i.transparentInputs.isEmpty || change.isSome then
    stampTransparentDerivations P pczt i.network i.seedFingerprint i.accountIndex
      i.transparentInputs change
  else pure pczt

/-- Step 3 of both builders. -/
def finish (pool : Pool) (i : BuildInputs T) (hasBundle : Bool) (plan : Plan T) :
    Except Error BuildOutput := do
  let parts ← (P.buildForPczt plan.builder plan.feeRule).mapError fun e ↦
    Error.craft ("build_for_pczt: " ++ e)
  let nActions := ((P.partsActions pool parts).map asU32).getD 0
  let expiry ← capExpiryBelowNextActivation (i.network.activationHeight P.named) i.targetHeight
    (P.expiryHeight parts)
  let pczt ← okOr (P.createPczt (P.setExpiryHeight parts expiry))
    (.craft "PCZT Creator rejected the PcztParts (unsupported tx version)")
  let pczt ← stampBundle P pool i hasBundle pczt
  let pczt ← (P.finalizeIo pczt).mapError fun e ↦ Error.craft ("PCZT IoFinalizer: " ++ e)
  let pczt ← prove P pool i.network i.targetHeight pczt
  let pczt ← stampTransparent P i plan.changeStamp pczt
  let pcztBytes ← encodePczt P pool pczt
  pure
    { pcztBytes, fee := i.fee, anchorHeight := i.anchorHeight
      nActionsOrchard := if pool = .orchard then nActions else 0
      nTransparentInputs := asU32 i.transparentInputs.length
      nTransparentOutputs := plan.nTransparentOutputs
      nActionsIronwood := if pool = .ironwood then nActions else 0 }

/-! ## The two builders -/

/-- A bundle of the pool will be present. -/
def BuildInputs.hasBundle (i : BuildInputs T) : Bool :=
  !i.spends.isEmpty || i.outputs.any fun o ↦ o.destination.isShielded

/-- The guards on empty lists. -/
def checkNonempty (pool : Pool) (i : BuildInputs T) : Except Error Unit := do
  refuseIf (i.spends.isEmpty && i.transparentInputs.isEmpty)
    (Error.craft ("no inputs: both " ++ pool.name ++ " spends and transparent inputs are empty"))
  refuseIf i.outputs.isEmpty (Error.craft "outputs list is empty")

/-- The anchor of a bundle: zero decodes, but is no root of a commitment tree. -/
def decodeAnchor (pool : Pool) (anchor : Bytes32) : Except Error T.Anchor := do
  refuseIf (anchor = fill 32 0)
    (Error.craft (pool.debug ++ " anchor must be non-zero (zero is not a valid " ++
      "commitment-tree root)"))
  okOr (P.anchorFromBytes anchor) (.craft ("invalid " ++ pool.debug ++ " anchor encoding"))

/-- A PCZT v1 carries an Orchard anchor in any case: the root of the empty tree when there
is no bundle. -/
def orchardAnchor (i : BuildInputs T) : Except Error T.Anchor :=
  if i.hasBundle then decodeAnchor P .orchard i.anchor else pure P.emptyTreeAnchor

/-- `build_transaction` up to its builder, in the final layout. -/
def planTransaction (i : BuildInputs T) : Except Error (Plan T) := do
  refuseIf (!P.isNuActive i.network .nu5 i.targetHeight)
    (Error.craft ("NU5 is not active at target_height " ++ i.targetHeight.repr ++
      "; this builder emits v5 transactions, which require NU5 (or a later upgrade) to be " ++
      "active"))
  checkNonempty .orchard i
  let anchor ← orchardAnchor P i
  let builder : Builder T :=
    { network := i.network, targetHeight := i.targetHeight, orchardAnchor := some anchor
      ironwoodAnchor := none, proposedV5 := false, inputs := [], outputs := [] }
  (P.proposeV5 builder).mapError fun e ↦ Error.craft ("propose_version(V5): " ++ e)
  layOut P .orchard i { builder with proposedV5 := true }

/-- Build, prove and serialize a PCZT for an Orchard or transparent send. -/
def buildTransaction (i : BuildInputs T) : Except Error BuildOutput := do
  let plan ← planTransaction P i
  finish P .orchard i i.hasBundle plan

/-- `build_ironwood_transaction` up to its builder, in the final layout. -/
def planIronwoodTransaction (i : BuildInputs T) : Except Error (Plan T) := do
  refuseIf (!P.isNuActive i.network .nu6_3 i.targetHeight)
    (Error.craft ("NU6.3 is not active at target_height " ++ i.targetHeight.repr ++
      "; the Ironwood bundle requires the V6 transaction format, which requires NU6.3 (or a " ++
      "later upgrade) to be active"))
  checkNonempty .ironwood i
  refuseIf (!i.hasBundle)
    (Error.craft ("no Ironwood bundle: ironwood spends and ironwood outputs are both empty — " ++
      "use build_transaction for a transparent-only send"))
  let anchor ← decodeAnchor P .ironwood i.anchor
  layOut P .ironwood i
    { network := i.network, targetHeight := i.targetHeight, orchardAnchor := none
      ironwoodAnchor := some anchor, proposedV5 := false, inputs := [], outputs := [] }

/-- Build, prove and serialize a redacted V6 PCZT for an Ironwood send. -/
def buildIronwoodTransaction (i : BuildInputs T) : Except Error BuildOutput := do
  let plan ← planIronwoodTransaction P i
  finish P .ironwood i true plan

end LedgerZcash
