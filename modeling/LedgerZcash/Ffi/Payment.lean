import LedgerZcash.Crypto.DeviceInput
import LedgerZcash.Ffi.Build
import LedgerZcash.Ffi.Pczt
import LedgerZcash.Sync.OwnKeys

/-!
# What the device shows of a request

A build request is typed in JavaScript, and what the device shows is an object in JavaScript again.
Between the two are the decoding of the request, its witnesses, the builder, the stamps and two
serializations.  What is shown is what was typed (`payment_shown`): the coins with their keys, the
recipients in order, at most one output of the account's own, and amounts that add up.
-/

namespace LedgerZcash

open Hex Collect Decimal Parse

/-! ## Requests and objects -/

/-- The number that a text writes, zero when it writes none. -/
def amountOf (s : String) : Nat := (parseUnsigned u64Size s.toList).getD 0

namespace Napi.CommonParams

variable (network : AnyZcashNetwork) (params : CommonParams)

/-- The path of a key of the requested account. -/
def signingPath (purpose : Nat) (rest : List Nat) : String :=
  formatDerivationPath ([hardened purpose, hardened (stampedCoinType network),
    hardened params.accountIndex] ++ rest)

/-- The coin of an input and the key that it is signed with. -/
structure ShowsInput (t : TransparentInput) (input : PcztTransparentInput) : Prop where
  prevoutTxid : Hex.decode t.txid = .ok input.prevoutTxid
  prevoutIndex : input.prevoutIndex = t.vout
  value : input.value = (amountOf t.valueZat).repr
  pubkey : Hex.decode t.pubkey = .ok input.derivation.pubkey
  signingPath : input.derivation.signingPath =
    params.signingPath network 44 [t.derivationScope, t.addressIndex]
  seedFingerprint : Hex.decode params.seedFingerprint = .ok input.derivation.seedFingerprint

/-- The total of what is spent, and of what is paid. -/
def totalIn : Nat :=
  ((params.spends.map SpendInput.valueZat ++
    params.transparentInputs.map TransparentInput.valueZat).map amountOf).sum

def totalOut : Nat := ((params.outputs.map OutputRequest.valueZat).map amountOf).sum

variable {Path : Type} {T : CraftTypes Path} (K : WalletKeys T) (V : PcztView T)

/-- The script and the value of a recipient with a transparent address. -/
def recipient? (o : OutputRequest) : Option (List UInt8 × String) :=
  match decodeDestination K network o.address with
  | .ok (.transparent addr) => some (V.script addr, (amountOf o.valueZat).repr)
  | _ => none

/-- The wallet's own output: the change at the account's internal address, with its key. -/
inductive ShowsOwn (account : Option K.AccountPubKey) (change : Nat) :
    List PcztTransparentOutput → Prop
  | none (h : change = 0 ∨ params.spends ≠ []) : ShowsOwn account change []
  | change {output : PcztTransparentOutput} {derivation : PcztBip32Derivation}
      {key : K.AccountPubKey} {addr : T.TransparentAddress} {index : Nat} {pubkey : Arr 33}
      (hpos : 0 < change) (hkey : account = some key)
      (haddress : K.internalDefaultAddress key = some (addr, index))
      (hpubkey : K.deriveAddressPubkey key .internal index = .ok pubkey)
      (hscript : output.scriptPubKey = V.script addr) (hvalue : output.value = change.repr)
      (hderivation : output.derivation = some derivation)
      (hderived : derivation.pubkey = pubkey.1)
      (hpath : derivation.signingPath =
        params.signingPath network 44 [transparentInternalScope, index])
      (hseed : Hex.decode params.seedFingerprint = .ok derivation.seedFingerprint) :
      ShowsOwn account change [output]

/-- The object shows the request, for a surplus. -/
structure Shows (account : Option K.AccountPubKey) (change : Nat) (tx : PcztTransaction) :
    Prop where
  balance : params.totalIn = params.totalOut + change + amountOf params.feeZat
  inputs : List.Forall₂ (params.ShowsInput network) params.transparentInputs tx.transparentInputs
  outputs : ∃ recipients own, tx.transparentOutputs = recipients ++ own ∧
    recipients.map (fun o ↦ (o.scriptPubKey, o.value)) =
      params.outputs.filterMap (recipient? network K V) ∧
    (∀ o ∈ recipients, o.derivation = none) ∧
    params.ShowsOwn network K V account change own
  orchard : ∀ b ∈ tx.orchardBundle, ∀ a ∈ b.actions,
    a.signingPath = params.signingPath network 32 [] ∧
      Hex.decode params.seedFingerprint = .ok a.seedFingerprint
  ironwood : ∀ b ∈ tx.ironwoodBundle, ∀ a ∈ b.actions,
    a.signingPath = params.signingPath network 32 [] ∧
      Hex.decode params.seedFingerprint = .ok a.seedFingerprint

end Napi.CommonParams

/-! ## From the request to the builder -/

theorem amountOf_eq {s field : String} {n : Nat} (h : parseU64 s field = .ok n) :
    amountOf s = n := by
  rw [amountOf, parseU64_eq_ok.mp h]
  rfl

theorem hexToArray_eq_ok {n : Nat} {s field : String} {a : Arr n}
    (h : hexToArray n s field = .ok a) : Hex.decode s = .ok a.1 := by
  obtain ⟨bytes, hbytes, h⟩ := bind_eq_ok.mp h
  rw [orFail_eq_ok.mp hbytes]
  have hfrom := orElse_eq_ok.mp h
  unfold Arr.tryFrom at hfrom
  split at hfrom
  · cases hfrom
    rfl
  · cases hfrom

/-- What a request becomes on its way to the orchestrator. -/
structure Napi.CommonParams.Reads (params : CommonParams) (req : CommonRequest) : Prop where
  network : req.network = params.network
  regtestActivationHeights : req.regtestActivationHeights =
    params.regtestActivationHeights.map RegtestActivationHeights.schedule
  seedFingerprint : req.seedFingerprintHex = params.seedFingerprint
  accountIndex : req.accountIndex = params.accountIndex
  feeZat : amountOf params.feeZat = req.feeZat
  spends : req.spends.map SpendInputDto.valueZat =
    params.spends.map fun s ↦ amountOf s.valueZat
  transparentInputs : params.transparentInputs.mapM transparentInputDto =
    .ok req.transparentInputs
  outputs : params.outputs.mapM outputRequestDto = .ok req.outputs

theorem valueZat_spendInputDto {s : Napi.SpendInput} {dto : SpendInputDto}
    (h : spendInputDto s = .ok dto) : dto.valueZat = amountOf s.valueZat := by
  obtain ⟨value, hvalue, h⟩ := bind_eq_ok.mp h
  obtain ⟨position, -, h⟩ := bind_eq_ok.mp h
  cases pure_eq_ok.mp h
  exact (amountOf_eq hvalue).symm

/-- An input is handed on but for its amount. -/
theorem transparentInputDto_eq {t : Napi.TransparentInput} {dto : TransparentInputDto}
    (h : transparentInputDto t = .ok dto) :
    dto = ⟨t.txid, t.vout, t.scriptPubKey, amountOf t.valueZat, t.pubkey, t.derivationScope,
      t.addressIndex⟩ := by
  obtain ⟨value, hvalue, h⟩ := bind_eq_ok.mp h
  cases pure_eq_ok.mp h
  rw [amountOf_eq hvalue]

theorem outputRequestDto_eq {o : Napi.OutputRequest} {dto : OutputRequestDto}
    (h : outputRequestDto o = .ok dto) : dto = ⟨o.address, amountOf o.valueZat, o.memo⟩ := by
  obtain ⟨value, hvalue, h⟩ := bind_eq_ok.mp h
  cases pure_eq_ok.mp h
  rw [amountOf_eq hvalue]

theorem reads_of_commonRequest {params : Napi.CommonParams} {req : CommonRequest}
    (h : commonRequest params = .ok req) : params.Reads req := by
  obtain ⟨spends, hspends, h⟩ := bind_eq_ok.mp h
  obtain ⟨inputs, hinputs, h⟩ := bind_eq_ok.mp h
  obtain ⟨outputs, houtputs, h⟩ := bind_eq_ok.mp h
  obtain ⟨fee, hfee, h⟩ := bind_eq_ok.mp h
  cases pure_eq_ok.mp h
  exact ⟨rfl, rfl, rfl, rfl, amountOf_eq hfee,
    map_eq_map_of_mapM hspends fun _ _ _ hs ↦ valueZat_spendInputDto hs, hinputs, houtputs⟩

/-! ## From the builder to the object -/

section Shown

variable {S : ShardTrees} {T : CraftTypes S.Path} {K : WalletKeys T} {V : PcztView T}
  {tip : Except Failure Nat} {srv : Server} {pool : Pool} {i : BuildInputs T}
  {params : Napi.CommonParams} {req : CommonRequest} {text : Nat → String}
  {apk : Option K.AccountPubKey} {change : Nat}

theorem transparentKey_path (hreads : params.Reads req)
    (hassembled : Assembled S K tip srv pool req (decodeDestination K) text apk i)
    (scope index : Nat) : formatDerivationPath (i.transparentKey scope index).path =
      params.signingPath i.network 44 [scope, index] := by
  rw [BuildInputs.transparentKey, hassembled.accountIndex, hreads.accountIndex]
  rfl

theorem seedFingerprint_eq (hreads : params.Reads req)
    (hassembled : Assembled S K tip srv pool req (decodeDestination K) text apk i) :
    Hex.decode params.seedFingerprint = .ok i.seedFingerprint.1 :=
  hreads.seedFingerprint ▸ hexToArray_eq_ok hassembled.seedFingerprint

theorem shows_inputs (hreads : params.Reads req)
    (hassembled : Assembled S K tip srv pool req (decodeDestination K) text apk i)
    {parsed : List ParsedTransparentInput}
    (htold : List.Forall₂ (fun tin input ↦ inputCoin input = tin.coin ∧
      input.derivation = toldDerivation tin.pubkey
        (i.transparentKey tin.derivationScope tin.derivationAddressIndex))
      i.transparentInputs parsed) :
    List.Forall₂ (params.ShowsInput i.network) params.transparentInputs
      (parsed.map transparentInputToNapi) := by
  rw [List.forall₂_map_right_iff]
  refine (forall₂_comp (mapM_eq_ok_iff.mp hreads.transparentInputs)
    (forall₂_comp (mapM_eq_ok_iff.mp hassembled.inputs) htold)).imp ?_
  rintro t input ⟨dto, hdto, tin, htin, hcoin, hderivation⟩
  obtain rfl := transparentInputDto_eq hdto
  obtain ⟨htxid, hvout, ⟨k, -, howned⟩, hscope, hindex, hamount⟩ :=
    decodeTransparentInput_eq_ok htin
  have hcoin' := Coin.mk.inj hcoin
  refine ⟨?_, hcoin'.2.1.trans hvout, ?_, ?_, ?_, ?_⟩
  · exact (hexToArray_eq_ok htxid).trans (congrArg (fun a : Bytes32 ↦ Except.ok a.1) hcoin'.1.symm)
  · show input.value.repr = _
    rw [hcoin'.2.2, hamount]
  · show _ = Except.ok input.derivation.pubkey.1
    rw [hderivation]
    exact hexToArray_eq_ok howned.supplied
  · show input.derivation.signingPath = _
    rw [hderivation, hscope, hindex]
    exact transparentKey_path hreads hassembled _ _
  · show _ = Except.ok input.derivation.seedFingerprint.1
    rw [hderivation]
    exact seedFingerprint_eq hreads hassembled

/-- The recipients of the builder are those of the request. -/
theorem requested_scripts (hreads : params.Reads req)
    (hdecoded : decodeOutputs (decodeDestination K i.network) req.outputs = .ok i.outputs) :
    ((i.requested pool).filterMap (Payment.script V)).map (fun x ↦ (x.1, x.2.repr)) =
      params.outputs.filterMap (Napi.CommonParams.recipient? i.network K V) := by
  rw [List.map_filterMap, BuildInputs.requested, List.filterMap_map]
  refine (filterMap_eq_of_forall₂ ?_).symm
  refine (forall₂_comp (mapM_eq_ok_iff.mp hreads.outputs) (mapM_eq_ok_iff.mp hdecoded)).imp ?_
  rintro o out ⟨dto, hdto, hout⟩
  obtain rfl := outputRequestDto_eq hdto
  obtain ⟨destination, hdestination, hout⟩ := bind_eq_ok.mp hout
  cases pure_eq_ok.mp hout
  have haddress : decodeDestination K i.network o.address = .ok destination := hdestination
  rw [Napi.CommonParams.recipient?, haddress]
  cases destination with
  | shielded addr => rfl
  | transparent addr => rfl

theorem shows_own (hreads : params.Reads req)
    (hassembled : Assembled S K tip srv pool req (decodeDestination K) text apk i)
    {own : List ParsedTransparentOutput} (htold : i.TellsOwn V change own) :
    params.ShowsOwn i.network K V apk change (own.map transparentOutputToNapi) := by
  have hspends : i.spends.length = params.spends.length := by
    rw [← List.length_map SpendInput.value, hassembled.carries.spends, hreads.spends,
      List.length_map]
  obtain ⟨resolved, hresolve, haddress, hpubkey, hindex⟩ := hassembled.change
  cases htold with
  | none h =>
      refine .none (h.imp_right fun hne hnil ↦ hne ?_)
      exact List.length_eq_zero_iff.mp (hspends.trans (congrArg List.length hnil))
  | @change output addr pubkey index hpos haddr hkey haddressIndex hpays hderivation =>
      rcases resolveTransparentChange_eq_ok hresolve with rfl | ⟨c, rfl, hc⟩
      · cases haddr.symm.trans haddress
      · obtain ⟨key, hapk, hderive⟩ := Option.bind_eq_some_iff.mp hc
        obtain ⟨hinternal, hderived⟩ := deriveChange_eq_some hderive
        obtain rfl : addr = c.address := Option.some.inj (haddr.symm.trans haddress)
        obtain rfl : pubkey = c.pubkey := Option.some.inj (hkey.symm.trans hpubkey)
        obtain rfl : index = c.index := Option.some.inj (haddressIndex.symm.trans hindex)
        obtain ⟨hscript, hvalue⟩ := Prod.mk.inj hpays
        exact .change hpos hapk hinternal hderived hscript (congrArg Nat.repr hvalue)
          (congrArg (Option.map derivationToNapi) hderivation) rfl
          (transparentKey_path hreads hassembled _ _) (seedFingerprint_eq hreads hassembled)

/-- What the device is told of the inputs, as an object, shows the request. -/
theorem shows_of_told (hreads : params.Reads req)
    (hassembled : Assembled S K tip srv pool req (decodeDestination K) text apk i)
    {parsed : ParsedPczt} (htold : i.Told V pool change parsed) :
    params.Shows i.network K V apk change (parsedPcztToNapi parsed) := by
  have hcarries := hassembled.carries
  have htells : ∀ {a : ParsedOrchardAction}, a.Tells i.spendKey →
      a.signingPath = params.signingPath i.network 32 [] ∧
        Hex.decode params.seedFingerprint = .ok a.seedFingerprint.1 := by
    intro a ha
    rw [ha.path, ha.seed, BuildInputs.spendKey, hassembled.accountIndex, hreads.accountIndex]
    exact ⟨rfl, seedFingerprint_eq hreads hassembled⟩
  refine ⟨?_, shows_inputs hreads hassembled htold.inputs, ?_, ?_, ?_⟩
  · have hinputs : req.transparentInputs.map TransparentInputDto.valueZat =
        params.transparentInputs.map fun t ↦ amountOf t.valueZat :=
      map_eq_map_of_mapM hreads.transparentInputs fun _ _ _ ht ↦
        congrArg TransparentInputDto.valueZat (transparentInputDto_eq ht)
    have houtputs : req.outputs.map OutputRequestDto.valueZat =
        params.outputs.map fun o ↦ amountOf o.valueZat :=
      map_eq_map_of_mapM hreads.outputs fun _ _ _ ho ↦
        congrArg OutputRequestDto.valueZat (outputRequestDto_eq ho)
    have hbalance := htold.balance
    rw [BuildInputs.inputValues, map_value_requested, hcarries.spends, hcarries.inputs,
      hcarries.outputs, hcarries.fee, hreads.spends, hinputs, houtputs, ← hreads.feeZat] at hbalance
    rw [Napi.CommonParams.totalIn, Napi.CommonParams.totalOut, List.map_append, List.map_map,
      List.map_map, List.map_map]
    exact hbalance
  · obtain ⟨recipients, own, houtputs, hpays, hnone, hown⟩ := htold.outputs
    refine ⟨recipients.map transparentOutputToNapi, own.map transparentOutputToNapi, ?_, ?_, ?_,
      shows_own hreads hassembled hown⟩
    · exact (congrArg (List.map transparentOutputToNapi) houtputs).trans List.map_append
    · rw [← requested_scripts hreads hassembled.outputs, ← hpays, List.map_map, List.map_map]
      rfl
    · rintro o ho
      obtain ⟨output, houtput, rfl⟩ := List.mem_map.mp ho
      exact congrArg (Option.map derivationToNapi) (hnone output houtput)
  · rintro b hb a ha
    obtain ⟨bundle, hbundle, rfl⟩ := Option.map_eq_some_iff.mp hb
    obtain ⟨action, haction, rfl⟩ := List.mem_map.mp ha
    exact htells (htold.orchard bundle hbundle action haction)
  · rintro b hb a ha
    obtain ⟨bundle, hbundle, rfl⟩ := Option.map_eq_some_iff.mp hb
    obtain ⟨action, haction, rfl⟩ := List.mem_map.mp ha
    exact htells (htold.ironwood bundle hbundle action haction)

end Shown

/-! ## The whole way -/

/-- The PCZT of a result is as the upstream builder prepares it. -/
def Napi.BuildTransactionResult.PreparedFor {Path : Type} {T : CraftTypes Path} (V : PcztView T)
    (U : ParseUpstream T) (res : BuildTransactionResult) : Prop :=
  ∀ bytes pczt, Hex.decode res.pcztHex = .ok bytes → V.parse bytes = .ok pczt → Prepared V U pczt

/-- The result for a request on an account: it pays the fee of the request, and it can be parsed
for the device, which then shows the request. -/
def Napi.BuildTransactionResult.ShownFor {Path : Type} {T : CraftTypes Path} (K : WalletKeys T)
    (V : PcztView T) (U : ParseUpstream T) (params : CommonParams)
    (account : Except Failure (Option K.AccountPubKey)) (res : BuildTransactionResult) : Prop :=
  res.feeZat = (amountOf params.feeZat).repr ∧
    ∃ network apk change tx,
      resolveAnyNetwork params.network
        (params.regtestActivationHeights.map RegtestActivationHeights.schedule) = .ok network ∧
      account = .ok apk ∧ Napi.parsePczt V U res.pcztHex = .ok tx ∧
      params.Shows network K V apk change tx

section Payments

variable {S : ShardTrees} {T : CraftTypes S.Path} {K : WalletKeys T} {P : CraftUpstream T}
  {V : PcztView T} {U : ParseUpstream T} {tip : Except Failure Nat} {srv : Server} {pool : Pool}
  {i : BuildInputs T} {params : Napi.CommonParams} {req : CommonRequest} {text : Nat → String}
  {apk : Option K.AccountPubKey} {out : BuildOutput}

/-- A build of an assembled request is shown. -/
theorem shownFor_of_told (hreads : params.Reads req)
    (hassembled : Assembled S K tip srv pool req (decodeDestination K) text apk i)
    (hfee : out.fee = i.fee) {change : Nat} {parsed : ParsedPczt}
    (hparse : Parse.parsePczt V U out.pcztBytes = .ok parsed)
    (htold : i.Told V pool change parsed) (nActions : Nat) :
    (buildResult out nActions).ShownFor K V U params (.ok apk) := by
  refine ⟨?_, i.network, apk, change, parsedPcztToNapi parsed, ?_, rfl, ?_,
    shows_of_told hreads hassembled htold⟩
  · exact congrArg Nat.repr (hfee.trans (hassembled.fee.trans hreads.feeZat.symm))
  · rw [← hreads.network, ← hreads.regtestActivationHeights]
    exact hassembled.network
  · rw [Napi.parsePczt, buildResult, decode_encode]
    exact bind_eq_ok.mpr ⟨_, rfl, bind_eq_ok.mpr ⟨_, mapError_eq_ok.mpr hparse, rfl⟩⟩

theorem length_outputs (hreads : params.Reads req)
    (hassembled : Assembled S K tip srv pool req (decodeDestination K) text apk i) :
    i.outputs.length = params.outputs.length := by
  rw [(mapM_eq_ok_iff.mp hreads.outputs).length_eq,
    (mapM_eq_ok_iff.mp hassembled.outputs).length_eq]

end Payments

/-- On either builder, whatever the trees, the keys and the servers. -/
theorem payment_shown (S : ShardTrees) {T : CraftTypes S.Path} (K : WalletKeys T)
    {P : CraftUpstream T} {V : PcztView T} {U : ParseUpstream T} (L : PcztUpstream P V)
    (hserde : U.Serializes) (tipSrv srv : Server) (res : Napi.BuildTransactionResult)
    (hprepared : res.PreparedFor V U) :
    (∀ params : Napi.BuildTransactionParams, params.outputs.length < u32Size →
      Napi.buildTransaction S K P tipSrv srv params = .ok res →
        res.ShownFor K V U params.toCommonParams
          (craftRequest params >>= CraftRequest.accountKey K)) ∧
    (∀ params : Napi.BuildIronwoodTransactionParams, params.outputs.length < u32Size →
      Napi.buildIronwoodTransaction S K P tipSrv srv params = .ok res →
        res.ShownFor K V U params.toCommonParams
          (ironwoodCraftRequest params >>= IronwoodCraftRequest.accountKey K)) := by
  have hbuilt : ∀ {out : BuildOutput} {nActions : Nat}, buildResult out nActions = res →
      ∀ pczt, V.parse out.pcztBytes = .ok pczt → Prepared V U pczt := by
    rintro out nActions rfl pczt hpczt
    exact hprepared out.pcztBytes pczt (decode_encode _) hpczt
  constructor
  · intro params hlen h
    obtain ⟨req, hreq, h⟩ := bind_eq_ok.mp h
    obtain ⟨out, hout, h⟩ := bind_eq_ok.mp h
    have hres := pure_eq_ok.mp h
    obtain ⟨i, hinputs, hbuild⟩ := bind_eq_ok.mp hout
    obtain ⟨common, hcommon, hcraft⟩ := bind_eq_ok.mp hreq
    have hreads := reads_of_commonRequest hcommon
    obtain ⟨apk, haccount, hassembled⟩ := craftInputs_assembled hinputs
    cases pure_eq_ok.mp hcraft
    have hbuild' := orFail_eq_ok.mp hbuild
    obtain ⟨parsed, change, hparse, htold⟩ := told_of_build L hserde
      ((length_outputs hreads hassembled).trans_lt hlen) (hbuilt hres) hbuild'
    obtain ⟨plan, -, hfinish⟩ := bind_eq_ok.mp hbuild'
    obtain ⟨stages⟩ := finish_eq_ok hfinish
    rw [hreq, ok_bind, haccount, ← hres]
    exact shownFor_of_told hreads hassembled stages.fee_eq hparse htold _
  · intro params hlen h
    obtain ⟨req, hreq, h⟩ := bind_eq_ok.mp h
    obtain ⟨out, hout, h⟩ := bind_eq_ok.mp h
    have hres := pure_eq_ok.mp h
    obtain ⟨i, hinputs, hbuild⟩ := bind_eq_ok.mp hout
    obtain ⟨common, hcommon, hcraft⟩ := bind_eq_ok.mp hreq
    have hreads := reads_of_commonRequest hcommon
    obtain ⟨apk, haccount, hassembled⟩ := craftIronwoodInputs_assembled hinputs
    cases pure_eq_ok.mp hcraft
    have hbuild' := orFail_eq_ok.mp hbuild
    obtain ⟨parsed, change, hparse, htold⟩ := told_of_buildIronwood L hserde
      ((length_outputs hreads hassembled).trans_lt hlen) (hbuilt hres) hbuild'
    obtain ⟨plan, -, hfinish⟩ := bind_eq_ok.mp hbuild'
    obtain ⟨stages⟩ := finish_eq_ok hfinish
    rw [hreq, ok_bind, haccount, ← hres]
    exact shownFor_of_told hreads hassembled stages.fee_eq hparse htold _

/-! ## A public payment with change -/

section Sample

/-- Trees of one path. -/
def unitTrees : ShardTrees where
  Hash := Bytes32
  Frontier := Option Nat
  Path := Unit
  Tree := Unit
  fromBytes := some
  toBytes := id
  readCommitmentTree _ := .ok (some 1)
  emptyFrontier := none
  frontierPosition := id
  frontierRoot _ := fill 32 9
  empty := ()
  insert _ _ _ := .ok ()
  insertFrontier _ _ _ := .ok ()
  batchInsert _ _ _ := .ok ()
  rootAtCheckpoint _ := .ok (some (fill 32 9))
  witnessAtCheckpoint _ _ := .ok (some ())
  pathRoot _ _ := fill 32 9

/-- The account of the recorded payment. -/
def recordKeys : WalletKeys recordTypes where
  Ufvk := Unit
  AccountPubKey := Unit
  decodeUfvk := .ok
  parseUfvk _ := .ok ()
  orchard _ := some ()
  p2pkh _ := some ()
  addressAt _ _ _ := (5 : Nat)
  toOvk _ _ := ()
  deserializeAccount _ := .ok ()
  serializeAccount _ := fill 65 0
  internalDefaultAddress _ := some ((6 : Nat), 7)
  validIndex _ := true
  deriveAddressPubkey _ scope _ :=
    match scope with
    | .external => .ok (fill 33 2)
    | .internal => .ok (fill 33 4)
  decodeAddress _ address :=
    if address = "u" then some (.unified (some (5 : Nat)) none) else some (.transparent (6 : Nat))

/-- It spends a coin of 51 000 on a shielded and a transparent recipient. -/
def samplePublicParams : Napi.CommonParams where
  network := none
  regtestActivationHeights := none
  seedFingerprint := Hex.encode (List.replicate 32 2)
  accountIndex := 0
  feeZat := "4000"
  spends := []
  transparentInputs := [
    { txid := Hex.encode (List.replicate 32 3), vout := 0, scriptPubKey := "", valueZat := "51000"
      pubkey := Hex.encode (List.replicate 33 2), derivationScope := 0, addressIndex := 5 }]
  outputs := [⟨"u", "20000", some "hi"⟩, ⟨"t", "7000", none⟩]
  anchorHeight := some 1

theorem recordParse_preparedFor (res : Napi.BuildTransactionResult) :
    res.PreparedFor recordView recordParse :=
  fun _ pczt _ _ ↦ recordParse_prepared pczt

def sampleOrchardParams : Napi.BuildTransactionParams where
  toCommonParams := samplePublicParams
  ufvk := some "u"
  transparentAccountPubkey := none

def sampleIronwoodParams : Napi.BuildIronwoodTransactionParams where
  toCommonParams := samplePublicParams
  ufvk := "u"

theorem payment_shown_sample :
    (∃ res, Napi.buildTransaction unitTrees recordKeys recording leafServer leafServer
        sampleOrchardParams = .ok res ∧
      res.ShownFor recordKeys recordView recordParse samplePublicParams
        (craftRequest sampleOrchardParams >>= CraftRequest.accountKey recordKeys)) ∧
    (∃ res, Napi.buildIronwoodTransaction unitTrees recordKeys recording leafServer leafServer
        sampleIronwoodParams = .ok res ∧
      res.ShownFor recordKeys recordView recordParse samplePublicParams
        (ironwoodCraftRequest sampleIronwoodParams >>=
          IronwoodCraftRequest.accountKey recordKeys)) := by
  have horchard : (Napi.buildTransaction unitTrees recordKeys recording leafServer leafServer
      sampleOrchardParams).isOk = true := by decide +kernel
  have hironwood : (Napi.buildIronwoodTransaction unitTrees recordKeys recording leafServer
      leafServer sampleIronwoodParams).isOk = true := by decide +kernel
  obtain ⟨res, hres⟩ := exists_ok_of_isOk horchard
  obtain ⟨res', hres'⟩ := exists_ok_of_isOk hironwood
  exact ⟨⟨res, hres, (payment_shown unitTrees recordKeys recording_pcztUpstream
      recordParse_serializes leafServer leafServer res (recordParse_preparedFor res)).1
      sampleOrchardParams (by decide) hres⟩,
    ⟨res', hres', (payment_shown unitTrees recordKeys recording_pcztUpstream
      recordParse_serializes leafServer leafServer res' (recordParse_preparedFor res')).2
      sampleIronwoodParams (by decide) hres'⟩⟩

end Sample

end LedgerZcash
