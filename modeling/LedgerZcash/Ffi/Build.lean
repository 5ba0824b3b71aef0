import LedgerZcash.Lib.Decimal
import LedgerZcash.Sync.Craft

/-!
# Build requests from JavaScript

A build request crosses with its amounts and positions as decimal texts.  Each text is read as a
`u64`, the request is handed to the orchestrator, and what comes back is written as hex and
decimal again.  A request whose amounts are written as decimals arrives as it was meant, and one is
refused here only for a text that is no `u64` (`build_crossing`).
-/

namespace LedgerZcash

open Hex Collect Decimal

namespace Napi

/-- `OrchardSpendInputJs` and `IronwoodSpendInputJs`. -/
structure SpendInput where
  recipient : String
  valueZat : String
  rho : String
  rseed : String
  cmx : String
  position : String
deriving DecidableEq

/-- `OutputRequestJs` and `IronwoodOutputRequestJs`. -/
structure OutputRequest where
  address : String
  valueZat : String
  memo : Option String
deriving DecidableEq

/-- `TransparentInputJs`. -/
structure TransparentInput where
  txid : String
  vout : Nat
  scriptPubKey : String
  valueZat : String
  pubkey : String
  derivationScope : Nat
  addressIndex : Nat
deriving DecidableEq

/-- `RegtestActivationHeightsJs`. -/
structure RegtestActivationHeights where
  overwinter : Option Nat
  sapling : Option Nat
  blossom : Option Nat
  heartwood : Option Nat
  canopy : Option Nat
  nu5 : Option Nat
  nu6 : Option Nat
  nu6_1 : Option Nat
  nu6_2 : Option Nat
  nu6_3 : Option Nat
  nu7 : Option Nat
deriving DecidableEq

/-- The fields that both kinds of parameters have. -/
structure CommonParams where
  network : Option String
  regtestActivationHeights : Option RegtestActivationHeights
  seedFingerprint : String
  accountIndex : Nat
  feeZat : String
  spends : List SpendInput
  transparentInputs : List TransparentInput
  outputs : List OutputRequest
  anchorHeight : Option Nat

structure BuildTransactionParams extends CommonParams where
  ufvk : Option String
  transparentAccountPubkey : Option String

structure BuildIronwoodTransactionParams extends CommonParams where
  ufvk : String

/-- `BuildTransactionResult`, and `BuildIronwoodTransactionResult` with the actions of its
pool. -/
structure BuildTransactionResult where
  pcztHex : String
  feeZat : String
  anchorHeight : Nat
  nActions : Nat
  nTransparentInputs : Nat
  nTransparentOutputs : Nat
deriving DecidableEq

end Napi

/-! ## Conversions -/

/-- `From<RegtestActivationHeightsJs>`. -/
def Napi.RegtestActivationHeights.schedule (h : RegtestActivationHeights) : Schedule
  | .overwinter => h.overwinter
  | .sapling => h.sapling
  | .blossom => h.blossom
  | .heartwood => h.heartwood
  | .canopy => h.canopy
  | .nu5 => h.nu5
  | .nu6 => h.nu6
  | .nu6_1 => h.nu6_1
  | .nu6_2 => h.nu6_2
  | .nu6_3 => h.nu6_3
  | .nu7 => h.nu7

def parseU64 (s field : String) : Except Failure Nat :=
  (parseChecked u64Size s.toList).mapError fun e ↦
    .error ("invalid " ++ field ++ ": " ++ e.toString)

def spendInputDto (s : Napi.SpendInput) : Except Failure SpendInputDto := do
  let valueZat ← parseU64 s.valueZat "value_zat"
  let position ← parseU64 s.position "position"
  pure
    { recipientHex := s.recipient, valueZat, rhoHex := s.rho, rseedHex := s.rseed
      cmxHex := s.cmx, position }

/-- Also `convert_ironwood_transparent_inputs`, one by one. -/
def transparentInputDto (t : Napi.TransparentInput) : Except Failure TransparentInputDto := do
  let valueZat ← parseU64 t.valueZat "value_zat"
  pure
    { txidHex := t.txid, vout := t.vout, scriptPubkeyHex := t.scriptPubKey, valueZat
      pubkeyHex := t.pubkey, derivationScope := t.derivationScope
      addressIndex := t.addressIndex }

def outputRequestDto (o : Napi.OutputRequest) : Except Failure OutputRequestDto := do
  let valueZat ← parseU64 o.valueZat "value_zat"
  pure { address := o.address, valueZat, memo := o.memo }

def commonRequest (params : Napi.CommonParams) : Except Failure CommonRequest := do
  let spends ← params.spends.mapM spendInputDto
  let transparentInputs ← params.transparentInputs.mapM transparentInputDto
  let outputs ← params.outputs.mapM outputRequestDto
  let feeZat ← parseU64 params.feeZat "fee_zat"
  pure
    { network := params.network
      regtestActivationHeights :=
        params.regtestActivationHeights.map Napi.RegtestActivationHeights.schedule
      seedFingerprintHex := params.seedFingerprint, accountIndex := params.accountIndex, feeZat
      spends, transparentInputs, outputs, anchorHeight := params.anchorHeight }

def craftRequest (params : Napi.BuildTransactionParams) : Except Failure CraftRequest := do
  let common ← commonRequest params.toCommonParams
  pure
    { common with
      ufvk := params.ufvk, transparentAccountPubkeyHex := params.transparentAccountPubkey }

def ironwoodCraftRequest (params : Napi.BuildIronwoodTransactionParams) :
    Except Failure IronwoodCraftRequest := do
  let common ← commonRequest params.toCommonParams
  pure { common with ufvk := params.ufvk }

/-- The result, with the number of actions of the pool. -/
def buildResult (out : BuildOutput) (nActions : Nat) : Napi.BuildTransactionResult where
  pcztHex := Hex.encode out.pcztBytes
  feeZat := out.fee.repr
  anchorHeight := out.anchorHeight
  nActions := nActions
  nTransparentInputs := out.nTransparentInputs
  nTransparentOutputs := out.nTransparentOutputs

namespace Napi

variable (S : ShardTrees) {T : CraftTypes S.Path} (K : WalletKeys T) (P : CraftUpstream T)
  (tipSrv srv : Server)

/-- Build, prove and serialize a PCZT for a send transaction. -/
def buildTransaction (params : BuildTransactionParams) :
    Except Failure BuildTransactionResult := do
  let req ← craftRequest params
  let out ← craftTransaction S K P srv tipSrv req
  pure (buildResult out out.nActionsOrchard)

/-- The same for an Ironwood send. -/
def buildIronwoodTransaction (params : BuildIronwoodTransactionParams) :
    Except Failure BuildTransactionResult := do
  let req ← ironwoodCraftRequest params
  let out ← craftIronwoodTransaction S K P srv tipSrv req
  pure (buildResult out out.nActionsIronwood)

end Napi

/-! ## What is accepted -/

theorem parseU64_eq_ok {s field : String} {n : Nat} :
    parseU64 s field = .ok n ↔ parseUnsigned u64Size s.toList = some n :=
  mapError_eq_ok.trans (parseChecked_eq_ok (by decide))

/-- A text that writes a `u64`. -/
def IsU64 (s : String) : Prop := ∃ n, parseUnsigned u64Size s.toList = some n

theorem exists_parseU64 {s field : String} : (∃ n, parseU64 s field = .ok n) ↔ IsU64 s :=
  exists_congr fun _ ↦ parseU64_eq_ok

/-- All amounts and positions of a request are `u64`s. -/
structure Napi.CommonParams.Numeric (params : CommonParams) : Prop where
  spends : ∀ s ∈ params.spends, IsU64 s.valueZat ∧ IsU64 s.position
  transparentInputs : ∀ t ∈ params.transparentInputs, IsU64 t.valueZat
  outputs : ∀ o ∈ params.outputs, IsU64 o.valueZat
  feeZat : IsU64 params.feeZat

theorem exists_spendInputDto {s : Napi.SpendInput} :
    (∃ dto, spendInputDto s = .ok dto) ↔ IsU64 s.valueZat ∧ IsU64 s.position := by
  simp only [spendInputDto, bind_eq_ok, pure_eq_ok]
  constructor
  · rintro ⟨_, value, hvalue, position, hposition, -⟩
    exact ⟨exists_parseU64.mp ⟨value, hvalue⟩, exists_parseU64.mp ⟨position, hposition⟩⟩
  · rintro ⟨hvalue, hposition⟩
    obtain ⟨value, hvalue⟩ := exists_parseU64.mpr hvalue
    obtain ⟨position, hposition⟩ := exists_parseU64.mpr hposition
    exact ⟨_, value, hvalue, position, hposition, rfl⟩

theorem exists_transparentInputDto {t : Napi.TransparentInput} :
    (∃ dto, transparentInputDto t = .ok dto) ↔ IsU64 t.valueZat := by
  rw [← @exists_parseU64 _ "value_zat"]
  simp only [transparentInputDto, bind_eq_ok, pure_eq_ok]
  exact ⟨fun ⟨_, n, h, _⟩ ↦ ⟨n, h⟩, fun ⟨n, h⟩ ↦ ⟨_, n, h, rfl⟩⟩

theorem exists_outputRequestDto {o : Napi.OutputRequest} :
    (∃ dto, outputRequestDto o = .ok dto) ↔ IsU64 o.valueZat := by
  rw [← @exists_parseU64 _ "value_zat"]
  simp only [outputRequestDto, bind_eq_ok, pure_eq_ok]
  exact ⟨fun ⟨_, n, h, _⟩ ↦ ⟨n, h⟩, fun ⟨n, h⟩ ↦ ⟨_, n, h, rfl⟩⟩

/-- A request is refused here only for a text that is no `u64`. -/
theorem exists_commonRequest {params : Napi.CommonParams} :
    (∃ req, commonRequest params = .ok req) ↔ params.Numeric := by
  simp only [commonRequest, bind_eq_ok, pure_eq_ok]
  constructor
  · rintro ⟨_, spends, hspends, inputs, hinputs, outputs, houtputs, fee, hfee, -⟩
    refine ⟨fun s hs ↦ ?_, fun t ht ↦ ?_, fun o ho ↦ ?_, exists_parseU64.mp ⟨fee, hfee⟩⟩
    · obtain ⟨dto, -, hdto⟩ := exists_of_forall₂_left (mapM_eq_ok_iff.mp hspends) hs
      exact exists_spendInputDto.mp ⟨dto, hdto⟩
    · obtain ⟨dto, -, hdto⟩ := exists_of_forall₂_left (mapM_eq_ok_iff.mp hinputs) ht
      exact exists_transparentInputDto.mp ⟨dto, hdto⟩
    · obtain ⟨dto, -, hdto⟩ := exists_of_forall₂_left (mapM_eq_ok_iff.mp houtputs) ho
      exact exists_outputRequestDto.mp ⟨dto, hdto⟩
  · rintro ⟨hspends, hinputs, houtputs, hfee⟩
    obtain ⟨spends, hs⟩ := exists_mapM_eq_ok fun s h ↦ exists_spendInputDto.mpr (hspends s h)
    obtain ⟨inputs, hi⟩ := exists_mapM_eq_ok fun t h ↦
      exists_transparentInputDto.mpr (hinputs t h)
    obtain ⟨outputs, ho⟩ := exists_mapM_eq_ok fun o h ↦
      exists_outputRequestDto.mpr (houtputs o h)
    obtain ⟨fee, hfee⟩ := exists_parseU64.mpr hfee
    exact ⟨_, spends, hs, inputs, hi, outputs, ho, fee, hfee, rfl⟩

/-! ## What arrives -/

/-- A request as a caller writes it, its numbers as decimals. -/
def renderSpend (dto : SpendInputDto) : Napi.SpendInput where
  recipient := dto.recipientHex
  valueZat := dto.valueZat.repr
  rho := dto.rhoHex
  rseed := dto.rseedHex
  cmx := dto.cmxHex
  position := dto.position.repr

def renderTransparentInput (dto : TransparentInputDto) : Napi.TransparentInput where
  txid := dto.txidHex
  vout := dto.vout
  scriptPubKey := dto.scriptPubkeyHex
  valueZat := dto.valueZat.repr
  pubkey := dto.pubkeyHex
  derivationScope := dto.derivationScope
  addressIndex := dto.addressIndex

def renderOutput (dto : OutputRequestDto) : Napi.OutputRequest where
  address := dto.address
  valueZat := dto.valueZat.repr
  memo := dto.memo

def renderSchedule (schedule : Schedule) : Napi.RegtestActivationHeights where
  overwinter := schedule .overwinter
  sapling := schedule .sapling
  blossom := schedule .blossom
  heartwood := schedule .heartwood
  canopy := schedule .canopy
  nu5 := schedule .nu5
  nu6 := schedule .nu6
  nu6_1 := schedule .nu6_1
  nu6_2 := schedule .nu6_2
  nu6_3 := schedule .nu6_3
  nu7 := schedule .nu7

def renderCommon (req : CommonRequest) : Napi.CommonParams where
  network := req.network
  regtestActivationHeights := req.regtestActivationHeights.map renderSchedule
  seedFingerprint := req.seedFingerprintHex
  accountIndex := req.accountIndex
  feeZat := req.feeZat.repr
  spends := req.spends.map renderSpend
  transparentInputs := req.transparentInputs.map renderTransparentInput
  outputs := req.outputs.map renderOutput
  anchorHeight := req.anchorHeight

/-- All numbers that cross as texts are `u64`s. -/
structure CommonRequest.InRange (req : CommonRequest) : Prop where
  spends : ∀ s ∈ req.spends, s.valueZat < u64Size ∧ s.position < u64Size
  transparentInputs : ∀ t ∈ req.transparentInputs, t.valueZat < u64Size
  outputs : ∀ o ∈ req.outputs, o.valueZat < u64Size
  feeZat : req.feeZat < u64Size

theorem parseU64_repr {n : Nat} (h : n < u64Size) (field : String) :
    parseU64 n.repr field = .ok n :=
  mapError_eq_ok.mpr (parseChecked_repr h)

theorem spendInputDto_render {dto : SpendInputDto} (hvalue : dto.valueZat < u64Size)
    (hposition : dto.position < u64Size) : spendInputDto (renderSpend dto) = .ok dto := by
  rw [spendInputDto, renderSpend, parseU64_repr hvalue, ok_bind, parseU64_repr hposition]
  rfl

theorem transparentInputDto_render {dto : TransparentInputDto} (h : dto.valueZat < u64Size) :
    transparentInputDto (renderTransparentInput dto) = .ok dto := by
  rw [transparentInputDto, renderTransparentInput, parseU64_repr h]
  rfl

theorem outputRequestDto_render {dto : OutputRequestDto} (h : dto.valueZat < u64Size) :
    outputRequestDto (renderOutput dto) = .ok dto := by
  rw [outputRequestDto, renderOutput, parseU64_repr h]
  rfl

theorem schedule_render (schedule : Schedule) : (renderSchedule schedule).schedule = schedule := by
  funext nu
  cases nu <;> rfl

theorem mapM_render {α β : Type} {render : α → β} {read : β → Except Failure α} {l : List α}
    (h : ∀ a ∈ l, read (render a) = .ok a) : (l.map render).mapM read = .ok l := by
  rw [mapM_eq_ok_iff, List.forall₂_map_left_iff, List.forall₂_same]
  exact h

/-- A request arrives as it was written. -/
theorem commonRequest_render {req : CommonRequest} (h : req.InRange) :
    commonRequest (renderCommon req) = .ok req := by
  have hschedule : (req.regtestActivationHeights.map renderSchedule).map
      Napi.RegtestActivationHeights.schedule = req.regtestActivationHeights := by
    rw [Option.map_map]
    exact (congrArg (Option.map · _) (funext schedule_render)).trans Option.map_id'
  rw [commonRequest, renderCommon]
  dsimp only
  rw [mapM_render fun s hs ↦ spendInputDto_render (h.spends s hs).1 (h.spends s hs).2, ok_bind,
    mapM_render fun t ht ↦ transparentInputDto_render (h.transparentInputs t ht), ok_bind,
    mapM_render fun o ho ↦ outputRequestDto_render (h.outputs o ho), ok_bind,
    parseU64_repr h.feeZat, hschedule]
  rfl

def renderCraft (req : CraftRequest) : Napi.BuildTransactionParams where
  toCommonParams := renderCommon req.toCommonRequest
  ufvk := req.ufvk
  transparentAccountPubkey := req.transparentAccountPubkeyHex

def renderIronwoodCraft (req : IronwoodCraftRequest) : Napi.BuildIronwoodTransactionParams where
  toCommonParams := renderCommon req.toCommonRequest
  ufvk := req.ufvk

/-! ## The crossing -/

/-- The way of a request into an orchestrator and of its result back.  A caller who writes the
numbers of a request as decimals has it read as it is; what is read has numbers that fit; and
without them nothing is asked of a server. -/
structure Crosses {Params Request : Type} (common : Params → Napi.CommonParams)
    (toCommon : Request → CommonRequest) (render : Request → Params)
    (read : Params → Except Failure Request)
    (build : Params → Except Failure Napi.BuildTransactionResult)
    (craft : Request → Except Failure Napi.BuildTransactionResult) : Prop where
  rendered : ∀ req, (toCommon req).InRange → read (render req) = .ok req
  accepted : ∀ params, (common params).Numeric →
    ∃ req, read params = .ok req ∧ (toCommon req).InRange ∧ build params = craft req
  refused : ∀ params, ¬(common params).Numeric →
    ∃ e, read params = .error e ∧ build params = .error e

theorem lt_of_parseU64 {s field : String} {n : Nat} (h : parseU64 s field = .ok n) :
    n < u64Size := parseUnsigned_lt (parseU64_eq_ok.mp h)

theorem inRange_of_commonRequest {params : Napi.CommonParams} {req : CommonRequest}
    (h : commonRequest params = .ok req) : req.InRange := by
  obtain ⟨spends, hspends, h⟩ := bind_eq_ok.mp h
  obtain ⟨inputs, hinputs, h⟩ := bind_eq_ok.mp h
  obtain ⟨outputs, houtputs, h⟩ := bind_eq_ok.mp h
  obtain ⟨fee, hfee, h⟩ := bind_eq_ok.mp h
  cases pure_eq_ok.mp h
  refine ⟨fun dto hdto ↦ ?_, fun dto hdto ↦ ?_, fun dto hdto ↦ ?_, lt_of_parseU64 hfee⟩
  · obtain ⟨s, -, hs⟩ := exists_of_forall₂_right (mapM_eq_ok_iff.mp hspends) hdto
    obtain ⟨value, hvalue, hs⟩ := bind_eq_ok.mp hs
    obtain ⟨position, hposition, hs⟩ := bind_eq_ok.mp hs
    cases pure_eq_ok.mp hs
    exact ⟨lt_of_parseU64 hvalue, lt_of_parseU64 hposition⟩
  · obtain ⟨t, -, ht⟩ := exists_of_forall₂_right (mapM_eq_ok_iff.mp hinputs) hdto
    obtain ⟨value, hvalue, ht⟩ := bind_eq_ok.mp ht
    cases pure_eq_ok.mp ht
    exact lt_of_parseU64 hvalue
  · obtain ⟨o, -, ho⟩ := exists_of_forall₂_right (mapM_eq_ok_iff.mp houtputs) hdto
    obtain ⟨value, hvalue, ho⟩ := bind_eq_ok.mp ho
    cases pure_eq_ok.mp ho
    exact lt_of_parseU64 hvalue

/-- Without a number where one is needed, no request is read. -/
theorem commonRequest_eq_error {params : Napi.CommonParams} (h : ¬params.Numeric) :
    ∃ e, commonRequest params = .error e := by
  cases hread : commonRequest params with
  | ok req => exact absurd (exists_commonRequest.mp ⟨req, hread⟩) h
  | error e => exact ⟨e, rfl⟩

/-- A build that reads its request through `commonRequest`, and hands it on, crosses. -/
theorem crosses_of_common {Params Request : Type} {common : Params → Napi.CommonParams}
    {toCommon : Request → CommonRequest} {render : Request → Params}
    {read : Params → Except Failure Request}
    {build : Params → Except Failure Napi.BuildTransactionResult}
    {craft : Request → Except Failure Napi.BuildTransactionResult}
    (attach : Params → CommonRequest → Request)
    (hcommon : ∀ req, common (render req) = renderCommon (toCommon req))
    (hrender : ∀ req, attach (render req) (toCommon req) = req)
    (hattach : ∀ params req, toCommon (attach params req) = req)
    (hread : ∀ params, read params =
      commonRequest (common params) >>= fun req ↦ pure (attach params req))
    (hbuild : ∀ params, build params =
      commonRequest (common params) >>= fun req ↦ craft (attach params req)) :
    Crosses common toCommon render read build craft where
  rendered req h := by
    rw [hread, hcommon, commonRequest_render h, ok_bind, hrender]
    rfl
  accepted params h := by
    obtain ⟨req, hreq⟩ := exists_commonRequest.mpr h
    refine ⟨attach params req, ?_, ?_, ?_⟩
    · rw [hread, hreq]
      rfl
    · rw [hattach]
      exact inRange_of_commonRequest hreq
    · rw [hbuild, hreq, ok_bind]
  refused params h := by
    obtain ⟨e, he⟩ := commonRequest_eq_error h
    refine ⟨e, ?_, ?_⟩
    · rw [hread, he]
      rfl
    · rw [hbuild, he]
      rfl

/-- A request with the keys of its parameters. -/
def Napi.BuildTransactionParams.attach (params : BuildTransactionParams) (req : CommonRequest) :
    CraftRequest :=
  { req with
    ufvk := params.ufvk, transparentAccountPubkeyHex := params.transparentAccountPubkey }

def Napi.BuildIronwoodTransactionParams.attach (params : BuildIronwoodTransactionParams)
    (req : CommonRequest) : IronwoodCraftRequest :=
  { req with ufvk := params.ufvk }

/-- Both builds cross, on every tree, account and server. -/
theorem build_crossing (S : ShardTrees) {T : CraftTypes S.Path} (K : WalletKeys T)
    (P : CraftUpstream T) (tipSrv srv : Server) :
    Crosses Napi.BuildTransactionParams.toCommonParams CraftRequest.toCommonRequest renderCraft
      craftRequest (Napi.buildTransaction S K P tipSrv srv) (fun req ↦
        (craftTransaction S K P srv tipSrv req).map fun out ↦
          buildResult out out.nActionsOrchard) ∧
    Crosses Napi.BuildIronwoodTransactionParams.toCommonParams
      IronwoodCraftRequest.toCommonRequest renderIronwoodCraft ironwoodCraftRequest
      (Napi.buildIronwoodTransaction S K P tipSrv srv) (fun req ↦
        (craftIronwoodTransaction S K P srv tipSrv req).map fun out ↦
          buildResult out out.nActionsIronwood) := by
  have hmap : ∀ {e : Except Failure BuildOutput} {f : BuildOutput → Napi.BuildTransactionResult},
      (e >>= fun out ↦ pure (f out)) = e.map f := fun {e _} ↦ by cases e <;> rfl
  constructor
  · refine crosses_of_common Napi.BuildTransactionParams.attach (fun _ ↦ rfl) (fun _ ↦ rfl)
      (fun _ _ ↦ rfl) (fun _ ↦ rfl) fun params ↦ ?_
    rw [Napi.buildTransaction, craftRequest]
    cases commonRequest params.toCommonParams with
    | ok req => exact hmap
    | error e => rfl
  · refine crosses_of_common Napi.BuildIronwoodTransactionParams.attach (fun _ ↦ rfl)
      (fun _ ↦ rfl) (fun _ _ ↦ rfl) (fun _ ↦ rfl) fun params ↦ ?_
    rw [Napi.buildIronwoodTransaction, ironwoodCraftRequest]
    cases commonRequest params.toCommonParams with
    | ok req => exact hmap
    | error e => rfl

end LedgerZcash
