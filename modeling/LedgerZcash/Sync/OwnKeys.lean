import LedgerZcash.Sync.Pairing

/-!
# Keys of the account

A request names its account by a UFVK, a transparent key of its own, or both
(`accountKey`).  What an orchestrator hands to its builder spends only keys derived from
that account's transparent key, and pays transparent change only to one of them.  The
orchestrators also foresee the change: without a key to derive its address from, they
refuse a request exactly when the builder would add a transparent change output.
-/

namespace LedgerZcash

open Hex Collect

/-! ## The account of a request -/

section Keys

variable {Path : Type} {T : CraftTypes Path} (K : WalletKeys T)

/-- The transparent key of the account that a request names. -/
def CraftRequest.accountKey (req : CraftRequest) : Except Failure (Option K.AccountPubKey) := do
  let ufvk ← req.ufvk.mapM (parseEncodedUfvk K)
  resolveAccountPubkey K (ufvk.bind K.p2pkh) req.transparentAccountPubkeyHex

def IronwoodCraftRequest.accountKey (req : IronwoodCraftRequest) :
    Except Failure (Option K.AccountPubKey) := do
  let ufvk ← parseEncodedUfvk K req.ufvk
  pure (K.p2pkh ufvk)

/-- The scope of a derivation, as requests write it. -/
def keyScope : Nat → Scope
  | 0 => .external
  | _ => .internal

/-- The requested input has a known scope, and the public key it supplies is the one derived
at its scope and index from the account key. -/
structure TransparentInputDto.Owned (dto : TransparentInputDto) (apk : K.AccountPubKey)
    (pubkey : Arr 33) : Prop where
  scope : dto.derivationScope = 0 ∨ dto.derivationScope = 1
  supplied : hexToArray 33 dto.pubkeyHex "pubkey" = .ok pubkey
  derived : K.deriveAddressPubkey apk (keyScope dto.derivationScope) dto.addressIndex = .ok pubkey

/-- An input of the builder is the requested one, under the account key. -/
structure TransparentInput.OwnedBy (apk : Option K.AccountPubKey) (dto : TransparentInputDto)
    (tin : TransparentInput) : Prop where
  txid : hexToArray 32 dto.txidHex "txid" = .ok tin.txid
  vout : tin.vout = dto.vout
  owned : ∃ k, apk = some k ∧ dto.Owned K k tin.pubkey
  scope : tin.derivationScope = dto.derivationScope
  index : tin.derivationAddressIndex = dto.addressIndex
  value : tin.value = dto.valueZat

/-- The transparent change of what reaches a builder: its address, its public key and its
address index.  There are none of them, or all three come from one internal index. -/
inductive ChangeOwned (p2pkhAddress : Arr 33 → T.TransparentAddress)
    (apk : Option K.AccountPubKey) :
    Option T.TransparentAddress → Option (Arr 33) → Option Nat → Prop
  | absent : ChangeOwned p2pkhAddress apk none none none
  | internal {k : K.AccountPubKey} {pubkey : Arr 33} {index : Nat} (hkey : apk = some k)
      (hderived : K.deriveAddressPubkey k .internal index = .ok pubkey) :
      ChangeOwned p2pkhAddress apk (some (p2pkhAddress pubkey)) (some pubkey) (some index)

/-- The default internal address is that of the public key at its index. -/
def WalletKeys.ChangeLaw (p2pkhAddress : Arr 33 → T.TransparentAddress) : Prop :=
  ∀ k addr index pubkey, K.internalDefaultAddress k = some (addr, index) →
    K.deriveAddressPubkey k .internal index = .ok pubkey → addr = p2pkhAddress pubkey

/-- The values of a request, as they enter a builder. -/
structure BuildInputs.Carries (i : BuildInputs T) (req : CommonRequest) : Prop where
  fee : i.fee = req.feeZat
  spends : i.spends.map SpendInput.value = req.spends.map SpendInputDto.valueZat
  inputs : i.transparentInputs.map TransparentInput.value =
    req.transparentInputs.map TransparentInputDto.valueZat
  outputs : i.outputs.map OutputRequest.value = req.outputs.map OutputRequestDto.valueZat

theorem BuildInputs.Carries.length_spends {i : BuildInputs T} {req : CommonRequest}
    (h : i.Carries req) : i.spends.length = req.spends.length := by
  have hlen := congrArg List.length h.spends
  rwa [List.length_map, List.length_map] at hlen

/-- What reaches the builder carries the request, with keys of the account only. -/
structure BuildInputs.OwnKeys (i : BuildInputs T) (p2pkhAddress : Arr 33 → T.TransparentAddress)
    (req : CommonRequest) (apk : Option K.AccountPubKey) : Prop where
  carries : i.Carries req
  inputs : List.Forall₂ (TransparentInput.OwnedBy K apk) req.transparentInputs i.transparentInputs
  change : ChangeOwned K p2pkhAddress apk i.transparentChangeAddress i.transparentChangePubkey
    i.transparentChangeAddressIndex

end Keys

variable {Path : Type} {T : CraftTypes Path} {K : WalletKeys T}

/-! ## Inputs and change -/

section Decoded

variable {p2pkhAddress : Arr 33 → T.TransparentAddress} {apk : Option K.AccountPubKey}

theorem parseScope_eq_ok {n : Nat} {scope : Scope} (h : parseScope n = .ok scope) :
    (n = 0 ∨ n = 1) ∧ scope = keyScope n := by
  rcases n with _ | _ | n
  · cases h
    exact ⟨.inl rfl, rfl⟩
  · cases h
    exact ⟨.inr rfl, rfl⟩
  · cases h

theorem decodeTransparentInput_eq_ok {dto : TransparentInputDto} {tin : TransparentInput}
    (h : decodeTransparentInput K apk dto = .ok tin) : tin.OwnedBy K apk dto := by
  unfold decodeTransparentInput at h
  obtain ⟨txid, htxid, h⟩ := bind_eq_ok.mp h
  obtain ⟨pubkey, hpubkey, h⟩ := bind_eq_ok.mp h
  obtain ⟨scriptPubkey, _, h⟩ := bind_eq_ok.mp h
  obtain ⟨scope, hscope, h⟩ := bind_eq_ok.mp h
  obtain ⟨k, hk, h⟩ := bind_eq_ok.mp h
  obtain ⟨_, _, h⟩ := bind_eq_ok.mp h
  obtain ⟨derived, hderived, h⟩ := bind_eq_ok.mp h
  obtain ⟨_, hmatch, h⟩ := bind_eq_ok.mp h
  cases pure_eq_ok.mp h
  obtain ⟨hknown, rfl⟩ := parseScope_eq_ok hscope
  cases of_not_not (refuseIf_eq_ok.mp hmatch)
  exact ⟨htxid, rfl, ⟨k, orElse_eq_ok.mp hk, hknown, hpubkey, orFail_eq_ok.mp hderived⟩, rfl, rfl,
    rfl⟩

theorem deriveChange_eq_some {k : K.AccountPubKey} {change : TransparentChange T}
    (h : deriveChange K k = some change) :
    K.internalDefaultAddress k = some (change.address, change.index) ∧
      K.deriveAddressPubkey k .internal change.index = .ok change.pubkey := by
  obtain ⟨⟨address, index⟩, haddress, h⟩ := Option.bind_eq_some_iff.mp h
  obtain ⟨pubkey, hpubkey, h⟩ := Option.bind_eq_some_iff.mp h
  cases h
  exact ⟨haddress, toOption_eq_some.mp hpubkey⟩

/-- A resolved change is that of the account key. -/
theorem resolveTransparentChange_eq_ok {req : CommonRequest} {text : Nat → String}
    {change : Option (TransparentChange T)}
    (h : resolveTransparentChange K req apk text = .ok change) :
    change = none ∨ ∃ c, change = some c ∧ apk.bind (deriveChange K) = some c := by
  unfold resolveTransparentChange at h
  split at h
  · split at h
    · rename_i c hc
      cases pure_eq_ok.mp h
      exact .inr ⟨c, rfl, hc⟩
    · obtain ⟨_, _, h⟩ := bind_eq_ok.mp h
      cases pure_eq_ok.mp h
      exact .inl rfl
  · cases pure_eq_ok.mp h
    exact .inl rfl

/-- The address of a resolved change, its public key and its index belong together. -/
theorem changeOwned_of_resolve (hlaw : K.ChangeLaw p2pkhAddress) {req : CommonRequest}
    {text : Nat → String} {change : Option (TransparentChange T)}
    (h : resolveTransparentChange K req apk text = .ok change) :
    ChangeOwned K p2pkhAddress apk (change.map TransparentChange.address)
      (change.map TransparentChange.pubkey) (change.map TransparentChange.index) := by
  rcases resolveTransparentChange_eq_ok h with rfl | ⟨c, rfl, hc⟩
  · exact .absent
  · obtain ⟨k, hk, hderive⟩ := Option.bind_eq_some_iff.mp hc
    obtain ⟨haddress, hpubkey⟩ := deriveChange_eq_some hderive
    have haddr := hlaw k _ _ _ haddress hpubkey
    rw [Option.map_some, Option.map_some, Option.map_some, haddr]
    exact .internal hk hpubkey

theorem values_of_decodeOutputs {decode : String → Except Failure (Destination T)}
    {dtos : List OutputRequestDto} {outputs : List (OutputRequest T)}
    (h : decodeOutputs decode dtos = .ok outputs) :
    outputs.map OutputRequest.value = dtos.map OutputRequestDto.valueZat := by
  refine map_eq_map_of_mapM h fun o _ out ho ↦ ?_
  obtain ⟨destination, _, ho⟩ := bind_eq_ok.mp ho
  cases pure_eq_ok.mp ho
  rfl

end Decoded

/-! ## The surplus, twice -/

section Surplus

variable {P : CraftUpstream T} {pool : Pool} {i : BuildInputs T} {b : Builder T} {l : Layout T}
  {change : Nat} {req : CommonRequest} {apk : Option K.AccountPubKey} {text : Nat → String}

/-- The branch in which a builder adds a transparent change output. -/
def BuildInputs.TakesTransparentChange (i : BuildInputs T) (change : Nat) : Prop :=
  0 < change ∧ ¬0 < asU32 i.spends.length

/-- A builder in that branch fails without an address. -/
theorem addChange_noAddress (h : i.TakesTransparentChange change)
    (hnone : i.transparentChangeAddress = none) : addChange P pool i l change =
      .error (.craft "transparent change required but no transparent_change_address supplied") := by
  rw [addChange, if_pos h.1, if_neg h.2, addTransparentChange, hnone]
  rfl

/-- A builder stamps a change output exactly in that branch. -/
theorem addChange_stamp {l' : Layout T} {stamp : Option ChangeStamp}
    (h : addChange P pool i l change = .ok (l', stamp)) :
    stamp.isSome = true ↔ i.TakesTransparentChange change := by
  cases addChange_eq_ok h with
  | exact hzero => exact ⟨fun h ↦ (nomatch h), fun h ↦ absurd h.1 hzero⟩
  | shielded _ hspends _ => exact ⟨fun h ↦ (nomatch h), fun h ↦ absurd hspends h.2⟩
  | transparent hpos hspends _ _ _ _ => exact ⟨fun _ ↦ ⟨hpos, hspends⟩, fun _ ↦ rfl⟩

theorem foldlM_checkedAdd {values : List Nat} {acc : Nat} (h : acc + values.sum < u64Size) :
    values.foldlM checkedAdd acc = some (acc + values.sum) := by
  induction values generalizing acc with
  | nil => rfl
  | cons v values ih =>
      rw [List.sum_cons, ← Nat.add_assoc] at h
      have hadd : checkedAdd acc v = some (acc + v) :=
        checkedAdd_eq_some.mpr ⟨rfl, Nat.lt_of_le_of_lt (Nat.le_add_right _ _) h⟩
      rw [List.foldlM_cons, hadd, List.sum_cons, ← Nat.add_assoc]
      exact ih h

theorem checkedSum_eq_some {values : List Nat} (h : values.sum < u64Size) :
    checkedSum values = some values.sum := by
  have hsum : values.foldlM checkedAdd 0 = some (0 + values.sum) :=
    foldlM_checkedAdd (by rwa [Nat.zero_add])
  rwa [Nat.zero_add] at hsum

/-- The totals of a layout are `u64`s. -/
structure Layout.Fits (l : Layout T) : Prop where
  totalIn : l.totalIn < u64Size
  totalOut : l.totalOut < u64Size

theorem addItems_fits (h : addItems P pool i b = .ok l) : l.Fits := by
  have hzero : 0 < u64Size := Nat.two_pow_pos 64
  refine addItems_induction (Q := Layout.Fits) ⟨hzero, hzero⟩ ?_ ?_ ?_ h
  · intro fvk l spend l' hl h
    obtain ⟨builder, _, hlt, rfl⟩ := addSpendStep_eq_ok h
    exact ⟨hlt, hl.totalOut⟩
  · intro l tin l' hl h
    obtain ⟨builder, _, hlt, rfl⟩ := addTransparentInputStep_eq_ok h
    exact ⟨hlt, hl.totalOut⟩
  · intro l out l' hl h
    obtain ⟨builder, _, hlt, rfl⟩ := addOutputStep_eq_ok h
    refine ⟨?_, ?_⟩
    · rw [Layout.totalIn_count]
      exact hl.totalIn
    · rw [Layout.totalOut_count]
      exact hlt

/-- The request's own sums are the totals of the layout when no note is spent. -/
theorem totals_of_carries (hcarries : i.Carries req) (hempty : req.spends = [])
    (hitems : addItems P pool i b = .ok l) :
    (req.transparentInputs.map TransparentInputDto.valueZat).sum = l.totalIn ∧
      (req.outputs.map OutputRequestDto.valueZat).sum = l.totalOut := by
  have hgrows := addItems_grows hitems
  have hspends : i.spends.map SpendInput.value = [] := by rw [hcarries.spends, hempty]; rfl
  constructor
  · rw [hgrows.totalIn, BuildInputs.inputValues, hspends, hcarries.inputs, List.nil_append,
      Nat.zero_add]
  · rw [hgrows.totalOut, map_value_requested, hcarries.outputs, Nat.zero_add]

/-- The surplus that the pre-check finds is the change that the builder computes. -/
theorem checkNoSurplus_eq (hcarries : i.Carries req) (hempty : req.spends = [])
    (hitems : addItems P pool i b = .ok l) (hsurplus : surplus i l = .ok change) :
    checkNoSurplus req text = refuseIf (0 < change) (Failure.error (text change)) := by
  obtain ⟨hin, hout⟩ := totals_of_carries hcarries hempty hitems
  have hfits := addItems_fits hitems
  unfold surplus at hsurplus
  obtain ⟨outflow, houtflow, hsurplus⟩ := bind_eq_ok.mp hsurplus
  obtain ⟨_, hcovered, hsurplus⟩ := bind_eq_ok.mp hsurplus
  cases pure_eq_ok.mp hsurplus
  obtain ⟨rfl, hlt⟩ := addChecked_eq_ok.mp houtflow
  rw [hcarries.fee] at *
  rw [checkNoSurplus, checkedSum_eq_some (by rw [hin]; exact hfits.totalIn),
    checkedSum_eq_some (by rw [hout]; exact hfits.totalOut), hin, hout]
  have hadd : checkedAdd l.totalOut req.feeZat = some (l.totalOut + req.feeZat) :=
    checkedAdd_eq_some.mpr ⟨rfl, hlt⟩
  simp only [orElse, ok_bind, hadd, refuseIf, Nat.sub_pos_iff_lt]

/-- Without a change address, a request is refused with its surplus exactly when the builder
would add a transparent change output; otherwise it goes on. -/
theorem resolveTransparentChange_iff (hkey : apk.bind (deriveChange K) = none)
    (hlen : req.spends.length < u32Size) (hcarries : i.Carries req)
    (hitems : addItems P pool i b = .ok l) (hsurplus : surplus i l = .ok change) :
    (resolveTransparentChange K req apk text = .error (.error (text change)) ↔
        i.TakesTransparentChange change) ∧
      (resolveTransparentChange K req apk text = .ok none ↔
        ¬i.TakesTransparentChange change) := by
  rw [BuildInputs.TakesTransparentChange, hcarries.length_spends, asU32_of_lt hlen]
  unfold resolveTransparentChange
  rcases hspends : req.spends with _ | ⟨spend, spends⟩
  · rw [hkey]
    simp only [List.isEmpty_nil, if_true, checkNoSurplus_eq hcarries hspends hitems hsurplus,
      refuseIf, List.length_nil]
    by_cases hpos : 0 < change
    · simp [hpos, bind, Except.bind]
    · simp [hpos, bind, Except.bind, pure, Except.pure]
  · simp [pure, Except.pure]

end Surplus

/-! ## What reaches the builder -/

section Reaches

variable {S : ShardTrees} {T : CraftTypes S.Path} {K : WalletKeys T} {tip : Except Failure Nat}
  {srv : Server} {pool : Pool} {req : CommonRequest} {text : Nat → String}
  {decode : AnyZcashNetwork → String → Except Failure (Destination T)}
  {apk : Option K.AccountPubKey} {i : BuildInputs T}

/-- The values of the spends that reach a builder are the requested ones. -/
theorem Routed.values (h : Routed S tip srv pool req i) :
    i.spends.map SpendInput.value = req.spends.map SpendInputDto.valueZat := by
  obtain ⟨_, needsAnchor, hroute⟩ := h
  rcases routeAnchor_eq_ok hroute with ⟨hnil, hspends⟩ | hwitness
  · rw [hnil, hspends]
    rfl
  · obtain ⟨tree, root, _, _, hpaired⟩ := witnessSpends_eq_ok hwitness
    have hvalues : List.Forall₂ (fun spend dto ↦ SpendInput.value spend = dto.valueZat) i.spends
        req.spends := hpaired.flip.imp fun _ _ hspend ↦ hspend.value
    rw [← List.forall₂_eq_eq_eq, List.forall₂_map_left_iff, List.forall₂_map_right_iff]
    exact hvalues

namespace Assembled

variable (h : Assembled S K tip srv pool req decode text apk i)

include h

theorem carries : i.Carries req where
  fee := h.fee
  spends := h.routed.values
  inputs := map_eq_map_of_mapM h.inputs fun _ _ _ hdto ↦ (decodeTransparentInput_eq_ok hdto).value
  outputs := values_of_decodeOutputs h.outputs

theorem ownKeys {p2pkhAddress : Arr 33 → T.TransparentAddress} (hlaw : K.ChangeLaw p2pkhAddress) :
    i.OwnKeys K p2pkhAddress req apk := by
  obtain ⟨change, hresolve, haddress, hpubkey, hindex⟩ := h.change
  refine ⟨h.carries, ?_, ?_⟩
  · exact (mapM_eq_ok_iff.mp h.inputs).imp fun _ _ ↦ decodeTransparentInput_eq_ok
  · rw [haddress, hpubkey, hindex]
    exact changeOwned_of_resolve hlaw hresolve

/-- The transparent change of the builder finds the address that was derived for it. -/
theorem hasChange {P : CraftUpstream T} (hlen : req.spends.length < u32Size) {b : Builder T}
    {l : Layout T} {change : Nat} (hitems : addItems P pool i b = .ok l)
    (hsurplus : surplus i l = .ok change) (htakes : i.TakesTransparentChange change) :
    i.transparentChangeAddress.isSome = true ∧ i.transparentChangePubkey.isSome = true ∧
      i.transparentChangeAddressIndex.isSome = true := by
  obtain ⟨resolved, hresolve, haddress, hpubkey, hindex⟩ := h.change
  cases resolved with
  | some c =>
      rw [haddress, hpubkey, hindex]
      exact ⟨rfl, rfl, rfl⟩
  | none =>
      cases hkey : apk.bind (deriveChange K) with
      | none =>
          exact absurd htakes
            ((resolveTransparentChange_iff hkey hlen h.carries hitems hsurplus).2.mp hresolve)
      | some c =>
          unfold resolveTransparentChange at hresolve
          rw [hkey] at hresolve
          split at hresolve
          · cases hresolve
          · rename_i hspends
            have hpos : 0 < req.spends.length :=
              List.length_pos_iff.mpr fun hnil ↦ hspends (List.isEmpty_iff.mpr hnil)
            have hnone := htakes.2
            rw [h.carries.length_spends, asU32_of_lt hlen] at hnone
            exact absurd hpos hnone

end Assembled

end Reaches

/-! ## The two orchestrators -/

/-- An orchestrator uses keys of the account only.  Nothing is built but from its inputs;
these spend and pay change with keys of the account; one input that is not the account's
keeps the request from the builder; and where no change address can be derived, the
pre-check refuses what the builder would add a transparent change output to, and lets the
rest through.  `branch` and `needs` are what the builder does.  The builder narrows the
number of spends to a `u32`, so the two agree on the change below that. -/
structure KeysSound (K : WalletKeys T) (p2pkhAddress : Arr 33 → T.TransparentAddress)
    (P : CraftUpstream T) (pool : Pool) (text : Nat → String) (req : CommonRequest)
    (accountKey : Except Failure (Option K.AccountPubKey))
    (inputs : Except Failure (BuildInputs T)) (outcome : Except Failure BuildOutput) : Prop where
  built : ∀ out, outcome = .ok out → ∃ i, inputs = .ok i
  owned : ∀ i, inputs = .ok i → ∃ apk, accountKey = .ok apk ∧ i.OwnKeys K p2pkhAddress req apk
  refused : ∀ apk, accountKey = .ok apk → ∀ dto ∈ req.transparentInputs,
    (∀ k pubkey, apk = some k → ¬dto.Owned K k pubkey) → ∀ i, inputs ≠ .ok i
  preCheck : req.spends.length < u32Size →
    ∀ apk, accountKey = .ok apk → apk.bind (deriveChange K) = none →
    ∀ (i : BuildInputs T) b l change, i.Carries req → addItems P pool i b = .ok l →
      surplus i l = .ok change →
      (resolveTransparentChange K req apk text = .error (.error (text change)) ↔
        i.TakesTransparentChange change) ∧
      (resolveTransparentChange K req apk text = .ok none ↔ ¬i.TakesTransparentChange change) ∧
      (i.TakesTransparentChange change → ∀ i, inputs ≠ .ok i)
  branch : ∀ (i : BuildInputs T) l change l' stamp, addChange P pool i l change = .ok (l', stamp) →
    (stamp.isSome = true ↔ i.TakesTransparentChange change)
  needs : ∀ (i : BuildInputs T) l change, i.TakesTransparentChange change →
    i.transparentChangeAddress = none → ∃ e, addChange P pool i l change = .error e
  hasChange : req.spends.length < u32Size →
    ∀ i, inputs = .ok i → ∀ b l change, addItems P pool i b = .ok l →
    surplus i l = .ok change → i.TakesTransparentChange change →
    i.transparentChangeAddress.isSome = true ∧ i.transparentChangePubkey.isSome = true ∧
      i.transparentChangeAddressIndex.isSome = true

section Orchestrators

variable {S : ShardTrees} {T : CraftTypes S.Path} {K : WalletKeys T} {tip : Except Failure Nat}
  {srv : Server} {i : BuildInputs T}

/-- An orchestrator whose inputs are assembled under the account key is sound. -/
theorem keysSound_of_assembled {p2pkhAddress : Arr 33 → T.TransparentAddress}
    {P : CraftUpstream T} {pool : Pool} {text : Nat → String} {req : CommonRequest}
    {decode : AnyZcashNetwork → String → Except Failure (Destination T)}
    {accountKey : Except Failure (Option K.AccountPubKey)}
    {inputs : Except Failure (BuildInputs T)} {outcome : Except Failure BuildOutput}
    (hlaw : K.ChangeLaw p2pkhAddress)
    (hbuilt : ∀ out, outcome = .ok out → ∃ i, inputs = .ok i)
    (h : ∀ i, inputs = .ok i → ∃ apk, accountKey = .ok apk ∧
      Assembled S K tip srv pool req decode text apk i) :
    KeysSound K p2pkhAddress P pool text req accountKey inputs outcome where
  built := hbuilt
  owned i hi := by
    obtain ⟨apk, hkey, hassembled⟩ := h i hi
    exact ⟨apk, hkey, hassembled.ownKeys hlaw⟩
  refused apk hkey dto hdto hbad i hi := by
    obtain ⟨apk', hkey', hassembled⟩ := h i hi
    cases hkey.symm.trans hkey'
    obtain ⟨tin, _, hdecoded⟩ :=
      exists_of_forall₂_right (mapM_eq_ok_iff.mp hassembled.inputs).flip hdto
    obtain ⟨k, hk, howned⟩ := (decodeTransparentInput_eq_ok hdecoded).owned
    exact hbad k tin.pubkey hk howned
  preCheck hlen apk hkey hnone i b l change hcarries hitems hsurplus := by
    obtain ⟨hrefuses, hpasses⟩ := resolveTransparentChange_iff hnone hlen hcarries
      hitems hsurplus
    refine ⟨hrefuses, hpasses, fun htakes i' hi' ↦ ?_⟩
    obtain ⟨apk', hkey', hassembled⟩ := h i' hi'
    cases hkey.symm.trans hkey'
    obtain ⟨resolved, hresolve, _⟩ := hassembled.change
    rw [hrefuses.mpr htakes] at hresolve
    cases hresolve
  branch _ _ _ _ _ h := addChange_stamp h
  needs _ _ _ htakes hnone := ⟨_, addChange_noAddress htakes hnone⟩
  hasChange hlen i hi b l change hitems hsurplus htakes := by
    obtain ⟨apk, _, hassembled⟩ := h i hi
    exact hassembled.hasChange hlen hitems hsurplus htakes

theorem craftInputs_assembled {req : CraftRequest} (h : craftInputs S K tip srv req = .ok i) :
    ∃ apk, req.accountKey K = .ok apk ∧
      Assembled S K tip srv .orchard req.toCommonRequest (decodeDestination K)
        orchardSurplusText apk i := by
  obtain ⟨ufvk, apk, hufvk, hapk, hassembled⟩ := craftInputs_eq_ok h
  exact ⟨apk, bind_eq_ok.mpr ⟨ufvk, hufvk, hapk⟩, hassembled⟩

theorem craftIronwoodInputs_assembled {req : IronwoodCraftRequest}
    (h : craftIronwoodInputs S K tip srv req = .ok i) :
    ∃ apk, req.accountKey K = .ok apk ∧
      Assembled S K tip srv .ironwood req.toCommonRequest (decodeIronwoodDestination K)
        ironwoodSurplusText apk i := by
  obtain ⟨ufvk, hufvk, hassembled⟩ := craftIronwoodInputs_eq_ok h
  exact ⟨K.p2pkh ufvk, bind_eq_ok.mpr ⟨ufvk, hufvk, rfl⟩, hassembled⟩

/-- A key that does not describe the UFVK's account is no account key. -/
theorem accountKey_disagrees {req : CraftRequest} {ufvk : K.Ufvk} {key : K.AccountPubKey}
    {hex : String} (hufvk : req.ufvk.mapM (parseEncodedUfvk K) = .ok (some ufvk))
    (hkey : K.p2pkh ufvk = some key) (hhex : req.transparentAccountPubkeyHex = some hex)
    (hdisagree : ∀ explicit, decodeAccountPubkey K hex = .ok explicit →
      K.serializeAccount explicit ≠ K.serializeAccount key) (apk : Option K.AccountPubKey) :
    req.accountKey K ≠ .ok apk := by
  intro h
  obtain ⟨ufvk', hufvk', h⟩ := bind_eq_ok.mp h
  cases hufvk.symm.trans hufvk'
  rw [Option.bind_some, hkey, hhex] at h
  obtain ⟨explicit, hexplicit, h⟩ := bind_eq_ok.mp h
  obtain ⟨_, hmatch, _⟩ := bind_eq_ok.mp h
  exact hdisagree explicit hexplicit (of_not_not (refuseIf_eq_ok.mp hmatch))

end Orchestrators

/-- On either orchestrator, for every request and whatever the tree and the server answer:
only keys of the account spend or receive change, with the change foreseen as the builder
computes it; and a transparent key that disagrees with the UFVK's builds nothing. -/
theorem own_keys (S : ShardTrees) (T : CraftTypes S.Path) (K : WalletKeys T)
    (P : CraftUpstream T) (tip : Except Failure Nat) (srv : Server)
    (p2pkhAddress : Arr 33 → T.TransparentAddress) (hlaw : K.ChangeLaw p2pkhAddress) :
    (∀ req : CraftRequest,
      KeysSound K p2pkhAddress P .orchard orchardSurplusText req.toCommonRequest
        (req.accountKey K) (craftInputs S K tip srv req)
        (craftTransactionWithTip S K P tip srv req)) ∧
    (∀ req : IronwoodCraftRequest,
      KeysSound K p2pkhAddress P .ironwood ironwoodSurplusText req.toCommonRequest
        (req.accountKey K) (craftIronwoodInputs S K tip srv req)
        (craftIronwoodTransactionWithTip S K P tip srv req)) ∧
    (∀ (req : CraftRequest) (ufvk : K.Ufvk) (key : K.AccountPubKey) (hex : String),
      req.ufvk.mapM (parseEncodedUfvk K) = .ok (some ufvk) → K.p2pkh ufvk = some key →
      req.transparentAccountPubkeyHex = some hex →
      (∀ explicit, decodeAccountPubkey K hex = .ok explicit →
        K.serializeAccount explicit ≠ K.serializeAccount key) →
      ∀ out, craftTransactionWithTip S K P tip srv req ≠ .ok out) := by
  refine ⟨?_, ?_, ?_⟩
  · intro req
    refine keysSound_of_assembled hlaw ?_ fun i ↦ craftInputs_assembled
    intro out hout
    obtain ⟨i, hi, _⟩ := bind_eq_ok.mp hout
    exact ⟨i, hi⟩
  · intro req
    refine keysSound_of_assembled hlaw ?_ fun i ↦ craftIronwoodInputs_assembled
    intro out hout
    obtain ⟨i, hi, _⟩ := bind_eq_ok.mp hout
    exact ⟨i, hi⟩
  · intro req ufvk key hex hufvk hkey hhex hdisagree out hout
    obtain ⟨i, hi, _⟩ := bind_eq_ok.mp hout
    obtain ⟨apk, hapk, _⟩ := craftInputs_assembled hi
    exact accountKey_disagrees hufvk hkey hhex hdisagree apk hapk

/-! A payment out of a coin of the account, with transparent change. -/

section Sample

/-- One account with the key bytes 2 outside and 3 inside. -/
def accountKeys : WalletKeys (plainTypes Nat) where
  __ := sampleKeys
  p2pkh _ := some ()
  internalDefaultAddress _ := some ((3 : Nat), 0)
  deriveAddressPubkey _ scope _ :=
    match scope with
    | .external => .ok (fill 33 2)
    | .internal => .ok (fill 33 3)

/-- An address is the first byte of its public key. -/
def firstByte : Arr 33 → (plainTypes Nat).TransparentAddress := fun pubkey ↦
  (pubkey.1.headD 0).toNat

theorem accountKeys_changeLaw : accountKeys.ChangeLaw firstByte := by
  rintro _ addr index pubkey haddress hpubkey
  cases haddress
  cases hpubkey
  rfl

/-- A coin of 30 000 pays 10 000 and a fee of 10 000. -/
def coinRequest : CraftRequest where
  __ := leafRequest
  spends := []
  transparentInputs := [
    { txidHex := Hex.encode (List.replicate 32 1), vout := 0, scriptPubkeyHex := ""
      valueZat := 30000, pubkeyHex := Hex.encode (List.replicate 33 2), derivationScope := 0
      addressIndex := 5 }]
  outputs := [⟨"t", 10000, none⟩]

/-- The request reaches the builder with its coin and a change address. -/
theorem own_keys_coin :
    ∃ i, craftInputs positionTrees accountKeys (.ok 11) leafServer coinRequest = .ok i ∧
      i.transparentInputs.length = 1 ∧ i.transparentChangeAddress.isSome = true ∧
      ∃ apk, coinRequest.accountKey accountKeys = .ok apk ∧
        i.OwnKeys accountKeys firstByte coinRequest.toCommonRequest apk := by
  have hrun : (craftInputs positionTrees accountKeys (.ok 11) leafServer coinRequest).toOption.map
      (fun i ↦ (i.transparentInputs.length, i.transparentChangeAddress.isSome)) =
        some (1, true) := by decide +kernel
  obtain ⟨i, hi, hshape⟩ := Option.map_eq_some_iff.mp hrun
  obtain ⟨hlen, hchange⟩ := Prod.mk.inj hshape
  have hsound := (own_keys positionTrees (plainTypes Nat) accountKeys (permissive Nat) (.ok 11)
    leafServer firstByte accountKeys_changeLaw).1 coinRequest
  exact ⟨i, toOption_eq_some.mp hi, hlen, hchange, hsound.owned i (toOption_eq_some.mp hi)⟩

end Sample

end LedgerZcash
