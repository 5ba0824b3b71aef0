import LedgerZcash.Crypto.Finalize
import LedgerZcash.Crypto.Layout

/-!
# Stamped derivations

The device signs an input with the key that its stamp names, and hides an output whose
stamp leads to the output's key: that is how it tells the wallet's change from a payment.
Items are stamped by their place in the bundle, so the stamps are right when the PCZT
keeps the order of the builder (`PcztUpstream`).  Then each transparent input has its own
key and path, the transparent change has one, no recipient has any, and every shielded
action has the account's path (`derivations_stamped`); the parser and the finalizer,
which count these stamps, accept the PCZT.
-/

namespace LedgerZcash

open Hex Collect Slots

variable {Path : Type} {T : CraftTypes Path}

/-! ## Items of a PCZT -/

/-- What an input spends. -/
def PcztInput.coin (input : PcztInput) : Coin :=
  ⟨input.prevoutTxid, input.prevoutIndex, input.value⟩

/-- To which script an output pays how much. -/
def PcztOutput.pays (output : PcztOutput) : List UInt8 × Nat := (output.scriptPubkey, output.value)

/-- `set_bip32_derivation`. -/
def PcztInput.setDerivation (input : PcztInput) (pubkey : Arr 33) (derivation : Derivation) :
    PcztInput :=
  { input with bip32Derivation := input.bip32Derivation.insert pubkey derivation }

def PcztOutput.setDerivation (output : PcztOutput) (pubkey : Arr 33) (derivation : Derivation) :
    PcztOutput :=
  { output with bip32Derivation := output.bip32Derivation.insert pubkey derivation }

/-- The script and the value of a transparent payment. -/
def Payment.script (V : PcztView T) (pay : Payment T) : Option (List UInt8 × Nat) :=
  match pay.recipient with
  | .shielded _ => none
  | .transparent addr => some (V.script addr, pay.value)

namespace PcztView

variable (V : PcztView T)

/-- The transparent items are the same. -/
structure SameTransparent (p p' : T.Pczt) : Prop where
  inputs : V.inputs p' = V.inputs p
  outputs : V.outputs p' = V.outputs p

/-- The derivations of the shielded spends are the same. -/
def SameSpends (p p' : T.Pczt) : Prop :=
  ∀ pool, V.zip32Derivations pool p' = V.zip32Derivations pool p

/-- All that is stamped is the same. -/
structure Same (p p' : T.Pczt) : Prop where
  transparent : V.SameTransparent p p'
  spends : V.SameSpends p p'

/-- A new PCZT has the transparent items of its builder, in order, and no transparent
derivation; a pool of which the builder has no item has no action. -/
structure Created (b : Builder T) (pczt : T.Pczt) : Prop where
  inputs : (V.inputs pczt).map PcztInput.coin =
    (b.inputs.map BuilderInput.spent).filterMap Spent.coin?
  outputs : (V.outputs pczt).map PcztOutput.pays =
    (b.outputs.map BuilderOutput.payment).filterMap (Payment.script V)
  inputDerivations : ∀ x ∈ V.inputs pczt, x.bip32Derivation = ∅
  outputDerivations : ∀ o ∈ V.outputs pczt, o.bip32Derivation = ∅
  actions : ∀ pool, .note pool ∉ b.inputs.map BuilderInput.spent →
    (∀ pay ∈ b.outputs.map BuilderOutput.payment, pay.pool ≠ some pool) → V.actions pool pczt = []

variable {V}

namespace SameTransparent

variable {p p' p'' : T.Pczt}

theorem refl (p : T.Pczt) : V.SameTransparent p p := ⟨rfl, rfl⟩

theorem trans (h : V.SameTransparent p p') (h' : V.SameTransparent p' p'') :
    V.SameTransparent p p'' :=
  ⟨h'.inputs.trans h.inputs, h'.outputs.trans h.outputs⟩

end SameTransparent

namespace Same

variable {p p' p'' : T.Pczt}

theorem refl (p : T.Pczt) : V.Same p p := ⟨.refl p, fun _ ↦ rfl⟩

theorem trans (h : V.Same p p') (h' : V.Same p' p'') : V.Same p p'' :=
  ⟨h.transparent.trans h'.transparent, fun pool ↦ (h'.spends pool).trans (h.spends pool)⟩

end Same

end PcztView

/-- What the roles of the builders do to the stamped items. -/
structure PcztUpstream (P : CraftUpstream T) (V : PcztView T) : Prop where
  created {b : Builder T} {rule : FeeRule} {parts : T.PcztParts} {height : Nat} {pczt : T.Pczt} :
    P.buildForPczt b rule = .ok parts →
      P.createPczt (P.setExpiryHeight parts height) = some pczt → V.Created b pczt
  bundleActions (pool : Pool) (pczt : T.Pczt) :
    P.bundleActions pool pczt = (V.actions pool pczt).length
  setSpendDerivation {pool : Pool} {p p' : T.Pczt} {n : Nat} {d : Derivation} :
    P.setSpendDerivation pool p n d = .ok p' → V.SameTransparent p p' ∧
      V.zip32Derivations pool p' = (V.zip32Derivations pool p).set n (some d) ∧
      ∀ other, other ≠ pool → V.zip32Derivations other p' = V.zip32Derivations other p
  setInputDerivation {p p' : T.Pczt} {n : Nat} {pubkey : Arr 33} {d : Derivation} :
    P.setInputDerivation p n pubkey d = .ok p' →
      V.inputs p' = (V.inputs p).modify n (PcztInput.setDerivation · pubkey d) ∧
      V.outputs p' = V.outputs p ∧ V.SameSpends p p'
  setOutputDerivation {p p' : T.Pczt} {n : Nat} {pubkey : Arr 33} {d : Derivation} :
    P.setOutputDerivation p n pubkey d = .ok p' →
      V.outputs p' = (V.outputs p).modify n (PcztOutput.setDerivation · pubkey d) ∧
      V.inputs p' = V.inputs p ∧ V.SameSpends p p'
  finalizeIo {p p' : T.Pczt} : P.finalizeIo p = .ok p' → V.Same p p'
  createProof {pool : Pool} {key : OrchardCircuitVersion} {p p' : T.Pczt} :
    P.createProof pool key p = .ok p' → V.Same p p'
  redactActions (pool : Pool) (fields : List Redaction) (p : T.Pczt) :
    V.Same p (P.redactActions pool fields p)
  serializeV1 {p : T.Pczt} {bytes : List UInt8} : P.serializeV1 p = .ok bytes →
    ∃ p', V.parse bytes = .ok p' ∧ V.Same p p'
  serializeV2 {p : T.Pczt} {bytes : List UInt8} : P.serializeV2 p = .ok bytes →
    ∃ p', V.parse bytes = .ok p' ∧ V.Same p p'

/-! ## The stamps of a request -/

namespace BuildInputs

variable (i : BuildInputs T)

/-- `m/32'/coin_type'/account'`, under the wallet's seed. -/
def spendKey : Derivation :=
  ⟨i.seedFingerprint, [hardened 32, hardened (stampedCoinType i.network), hardened i.accountIndex]⟩

/-- `m/44'/coin_type'/account'/scope/address_index`, under the wallet's seed. -/
def transparentKey (scope addressIndex : Nat) : Derivation :=
  ⟨i.seedFingerprint, [hardened 44, hardened (stampedCoinType i.network), hardened i.accountIndex,
    scope, addressIndex]⟩

/-- The input of a PCZT with the derivation of a transparent input. -/
def stampedInput (tin : TransparentInput) (input : PcztInput) : PcztInput :=
  input.setDerivation tin.pubkey
    (i.transparentKey tin.derivationScope tin.derivationAddressIndex)

/-- The outputs of a PCZT with the derivation of the change. -/
def stampedOutputs : Option ChangeStamp → List PcztOutput → List PcztOutput
  | none, outputs => outputs
  | some stamp, outputs => outputs.modify stamp.index fun output ↦
      output.setDerivation stamp.pubkey
        (i.transparentKey transparentInternalScope stamp.addressIndex)

/-- The transparent change of a request, for a surplus: one output with the stamp of the
change key, unless the surplus is zero or goes to the shielded pool. -/
inductive OwnOutputs (V : PcztView T) (change : Nat) : List PcztOutput → Prop
  | none (h : change = 0 ∨ i.spends ≠ []) : OwnOutputs V change []
  | change {output : PcztOutput} {addr : T.TransparentAddress} {pubkey : Arr 33}
      {addressIndex : Nat} (hpos : 0 < change)
      (hspends : i.spends.length < u32Size → i.spends = [])
      (haddr : i.transparentChangeAddress = some addr)
      (hpubkey : i.transparentChangePubkey = some pubkey)
      (haddressIndex : i.transparentChangeAddressIndex = some addressIndex)
      (hpays : output.pays = (V.script addr, change))
      (hderivation : output.bip32Derivation =
        AList.singleton pubkey (i.transparentKey transparentInternalScope addressIndex)) :
      OwnOutputs V change [output]

/-- A transparent input with its coin, and with its own key at its own path as the only
derivation. -/
structure StampsInput (tin : TransparentInput) (input : PcztInput) : Prop where
  coin : input.coin = tin.coin
  derivation : input.bip32Derivation = AList.singleton tin.pubkey
    (i.transparentKey tin.derivationScope tin.derivationAddressIndex)

/-- The stamps of a PCZT are on the right items: on every transparent input, on no
recipient, on the change behind the recipients, and on every shielded action. -/
structure Stamps (V : PcztView T) (pool : Pool) (change : Nat) (pczt : T.Pczt) : Prop where
  balance : i.inputValues.sum = ((i.requested pool).map Payment.value).sum + change + i.fee
  inputs : List.Forall₂ i.StampsInput i.transparentInputs (V.inputs pczt)
  outputs : ∃ recipients own, V.outputs pczt = recipients ++ own ∧
    recipients.map PcztOutput.pays = (i.requested pool).filterMap (Payment.script V) ∧
    (∀ o ∈ recipients, o.bip32Derivation = ∅) ∧ i.OwnOutputs V change own
  actions : ∀ p, ∀ a ∈ V.actions p pczt, a.zip32Derivation = some i.spendKey

end BuildInputs

/-! ## What the stamping does -/

section Derivations

variable {P : CraftUpstream T} {i : BuildInputs T}

theorem zip32Path_eq_ok {coinType accountIndex : Nat} {path : List Nat}
    (h : zip32Path coinType accountIndex = .ok path) :
    path = [hardened 32, hardened coinType, hardened accountIndex] := by
  unfold zip32Path at h
  split at h
  · cases h
  · exact (pure_eq_ok.mp h).symm

theorem bip44TransparentPath_eq_ok {coinType accountIndex scope addressIndex : Nat}
    {path : List Nat}
    (h : bip44TransparentPath coinType accountIndex scope addressIndex = .ok path) :
    path = [hardened 44, hardened coinType, hardened accountIndex, scope, addressIndex] := by
  unfold bip44TransparentPath at h
  split at h
  · cases h
  · split at h
    · cases h
    · split at h
      · cases h
      · exact (pure_eq_ok.mp h).symm

theorem transparentDerivation_eq_ok {scope addressIndex : Nat} {what : String} {d : Derivation}
    (h : transparentDerivation P i.network i.seedFingerprint i.accountIndex scope addressIndex
      what = .ok d) : d = i.transparentKey scope addressIndex := by
  unfold transparentDerivation at h
  obtain ⟨path, hpath, h⟩ := bind_eq_ok.mp h
  obtain ⟨_, -, h⟩ := bind_eq_ok.mp h
  cases pure_eq_ok.mp h
  rw [bip44TransparentPath_eq_ok hpath]
  rfl

theorem inputDerivations_eq_ok {tins : List TransparentInput} {ds : List (Arr 33 × Derivation)}
    (h : inputDerivations P i.network i.seedFingerprint i.accountIndex tins = .ok ds) :
    ds = tins.map fun tin ↦
      (tin.pubkey, i.transparentKey tin.derivationScope tin.derivationAddressIndex) := by
  have hmap := map_eq_map_of_mapM (g := id) h fun tin _ d hd ↦ by
    obtain ⟨derivation, hderivation, hd⟩ := bind_eq_ok.mp hd
    cases pure_eq_ok.mp hd
    rw [transparentDerivation_eq_ok hderivation]
  rwa [List.map_id] at hmap

end Derivations

section Stamping

variable {P : CraftUpstream T} {V : PcztView T} (L : PcztUpstream P V) {i : BuildInputs T}
  {pool : Pool} {p p' : T.Pczt}

include L

/-- Stamping a bundle stamps each of its actions, and nothing else. -/
theorem PcztUpstream.stampActions_ok
    (h : stampActions P pool p i.network i.seedFingerprint i.accountIndex = .ok p') :
    V.SameTransparent p p' ∧ (∀ a ∈ V.actions pool p', a.zip32Derivation = some i.spendKey) ∧
      ∀ other, other ≠ pool → V.zip32Derivations other p' = V.zip32Derivations other p := by
  unfold stampActions at h
  obtain ⟨path, hpath, h⟩ := bind_eq_ok.mp h
  rw [zip32Path_eq_ok hpath] at h
  obtain ⟨_, -, h⟩ := bind_eq_ok.mp (mapError_eq_ok.mp h)
  have hstep : ∀ t n t', (if P.validZip32 i.spendKey then P.setSpendDerivation pool t n i.spendKey
      else throw "InvalidIndex") = .ok t' → P.setSpendDerivation pool t n i.spendKey = .ok t' := by
    intro t n t' ht
    split at ht
    · exact ht
    · cases ht
  refine ⟨?_, ?_, fun other hother ↦ ?_⟩
  · refine foldlM_induction (P := fun _ t ↦ V.SameTransparent p t) h (.refl p) ?_
    exact fun _ n t t' ht ha ↦ ht.trans (L.setSpendDerivation (hstep t n t' ha)).1
  · have hview := foldlM_view (v := V.zip32Derivations pool)
      (g := fun s n ↦ s.set n (some i.spendKey)) h
      fun t n t' ha ↦ (L.setSpendDerivation (hstep t n t' ha)).2.1
    have hlen : P.bundleActions pool p = (V.zip32Derivations pool p).length := by
      rw [L.bundleActions, PcztView.zip32Derivations, List.length_map]
    rw [hlen, foldl_set_range] at hview
    intro a ha
    have hmem : a.zip32Derivation ∈ V.zip32Derivations pool p' := List.mem_map_of_mem ha
    rw [hview] at hmem
    exact List.eq_of_mem_replicate hmem
  · refine foldlM_induction
      (P := fun _ t ↦ V.zip32Derivations other t = V.zip32Derivations other p) h rfl ?_
    exact fun _ n t t' ht ha ↦ ((L.setSpendDerivation (hstep t n t' ha)).2.2 other hother).trans ht

/-- Stamping the transparent items adds a derivation to every input, and to the change. -/
theorem PcztUpstream.stampTransparentDerivations_ok {change : Option ChangeStamp}
    (h : stampTransparentDerivations P p i.network i.seedFingerprint i.accountIndex
      i.transparentInputs change = .ok p')
    (hlen : i.transparentInputs.length = (V.inputs p).length) :
    V.SameSpends p p' ∧
      V.inputs p' = List.zipWith i.stampedInput i.transparentInputs (V.inputs p) ∧
      V.outputs p' = i.stampedOutputs change (V.outputs p) := by
  unfold stampTransparentDerivations at h
  obtain ⟨ds, hds, h⟩ := bind_eq_ok.mp h
  obtain ⟨change', hchange, h⟩ := bind_eq_ok.mp h
  obtain ⟨q, hq, h⟩ := bind_eq_ok.mp (mapError_eq_ok.mp h)
  rw [inputDerivations_eq_ok hds] at hq
  -- the loop over the inputs
  have hspends : V.SameSpends p q := by
    refine foldlM_induction (P := fun _ t ↦ V.SameSpends p t) hq (fun _ ↦ rfl) ?_
    exact fun _ x t t' ht ha pool ↦ ((L.setInputDerivation ha).2.2 pool).trans (ht pool)
  have houtputs : V.outputs q = V.outputs p := by
    refine foldlM_induction (P := fun _ t ↦ V.outputs t = V.outputs p) hq rfl ?_
    exact fun _ x t t' ht ha ↦ (L.setInputDerivation ha).2.1.trans ht
  have hview := foldlM_view (v := V.inputs)
    (g := fun s x ↦ s.modify x.2 (PcztInput.setDerivation · x.1.1 x.1.2)) hq
    fun t x t' ha ↦ (L.setInputDerivation ha).1
  rw [foldl_modify_zipIdx (fun (x : Arr 33 × Derivation) input ↦
    PcztInput.setDerivation input x.1 x.2) ((List.length_map _).trans hlen),
    List.zipWith_map_left] at hview
  -- the change output
  unfold changeDerivation at hchange
  cases change with
  | none =>
      cases pure_eq_ok.mp hchange
      cases pure_eq_ok.mp h
      exact ⟨hspends, hview, houtputs⟩
  | some stamp =>
      obtain ⟨d, hd, hchange⟩ := bind_eq_ok.mp hchange
      cases pure_eq_ok.mp hchange
      rw [transparentDerivation_eq_ok hd] at h
      obtain ⟨hout, hin, hsame⟩ := L.setOutputDerivation h
      refine ⟨fun pool ↦ (hsame pool).trans (hspends pool), hin.trans hview, ?_⟩
      rw [hout, houtputs]
      rfl

theorem PcztUpstream.prove_ok {network : AnyZcashNetwork} {target : Nat}
    (h : prove P pool network target p = .ok p') : V.Same p p' := by
  unfold prove at h
  split at h
  · exact L.createProof (mapError_eq_ok.mp h)
  · cases pure_eq_ok.mp h
    exact .refl p

/-- The bytes of a PCZT parse to one with the same stamps. -/
theorem PcztUpstream.encodePczt_ok {bytes : List UInt8} (h : encodePczt P pool p = .ok bytes) :
    ∃ p', V.parse bytes = .ok p' ∧ V.Same p p' := by
  cases pool with
  | orchard => exact L.serializeV1 (mapError_eq_ok.mp h)
  | ironwood =>
      obtain ⟨p', hparse, hsame⟩ := L.serializeV2 (mapError_eq_ok.mp h)
      exact ⟨p', hparse, ((L.redactActions _ _ _).trans (L.redactActions _ _ _)).trans hsame⟩

/-- When there is a bundle, every action of the pool is stamped. -/
theorem PcztUpstream.stampBundle_ok {hasBundle : Bool}
    (h : stampBundle P pool i hasBundle p = .ok p') :
    V.SameTransparent p p' ∧
      (hasBundle = true → ∀ a ∈ V.actions pool p', a.zip32Derivation = some i.spendKey) ∧
      (hasBundle = false → V.zip32Derivations pool p' = V.zip32Derivations pool p) ∧
      ∀ other, other ≠ pool → V.zip32Derivations other p' = V.zip32Derivations other p := by
  unfold stampBundle at h
  cases hasBundle with
  | false =>
      cases pure_eq_ok.mp h
      exact ⟨.refl p, (nomatch ·), fun _ ↦ rfl, fun _ _ ↦ rfl⟩
  | true =>
      have hstamp : stampActions P pool p i.network i.seedFingerprint i.accountIndex = .ok p' := by
        cases pool <;> exact h
      obtain ⟨ht, ha, ho⟩ := L.stampActions_ok hstamp
      exact ⟨ht, fun _ ↦ ha, (nomatch ·), ho⟩

/-- Without a transparent item there is nothing to stamp. -/
theorem PcztUpstream.stampTransparent_ok {change : Option ChangeStamp}
    (h : stampTransparent P i change p = .ok p')
    (hlen : i.transparentInputs.length = (V.inputs p).length) :
    V.SameSpends p p' ∧
      V.inputs p' = List.zipWith i.stampedInput i.transparentInputs (V.inputs p) ∧
      V.outputs p' = i.stampedOutputs change (V.outputs p) := by
  unfold stampTransparent at h
  split at h
  · exact L.stampTransparentDerivations_ok h hlen
  · rename_i hnone
    cases pure_eq_ok.mp h
    simp only [Bool.or_eq_true, not_or, Bool.not_eq_true, Bool.not_eq_false',
      List.isEmpty_iff, Option.isSome_eq_false_iff, Option.isNone_iff_eq_none] at hnone
    obtain ⟨hinputs, rfl⟩ := hnone
    rw [hinputs, List.length_nil] at hlen
    rw [hinputs, List.length_eq_zero_iff.mp hlen.symm]
    exact ⟨fun _ ↦ rfl, rfl, rfl⟩

end Stamping

/-! ## The stamps of a build -/

section Build

variable {P : CraftUpstream T} {V : PcztView T} {i : BuildInputs T} {pool : Pool}

/-- The coins of the inputs are those of the transparent inputs. -/
theorem filterMap_coin_spent : (i.spent pool).filterMap Spent.coin? =
    i.transparentInputs.map TransparentInput.coin := by
  rw [BuildInputs.spent, List.filterMap_append, List.filterMap_map, List.filterMap_map]
  have hnotes : i.spends.filterMap (Spent.coin? ∘ fun _ ↦ .note pool) = [] :=
    List.filterMap_eq_nil_iff.mpr fun _ _ ↦ rfl
  rw [hnotes, List.nil_append]
  exact congrFun (List.filterMap_eq_map (f := TransparentInput.coin)) _

/-- One derivation on each input that had none. -/
theorem stampsInput_of_zipWith {tins : List TransparentInput} {inputs : List PcztInput}
    (hcoin : inputs.map PcztInput.coin = tins.map TransparentInput.coin)
    (hempty : ∀ x ∈ inputs, x.bip32Derivation = ∅) :
    List.Forall₂ i.StampsInput tins (List.zipWith i.stampedInput tins inputs) := by
  induction tins generalizing inputs with
  | nil => exact .nil
  | cons tin tins ih =>
      cases inputs with
      | nil => cases hcoin
      | cons input inputs =>
          obtain ⟨hhead, htail⟩ := List.cons.inj hcoin
          obtain ⟨hnone, hrest⟩ := List.forall_mem_cons.mp hempty
          refine .cons ⟨hhead, ?_⟩ (ih htail hrest)
          show input.bip32Derivation.insert _ _ = _
          rw [hnone, AList.insert_empty]

/-- The recipients are as many as the transparent requests. -/
theorem length_filterMap_script :
    ((i.requested pool).filterMap (Payment.script V)).length = i.transparentRequests.length := by
  rw [List.length_filterMap_eq_countP, ← countP_requested i pool]
  refine List.countP_congr fun pay hpay ↦ ?_
  obtain ⟨out, -, rfl⟩ := List.mem_map.mp hpay
  cases hdest : out.destination <;>
    simp [OutputRequest.payment, Payment.script, Payment.isShielded, hdest]

/-- The payments into a pool: only that of the builder, and only when a bundle is due. -/
theorem pool_of_payments {change : Nat} {stamp : Option ChangeStamp} {pays : List (Payment T)}
    (h : i.ReturnsChange pool change pays stamp) {pay : Payment T}
    (hmem : pay ∈ i.requested pool ++ pays) {q : Pool} (hq : pay.pool = some q) :
    q = pool ∧ i.hasBundle = true := by
  rcases List.mem_append.mp hmem with hmem | hmem
  · obtain ⟨out, hout, rfl⟩ := List.mem_map.mp hmem
    cases hdest : out.destination with
    | shielded addr =>
        rw [OutputRequest.payment, hdest] at hq
        have hany : i.outputs.any (fun o ↦ o.destination.isShielded) = true :=
          List.any_eq_true.mpr ⟨out, hout, by rw [hdest]; rfl⟩
        exact ⟨(Option.some.inj hq).symm, by rw [BuildInputs.hasBundle, hany, Bool.or_true]⟩
    | transparent addr =>
        rw [OutputRequest.payment, hdest] at hq
        cases hq
  · cases h with
    | exact _ => cases hmem
    | shielded _ hspends _ =>
        cases List.mem_singleton.mp hmem
        refine ⟨(Option.some.inj hq).symm, ?_⟩
        rw [BuildInputs.hasBundle, Bool.or_eq_true]
        exact .inl (by simpa using hspends)
    | transparent _ _ _ _ _ _ =>
        cases List.mem_singleton.mp hmem
        cases hq

/-- A pool that the builder has no item of has no action. -/
theorem actions_eq_nil {l : Layout T} {change : Nat} {stamp : Option ChangeStamp} {p : T.Pczt}
    (hl : l.Holds pool i change stamp) (hc : V.Created l.builder p) {q : Pool}
    (hq : q = pool → i.hasBundle = false) : V.zip32Derivations q p = [] := by
  obtain ⟨pays, hpays, hreturns, -⟩ := hl.outputs
  rw [PcztView.zip32Derivations, List.map_eq_nil_iff]
  refine hc.actions q ?_ ?_
  · rw [hl.inputs, BuildInputs.spent]
    intro hmem
    rcases List.mem_append.mp hmem with hmem | hmem
    · obtain ⟨spend, hspend, heq⟩ := List.mem_map.mp hmem
      have hnone := hq (Spent.note.inj heq).symm
      rw [BuildInputs.hasBundle, Bool.or_eq_false_iff] at hnone
      have hnil : i.spends = [] := by simpa using hnone.1
      rw [hnil] at hspend
      cases hspend
    · obtain ⟨tin, -, heq⟩ := List.mem_map.mp hmem
      cases heq
  · intro pay hpay hpool
    rw [hpays] at hpay
    obtain ⟨hqp, hbundle⟩ := pool_of_payments hreturns hpay hpool
    rw [hq hqp] at hbundle
    cases hbundle

/-- The outputs of a new PCZT with the stamp of the change on them. -/
theorem stampedOutputs_of_created {l : Layout T} {change : Nat} {stamp : Option ChangeStamp}
    {p : T.Pczt} (hlen : i.outputs.length < u32Size) (hl : l.Holds pool i change stamp)
    (hc : V.Created l.builder p) :
    ∃ recipients own, i.stampedOutputs stamp (V.outputs p) = recipients ++ own ∧
      recipients.map PcztOutput.pays = (i.requested pool).filterMap (Payment.script V) ∧
      (∀ o ∈ recipients, o.bip32Derivation = ∅) ∧ i.OwnOutputs V change own := by
  obtain ⟨pays, hpays, hreturns, -⟩ := hl.outputs
  have houtputs := hc.outputs
  rw [hpays, List.filterMap_append] at houtputs
  cases hreturns with
  | exact hzero =>
      refine ⟨V.outputs p, [], (List.append_nil _).symm, ?_, hc.outputDerivations,
        .none (.inl hzero)⟩
      rwa [List.filterMap_nil, List.append_nil] at houtputs
  | shielded _ hspends _ =>
      refine ⟨V.outputs p, [], (List.append_nil _).symm, ?_, hc.outputDerivations,
        .none (.inr hspends)⟩
      rwa [List.filterMap_cons_none rfl, List.filterMap_nil, List.append_nil] at houtputs
  | @transparent addr pubkey index addressIndex hpos hspends haddr hpubkey haddressIndex hindex =>
      have hchange : [(⟨none, .transparent addr, change, none⟩ : Payment T)].filterMap
          (Payment.script V) = [(V.script addr, change)] := rfl
      rw [hchange] at houtputs
      obtain ⟨recipients, own, hsplit, hrecipients, hown⟩ := List.map_eq_append_iff.mp houtputs
      obtain ⟨output, rfl, houtput⟩ := List.map_eq_singleton_iff.mp hown
      have hempty := hc.outputDerivations
      rw [hsplit] at hempty
      have hcount : ((i.requested pool).filterMap (Payment.script V)).length =
          i.transparentRequests.length := length_filterMap_script
      have hindex' : index = recipients.length := by
        rw [hindex hlen, ← hcount, ← hrecipients, List.length_map]
      refine ⟨recipients, [output.setDerivation pubkey
        (i.transparentKey transparentInternalScope addressIndex)], ?_, hrecipients,
        fun o ho ↦ hempty o (List.mem_append_left _ ho),
        .change hpos hspends haddr hpubkey haddressIndex houtput ?_⟩
      · rw [BuildInputs.stampedOutputs, hsplit, hindex']
        exact modify_length_append _ _ _ _
      · show output.bip32Derivation.insert _ _ = _
        rw [hempty output (List.mem_append_right _ (List.mem_singleton_self _)), AList.insert_empty]

/-- The PCZT that a build ends with is stamped. -/
theorem finish_stamps (L : PcztUpstream P V) {hasBundle : Bool} {plan : Plan T}
    {out : BuildOutput} (hlen : i.outputs.length < u32Size)
    (hplan : plan.toLayout.Holds pool i plan.change plan.changeStamp)
    (h : finish P pool i hasBundle plan = .ok out)
    (hbundle : hasBundle = false → i.hasBundle = false) :
    ∃ pczt, V.parse out.pcztBytes = .ok pczt ∧ i.Stamps V pool plan.change pczt := by
  obtain ⟨s⟩ := finish_eq_ok h
  have hc := L.created s.parts_eq s.created_eq
  obtain ⟨hsame₁, hactions, hnone, hothers⟩ := L.stampBundle_ok s.stamped_eq
  have hsame₃ := (L.finalizeIo s.finalized_eq).trans (L.prove_ok s.proved_eq)
  have hitems := hsame₁.trans hsame₃.transparent
  have hcoins := hc.inputs
  rw [hplan.inputs, filterMap_coin_spent] at hcoins
  have hcount : i.transparentInputs.length = (V.inputs s.proved).length := by
    rw [hitems.inputs, ← List.length_map TransparentInput.coin, ← hcoins, List.length_map]
  obtain ⟨hspends, hinputs, houtputs⟩ := L.stampTransparent_ok s.signable_eq hcount
  obtain ⟨pczt, hparse, hsame⟩ := L.encodePczt_ok s.pcztBytes_eq
  refine ⟨pczt, hparse, hplan.balance, ?_, ?_, fun q ↦ ?_⟩
  · rw [hsame.transparent.inputs, hinputs, hitems.inputs]
    exact stampsInput_of_zipWith hcoins hc.inputDerivations
  · rw [hsame.transparent.outputs, houtputs, hitems.outputs]
    exact stampedOutputs_of_created hlen hplan hc
  · -- the derivations are those that the stamping of the bundle left
    have hfinal : V.zip32Derivations q pczt = V.zip32Derivations q s.stamped :=
      ((hsame.spends q).trans (hspends q)).trans (hsame₃.spends q)
    suffices ∀ o ∈ V.zip32Derivations q pczt, o = some i.spendKey from
      fun a ha ↦ this _ (List.mem_map_of_mem ha)
    rw [hfinal]
    by_cases hq : q = pool
    · subst hq
      rcases Bool.eq_false_or_eq_true hasBundle with hb | hb
      · exact List.forall_mem_map.mpr (hactions hb)
      · rw [hnone hb, actions_eq_nil hplan hc fun _ ↦ hbundle hb]
        exact List.forall_mem_nil _
    · rw [hothers q hq, actions_eq_nil hplan hc fun h ↦ absurd h hq]
      exact List.forall_mem_nil _

end Build

/-! ## What counts the stamps -/

section Readers

variable {V : PcztView T} {i : BuildInputs T} {pool : Pool} {change : Nat} {pczt : T.Pczt}

/-- The parser accepts every transparent item. -/
theorem BuildInputs.Stamps.convertTransparent_ok (h : i.Stamps V pool change pczt) :
    ∃ parsed, convertTransparent V pczt = .ok parsed := by
  obtain ⟨recipients, own, houtputs, -, hempty, hown⟩ := h.outputs
  obtain ⟨inputs, hinputs⟩ : ∃ r, (V.inputs pczt).mapM convertTransparentInput = .ok r := by
    refine exists_mapM_eq_ok fun input hinput ↦ ?_
    obtain ⟨tin, -, hstamp⟩ := exists_of_forall₂_right h.inputs hinput
    rw [convertTransparentInput, hstamp.derivation, singleDerivation_singleton]
    exact ⟨_, rfl⟩
  obtain ⟨outputs, houtputs⟩ : ∃ r, (V.outputs pczt).mapM convertTransparentOutput = .ok r := by
    refine exists_mapM_eq_ok fun output houtput ↦ ?_
    rw [houtputs] at houtput
    rcases List.mem_append.mp houtput with hmem | hmem
    · rw [convertTransparentOutput, hempty output hmem, singleDerivation_empty]
      exact ⟨_, rfl⟩
    · cases hown with
      | none _ => cases hmem
      | change _ _ _ _ _ _ hderivation =>
          cases List.mem_singleton.mp hmem
          rw [convertTransparentOutput, hderivation, singleDerivation_singleton]
          exact ⟨_, rfl⟩
  exact ⟨(inputs, outputs), bind_eq_ok.mpr ⟨_, mapError_eq_ok.mpr hinputs,
    bind_eq_ok.mpr ⟨_, mapError_eq_ok.mpr houtputs, rfl⟩⟩⟩

/-- The finalizer finds a public key for every input. -/
theorem BuildInputs.Stamps.checkInputPubkeys_ok (h : i.Stamps V pool change pczt) :
    checkInputPubkeys V pczt = .ok () := by
  have hnone : (inputPubkeys V pczt).findIdx? List.isEmpty = none := by
    rw [List.findIdx?_eq_none_iff, inputPubkeys, List.forall_mem_map]
    intro input hinput
    obtain ⟨tin, -, hstamp⟩ := exists_of_forall₂_right h.inputs hinput
    rw [hstamp.derivation]
    rfl
  rw [checkInputPubkeys, hnone]

end Readers

/-- Whenever either builder succeeds, its bytes parse to a PCZT that is stamped on the
right items, and whose stamps the parser and the finalizer accept. -/
theorem derivations_stamped {P : CraftUpstream T} {V : PcztView T} (L : PcztUpstream P V)
    (i : BuildInputs T) (out : BuildOutput) (hlen : i.outputs.length < u32Size) :
    (buildTransaction P i = .ok out → ∃ pczt change, V.parse out.pcztBytes = .ok pczt ∧
      i.Stamps V .orchard change pczt ∧ (∃ parsed, convertTransparent V pczt = .ok parsed) ∧
      checkInputPubkeys V pczt = .ok ()) ∧
    (buildIronwoodTransaction P i = .ok out → ∃ pczt change, V.parse out.pcztBytes = .ok pczt ∧
      i.Stamps V .ironwood change pczt ∧ (∃ parsed, convertTransparent V pczt = .ok parsed) ∧
      checkInputPubkeys V pczt = .ok ()) := by
  constructor
  · intro h
    obtain ⟨plan, hplan, h⟩ := bind_eq_ok.mp h
    obtain ⟨pczt, hparse, hstamps⟩ :=
      finish_stamps L hlen (planTransaction_holds hplan) h id
    exact ⟨pczt, _, hparse, hstamps, hstamps.convertTransparent_ok, hstamps.checkInputPubkeys_ok⟩
  · intro h
    obtain ⟨plan, hplan, h⟩ := bind_eq_ok.mp h
    obtain ⟨pczt, hparse, hstamps⟩ :=
      finish_stamps L hlen (planIronwoodTransaction_holds hplan) h (nomatch ·)
    exact ⟨pczt, _, hparse, hstamps, hstamps.convertTransparent_ok, hstamps.checkInputPubkeys_ok⟩

/-! A public payment with change, on either builder: one recipient has the script of the
change address. -/

section Sample

/-- A PCZT as the record of what is read of it. -/
structure PcztRecord where
  /-- Each with its signature. -/
  inputs : List (PcztInput × Option UInt8)
  outputs : List PcztOutput
  orchard : List PcztAction
  ironwood : List PcztAction
deriving DecidableEq

namespace PcztRecord

def actions : Pool → PcztRecord → List PcztAction
  | .orchard, p => p.orchard
  | .ironwood, p => p.ironwood

def modifyAction (p : PcztRecord) (n : Nat) (f : PcztAction → PcztAction) : Pool → PcztRecord
  | .orchard => { p with orchard := p.orchard.modify n f }
  | .ironwood => { p with ironwood := p.ironwood.modify n f }

end PcztRecord

/-- Numbers for addresses, records for PCZTs. -/
def recordTypes : CraftTypes Unit where
  Fvk := Unit
  Ovk := Unit
  OrchardAddress := Nat
  TransparentAddress := Nat
  PublicKey := Unit
  Script := Unit
  Anchor := Unit
  PcztParts := PcztRecord
  Pczt := PcztRecord

/-- The input that a coin is spent by. -/
def recordInput (c : Coin) : PcztInput := ⟨c.txid, c.vout, none, c.value, [], 1, ∅⟩

/-- One byte for the script of an address. -/
def recordScript (addr : Nat) : List UInt8 := [UInt8.ofNat addr]

def recordOutput (pays : List UInt8 × Nat) : PcztOutput := ⟨pays.2, pays.1, ∅⟩

/-- Two actions for a bundle with an item. -/
def recordActions (b : Builder recordTypes) (pool : Pool) : List PcztAction :=
  if b.inputs.any (fun x ↦ x.spent = .note pool) ||
    b.outputs.any (fun x ↦ x.payment.pool = some pool) then List.replicate 2 ⟨none, none⟩
  else []

def samplePaymentKey : Derivation :=
  ⟨fill 32 2, [hardened 44, hardened 1, hardened 0, 0, 5]⟩

def sampleChangeKey : Derivation :=
  ⟨fill 32 2, [hardened 44, hardened 1, hardened 0, 1, 7]⟩

/-- The PCZT of the payment below. -/
def sampleStamped (pool : Pool) : PcztRecord where
  inputs := [({ recordInput ⟨fill 32 3, 0, 51000⟩ with
    bip32Derivation := AList.singleton (fill 33 2) samplePaymentKey }, none)]
  outputs := [recordOutput (recordScript 6, 7000), { recordOutput (recordScript 6, 20000) with
    bip32Derivation := AList.singleton (fill 33 4) sampleChangeKey }]
  orchard := if pool = .orchard then
      List.replicate 2 ⟨none, some ⟨fill 32 2, [hardened 32, hardened 1, hardened 0]⟩⟩ else []
  ironwood := if pool = .ironwood then
      List.replicate 2 ⟨none, some ⟨fill 32 2, [hardened 32, hardened 1, hardened 0]⟩⟩ else []

/-- An encoding that knows the two PCZTs of the payment. -/
def recordSerialize (p : PcztRecord) : Except String (List UInt8) :=
  if p = sampleStamped .orchard then .ok [1]
  else if p = sampleStamped .ironwood then .ok [2]
  else .error "unknown"

def recordView : PcztView recordTypes where
  parse bytes := if bytes = [1] then .ok (sampleStamped .orchard)
    else if bytes = [2] then .ok (sampleStamped .ironwood) else .error "unknown"
  consensusBranchId _ := 0
  inputs p := p.inputs.map Prod.fst
  outputs := PcztRecord.outputs
  actions := PcztRecord.actions
  script := recordScript

/-- The upstream crates as far as the stamps go: everything is taken and recorded. -/
def recording : CraftUpstream recordTypes where
  named _ _ := some 1
  branchForHeight _ _ := some .nu6_3
  bundleCircuit _ := some .postNu6_3
  zatoshisOverflow := "overflow"
  memoTooLong _ := "too long"
  validMarginalFee _ := true
  orchardAddress bytes := some bytes.1.length
  validRho _ := true
  validRseed _ _ := true
  validNote _ := true
  publicKey _ := .ok ()
  readScript _ := .ok ()
  anchorFromBytes _ := some ()
  emptyTreeAnchor := ()
  proposeV5 _ := .ok ()
  takesInput _ _ := .ok ()
  takesOutput _ _ := .ok ()
  getFee _ rule := .ok (rule.marginalFee * 4)
  buildForPczt b _ := .ok
    { inputs := (b.inputs.map BuilderInput.spent).filterMap fun x ↦
        x.coin?.map fun c ↦ (recordInput c, none)
      outputs := (b.outputs.map BuilderOutput.payment).filterMap fun pay ↦
        (pay.script recordView).map recordOutput
      orchard := recordActions b .orchard
      ironwood := recordActions b .ironwood }
  partsActions pool parts := some (parts.actions pool).length
  expiryHeight _ := 50
  setExpiryHeight parts _ := parts
  createPczt parts := some parts
  openBundle _ _ := .ok ()
  bundleActions pool pczt := (pczt.actions pool).length
  validZip32 _ := true
  setSpendDerivation pool pczt n d :=
    .ok (pczt.modifyAction n (fun a ↦ { a with zip32Derivation := some d }) pool)
  parseBip32 _ := .ok ()
  setInputDerivation pczt n pubkey d :=
    .ok { pczt with inputs := pczt.inputs.modify n fun x ↦
      (x.1.setDerivation pubkey d, x.2) }
  setOutputDerivation pczt n pubkey d :=
    .ok { pczt with outputs := pczt.outputs.modify n (PcztOutput.setDerivation · pubkey d) }
  finalizeIo pczt := .ok pczt
  requiresProof _ _ := false
  createProof _ _ pczt := .ok pczt
  redactActions _ _ pczt := pczt
  serializeV1 := recordSerialize
  serializeV2 := recordSerialize

theorem map_zip32_modify (actions : List PcztAction) (n : Nat) (d : Derivation) :
    (actions.modify n fun a ↦ { a with zip32Derivation := some d }).map
      PcztAction.zip32Derivation = (actions.map PcztAction.zip32Derivation).set n (some d) := by
  rw [List.set_eq_modify]
  exact map_modify (fun _ ↦ by rfl) _ _

theorem map_filterMap_of_inverse {α β γ : Type} {f : α → Option β} {g : β → γ} {k : γ → β}
    (h : ∀ b, k (g b) = b) (l : List α) :
    (l.filterMap fun x ↦ (f x).map g).map k = l.filterMap f := by
  rw [List.map_filterMap]
  refine List.filterMap_congr fun x _ ↦ ?_
  rw [Option.map_map]
  exact (congrArg (Option.map · (f x)) (funext h)).trans Option.map_id'

theorem parse_recordSerialize {p : PcztRecord} {bytes : List UInt8}
    (h : recordSerialize p = .ok bytes) :
    ∃ p', recordView.parse bytes = .ok p' ∧ recordView.Same p p' := by
  unfold recordSerialize at h
  split at h
  · rename_i hp
    cases h
    exact ⟨p, by rw [hp]; rfl, .refl _⟩
  · split at h
    · rename_i hp
      cases h
      exact ⟨p, by rw [hp]; rfl, .refl _⟩
    · cases h

theorem recording_pcztUpstream : PcztUpstream recording recordView where
  created {b _ parts _ pczt} hparts hcreate := by
    cases hparts
    cases hcreate
    refine ⟨?_, map_filterMap_of_inverse (fun _ ↦ rfl) _, fun x hx ↦ ?_, fun o ho ↦ ?_,
      fun pool hin hout ↦ ?_⟩
    · exact List.map_map.trans (map_filterMap_of_inverse (fun _ ↦ rfl) _)
    · obtain ⟨input, hinput, rfl⟩ := List.mem_map.mp hx
      obtain ⟨y, -, hy⟩ := List.mem_filterMap.mp hinput
      obtain ⟨c, -, rfl⟩ := Option.map_eq_some_iff.mp hy
      rfl
    · obtain ⟨y, -, hy⟩ := List.mem_filterMap.mp ho
      obtain ⟨pays, -, rfl⟩ := Option.map_eq_some_iff.mp hy
      rfl
    · have hnone : recordActions b pool = [] := by
        refine if_neg ?_
        rw [Bool.or_eq_true, List.any_eq_true, List.any_eq_true]
        rintro (⟨x, hx, hpool⟩ | ⟨x, hx, hpool⟩)
        · exact hin (List.mem_map.mpr ⟨x, hx, of_decide_eq_true hpool⟩)
        · exact hout _ (List.mem_map_of_mem hx) (of_decide_eq_true hpool)
      cases pool <;> exact hnone
  bundleActions _ _ := rfl
  setSpendDerivation {pool p _ n d} h := by
    cases h
    cases pool with
    | orchard =>
        refine ⟨⟨rfl, rfl⟩, map_zip32_modify _ n d, fun other hother ↦ ?_⟩
        cases other
        · exact absurd rfl hother
        · rfl
    | ironwood =>
        refine ⟨⟨rfl, rfl⟩, map_zip32_modify _ n d, fun other hother ↦ ?_⟩
        cases other
        · rfl
        · exact absurd rfl hother
  setInputDerivation h := by
    cases h
    exact ⟨map_modify (fun _ ↦ by rfl) _ _, rfl, fun pool ↦ by cases pool <;> rfl⟩
  setOutputDerivation h := by
    cases h
    exact ⟨rfl, rfl, fun pool ↦ by cases pool <;> rfl⟩
  finalizeIo h := by
    cases h
    exact .refl _
  createProof h := by
    cases h
    exact .refl _
  redactActions _ _ _ := .refl _
  serializeV1 := parse_recordSerialize
  serializeV2 := parse_recordSerialize

/-- 51 000 in, 27 000 out and a fee of four actions: the change is 20 000. -/
def samplePublicPayment : BuildInputs recordTypes where
  network := .named .testNetwork
  targetHeight := 10
  anchorHeight := 1
  fvk := some ()
  ovk := some ()
  changeAddress := none
  transparentChangeAddress := some (6 : Nat)
  transparentChangePubkey := some (fill 33 4)
  transparentChangeAddressIndex := some 7
  anchor := fill 32 1
  seedFingerprint := fill 32 2
  accountIndex := 0
  fee := 4000
  spends := []
  transparentInputs := [⟨fill 33 2, fill 32 3, 0, [], 51000, 0, 5⟩]
  outputs := [⟨.shielded (5 : Nat), 20000, some [104, 105]⟩, ⟨.transparent (6 : Nat), 7000, none⟩]

theorem derivations_stamped_sample :
    (∃ pczt change, recordView.parse [1] = .ok pczt ∧
      samplePublicPayment.Stamps recordView .orchard change pczt ∧
      (∃ parsed, convertTransparent recordView pczt = .ok parsed) ∧
      checkInputPubkeys recordView pczt = .ok ()) ∧
    (∃ pczt change, recordView.parse [2] = .ok pczt ∧
      samplePublicPayment.Stamps recordView .ironwood change pczt ∧
      (∃ parsed, convertTransparent recordView pczt = .ok parsed) ∧
      checkInputPubkeys recordView pczt = .ok ()) :=
  ⟨(derivations_stamped recording_pcztUpstream samplePublicPayment ⟨[1], 4000, 1, 2, 1, 2, 0⟩
      (by decide)).1 (by decide +kernel),
    (derivations_stamped recording_pcztUpstream samplePublicPayment ⟨[2], 4000, 1, 0, 1, 2, 2⟩
      (by decide)).2 (by decide +kernel)⟩

end Sample

end LedgerZcash
