import LedgerZcash.Crypto.Stamps
import LedgerZcash.Crypto.TestSigning

/-!
# Where the signatures land

Signatures are matched to actions by position: the signer and the finalizer each walk the
actions of a pool and skip those that are signed.  The slots of `Lib.Slots` say what such
a walk does, so each signature lands on the action or the input it was made for, no
signature is overwritten, and a list of another length is refused (`signatures_land`).
-/

namespace LedgerZcash

open Hex Collect Slots

variable {Path : Type} {T : CraftTypes Path} {P : CraftUpstream T} {V : PcztView T}
  {U : FinalizeUpstream T} {W : TestSigner U}

/-! ## Upstream -/

/-- A view of the signatures of the transparent inputs: one slot for each. -/
abbrev InputSignatures {Path : Type} {T : CraftTypes Path} (U : FinalizeUpstream T) : Type :=
  T.Pczt → List (Option U.EcdsaSignature)

/-- The signatures of two PCZTs are the same. -/
structure SameSignatures (V : PcztView T) (S : InputSignatures U) (p p' : T.Pczt) : Prop where
  actions (pool : Pool) : V.spendAuthSigs pool p' = V.spendAuthSigs pool p
  inputs : S p' = S p

namespace SameSignatures

variable {S : InputSignatures U} {p p' p'' : T.Pczt}

theorem refl (p : T.Pczt) : SameSignatures V S p p := ⟨fun _ ↦ rfl, rfl⟩

theorem trans (h : SameSignatures V S p p') (h' : SameSignatures V S p' p'') :
    SameSignatures V S p p'' :=
  ⟨fun pool ↦ (h'.actions pool).trans (h.actions pool), h'.inputs.trans h.inputs⟩

end SameSignatures

/-- Each signing step fills the slot that it names, and changes no other signature. -/
structure SignerUpstream (V : PcztView T) (U : FinalizeUpstream T) (S : InputSignatures U) :
    Prop where
  length (p : T.Pczt) : (S p).length = (V.inputs p).length
  setHash160Preimages {p p' : T.Pczt} {n : Nat} {pubkeys : List (Arr 33)} :
    U.setHash160Preimages p n pubkeys = .ok p' → SameSignatures V S p p'
  newSigner {p : T.Pczt} {s : U.Signer} :
    U.newSigner p = .ok s → SameSignatures V S p (U.finish s)
  applySignature {pool : Pool} {s s' : U.Signer} {n : Nat} {sig : Arr 64} :
    U.applySignature pool s n sig = .ok s' →
      V.spendAuthSigs pool (U.finish s') = (V.spendAuthSigs pool (U.finish s)).set n (some sig) ∧
      (∀ other, other ≠ pool →
        V.spendAuthSigs other (U.finish s') = V.spendAuthSigs other (U.finish s)) ∧
      S (U.finish s') = S (U.finish s)
  appendTransparentSignature {s s' : U.Signer} {n : Nat} {sig : U.EcdsaSignature} :
    U.appendTransparentSignature s n sig = .ok s' →
      S (U.finish s') = (S (U.finish s)).set n (some sig) ∧
      ∀ pool, V.spendAuthSigs pool (U.finish s') = V.spendAuthSigs pool (U.finish s)

/-- The test signer fills the slot that it names, and its DER signatures are strict ones in
the short form. -/
structure TestSignerUpstream (V : PcztView T) (W : TestSigner U) : Prop where
  signAction {pool : Pool} {entropy : W.Entropy} {s s' : U.Signer} {n : Nat} {ask : W.Ask} :
    W.signAction pool entropy s n ask = .ok s' → ∃ sig,
      V.spendAuthSigs pool (U.finish s') = (V.spendAuthSigs pool (U.finish s)).set n (some sig)
  fromDer (sig : U.EcdsaSignature) : U.fromDer (W.serializeDer sig) = .ok sig
  serializeDer (sig : U.EcdsaSignature) : ∃ content : List UInt8, content.length < 128 ∧
    W.serializeDer sig = 0x30 :: UInt8.ofNat content.length :: content

/-! ## What the finalizer fills -/

theorem checkCounts_eq_ok {inputs : FinalizeInputs} {pczt : T.Pczt} {u : Unit} :
    checkCounts V inputs pczt = .ok u ↔
      (∀ pool, (inputs.signatures pool).length = (unsignedActions V pool pczt).length) ∧
        inputs.transparentSignatures.length = (V.inputs pczt).length := by
  simp only [checkCounts, checkSignatureCount, checkTransparentCount, bind_eq_ok,
    refuseIf_eq_ok, ne_eq, not_not, exists_const]
  constructor
  · rintro ⟨horchard, hironwood, htransparent⟩
    refine ⟨fun pool ↦ ?_, htransparent⟩
    cases pool
    · exact horchard
    · exact hironwood
  · rintro ⟨hpools, htransparent⟩
    exact ⟨hpools .orchard, hpools .ironwood, htransparent⟩

section Finalizer

variable {S : InputSignatures U} (H : SignerUpstream V U S)

include H

theorem SignerUpstream.stampTransparentHash160Preimages_ok {p p' : T.Pczt}
    (h : stampTransparentHash160Preimages V U p = .ok p') : SameSignatures V S p p' := by
  unfold stampTransparentHash160Preimages at h
  obtain ⟨_, -, h⟩ := bind_eq_ok.mp h
  obtain ⟨_, -, h⟩ := bind_eq_ok.mp h
  refine foldlM_induction (P := fun _ t ↦ SameSignatures V S p t) (mapError_eq_ok.mp h)
    (.refl p) ?_
  exact fun _ x t t' ht ha ↦ ht.trans (H.setHash160Preimages ha)

/-- The signatures of a pool fill its empty slots. -/
theorem SignerUpstream.applySignatures_ok {pool : Pool} {p : T.Pczt} {sigs : List (Arr 64)}
    {s s' : U.Signer} (h : applySignatures U pool (unsignedActions V pool p) sigs s = .ok s')
    (hp : V.spendAuthSigs pool (U.finish s) = V.spendAuthSigs pool p) :
    V.spendAuthSigs pool (U.finish s') = fillSlots (V.spendAuthSigs pool p) sigs ∧
      (∀ other, other ≠ pool →
        V.spendAuthSigs other (U.finish s') = V.spendAuthSigs other (U.finish s)) ∧
      S (U.finish s') = S (U.finish s) := by
  unfold applySignatures at h
  refine ⟨?_, fun other hother ↦ ?_, ?_⟩
  · have hview := foldlM_view (v := fun s ↦ V.spendAuthSigs pool (U.finish s))
      (g := fun slots x ↦ slots.set x.1 (some x.2)) h
      fun t x t' ha ↦ (H.applySignature (mapError_eq_ok.mp ha)).1
    rw [hview, hp]
    exact foldl_set_emptySlots _ _
  · refine foldlM_induction (P := fun _ t ↦
      V.spendAuthSigs other (U.finish t) = V.spendAuthSigs other (U.finish s)) h rfl ?_
    exact fun _ x t t' ht ha ↦
      ((H.applySignature (mapError_eq_ok.mp ha)).2.1 other hother).trans ht
  · refine foldlM_induction (P := fun _ t ↦ S (U.finish t) = S (U.finish s)) h rfl ?_
    exact fun _ x t t' ht ha ↦ (H.applySignature (mapError_eq_ok.mp ha)).2.2.trans ht

/-- One transparent signature for each input leaves each on its input. -/
theorem SignerUpstream.appendTransparentSignatures_ok {ders : List (List UInt8)}
    {s s' : U.Signer} (h : appendTransparentSignatures U ders s = .ok s')
    (hlen : ders.length = (S (U.finish s)).length) :
    (∀ pool, V.spendAuthSigs pool (U.finish s') = V.spendAuthSigs pool (U.finish s)) ∧
      ∃ sigs, List.Forall₂ (fun der sig ↦ parseTransparentDer U der = .ok sig) ders sigs ∧
        S (U.finish s') = sigs.map some := by
  unfold appendTransparentSignatures at h
  obtain ⟨sigs, hsigs, h⟩ := exists_of_foldlM_zipIdx (parseTransparentDer U)
    (appendSignature U) h
  refine ⟨fun pool ↦ ?_, sigs, hsigs, ?_⟩
  · refine foldlM_induction (P := fun _ t ↦
      V.spendAuthSigs pool (U.finish t) = V.spendAuthSigs pool (U.finish s)) h rfl ?_
    exact fun _ x t t' ht ha ↦
      ((H.appendTransparentSignature (mapError_eq_ok.mp ha)).2 pool).trans ht
  · have hview := foldlM_view (v := fun s ↦ S (U.finish s))
      (g := fun slots x ↦ slots.set x.2 (some x.1)) h
      fun t x t' ha ↦ (H.appendTransparentSignature (mapError_eq_ok.mp ha)).1
    rw [hview]
    exact foldl_set_zipIdx (hsigs.length_eq.symm.trans hlen)

/-- A signed PCZT is the PCZT with its empty slots filled. -/
structure Filled (V : PcztView T) (S : InputSignatures U) (inputs : FinalizeInputs)
    (pczt signed : T.Pczt) : Prop where
  count (pool : Pool) : (inputs.signatures pool).length = (unsignedActions V pool pczt).length
  actions (pool : Pool) : V.spendAuthSigs pool signed =
    fillSlots (V.spendAuthSigs pool pczt) (inputs.signatures pool)
  inputs : ∃ sigs, List.Forall₂ (fun der sig ↦ parseTransparentDer U der = .ok sig)
    inputs.transparentSignatures sigs ∧ S signed = sigs.map some

theorem SignerUpstream.signPczt_ok {inputs : FinalizeInputs} {pczt signed : T.Pczt}
    (h : signPczt V U inputs pczt = .ok signed) : Filled V S inputs pczt signed := by
  unfold signPczt at h
  obtain ⟨_, hcounts, h⟩ := bind_eq_ok.mp h
  obtain ⟨stamped, hstamped, h⟩ := bind_eq_ok.mp h
  obtain ⟨s₀, hnew, h⟩ := bind_eq_ok.mp h
  obtain ⟨s₁, horchard, h⟩ := bind_eq_ok.mp h
  obtain ⟨s₂, hironwood, h⟩ := bind_eq_ok.mp h
  obtain ⟨s₃, htransparent, h⟩ := bind_eq_ok.mp h
  cases pure_eq_ok.mp h
  obtain ⟨hpools, hinputs⟩ := checkCounts_eq_ok.mp hcounts
  have hstart : SameSignatures V S pczt (U.finish s₀) := by
    refine SameSignatures.trans ?_ (H.newSigner (mapError_eq_ok.mp hnew))
    unfold stampInputs at hstamped
    split at hstamped
    · exact H.stampTransparentHash160Preimages_ok hstamped
    · cases pure_eq_ok.mp hstamped
      exact .refl pczt
  obtain ⟨hfilled, hothers, hsame⟩ := H.applySignatures_ok horchard (hstart.actions _)
  have hironwood₁ := (hothers .ironwood (by decide)).trans (hstart.actions _)
  obtain ⟨hfilled', hothers', hsame'⟩ := H.applySignatures_ok hironwood hironwood₁
  have hslots : S (U.finish s₂) = S pczt := (hsame'.trans hsame).trans hstart.inputs
  have hlen : inputs.transparentSignatures.length = (S (U.finish s₂)).length := by
    rw [hslots, H.length, hinputs]
  obtain ⟨hpools₃, sigs, hsigs, hfinal⟩ := H.appendTransparentSignatures_ok htransparent hlen
  refine ⟨hpools, fun pool ↦ ?_, sigs, hsigs, hfinal⟩
  rw [hpools₃]
  cases pool with
  | orchard => exact (hothers' .orchard (by decide)).trans hfilled
  | ironwood => exact hfilled'

omit H in
/-- A list of the wrong length is refused. -/
theorem signPczt_eq_error {inputs : FinalizeInputs} {pczt : T.Pczt}
    (h : (∃ pool, (inputs.signatures pool).length ≠ (unsignedActions V pool pczt).length) ∨
      inputs.transparentSignatures.length ≠ (V.inputs pczt).length) :
    ∃ msg, signPczt V U inputs pczt = .error (.finalize msg) := by
  have hfails : FailsOnly (fun e ↦ ∃ msg, e = Error.finalize msg) (checkCounts V inputs pczt) := by
    have hcheck : ∀ (c : Prop) [Decidable c] (msg : String),
        FailsOnly (fun e ↦ ∃ msg, e = Error.finalize msg) (refuseIf c (Error.finalize msg)) :=
      fun c _ msg ↦ .ite (.error ⟨msg, rfl⟩) (.ok ())
    exact .bind (hcheck _ _) fun _ ↦ .bind (hcheck _ _) fun _ ↦ hcheck _ _
  cases hcounts : checkCounts V inputs pczt with
  | error e =>
      obtain ⟨msg, rfl⟩ := hfails e hcounts
      exact ⟨msg, by rw [signPczt, hcounts]; rfl⟩
  | ok u =>
      obtain ⟨hpools, hinputs⟩ := checkCounts_eq_ok.mp hcounts
      rcases h with ⟨pool, hpool⟩ | htransparent
      · exact absurd (hpools pool) hpool
      · exact absurd hinputs htransparent

end Finalizer

/-! ## What the test signer makes -/

section Signer

variable {S : InputSignatures U} (H : SignerUpstream V U S) (HW : TestSignerUpstream V W)

include H HW in
/-- The test signer fills the empty slots of its pool. -/
theorem TestSignerUpstream.signActions_ok {pool : Pool} {entropy : Nat → W.Entropy} {ask : W.Ask}
    {pczt made : T.Pczt} (h : signActions V U W pool entropy ask pczt = .ok made) :
    ∃ sigs, sigs.length = (unsignedActions V pool pczt).length ∧
      V.spendAuthSigs pool made = fillSlots (V.spendAuthSigs pool pczt) sigs := by
  unfold signActions at h
  obtain ⟨s, hnew, h⟩ := bind_eq_ok.mp h
  obtain ⟨s', hloop, h⟩ := bind_eq_ok.mp h
  cases pure_eq_ok.mp h
  obtain ⟨sigs, hlen, hsigs⟩ : ∃ sigs : List (Arr 64),
      sigs.length = (unsignedActions V pool pczt).length ∧ V.spendAuthSigs pool (U.finish s') =
        ((unsignedActions V pool pczt).zip sigs).foldl (fun slots x ↦ slots.set x.1 (some x.2))
          (V.spendAuthSigs pool pczt) := by
    refine foldlM_induction (P := fun done t ↦ ∃ sigs : List (Arr 64), sigs.length = done.length ∧
      V.spendAuthSigs pool (U.finish t) = (done.zip sigs).foldl
        (fun slots x ↦ slots.set x.1 (some x.2)) (V.spendAuthSigs pool pczt)) hloop
      ⟨[], rfl, (H.newSigner (mapError_eq_ok.mp hnew)).actions pool⟩ ?_
    rintro done n t t' ⟨sigs, hlen, hsigs⟩ ha
    obtain ⟨sig, hsig⟩ := HW.signAction (mapError_eq_ok.mp ha)
    refine ⟨sigs ++ [sig], by simp [hlen], ?_⟩
    rw [hsig, hsigs, List.zip_append hlen.symm, List.foldl_append]
    rfl
  exact ⟨sigs, hlen, hsigs.trans (foldl_set_emptySlots _ _)⟩

include H HW in
/-- What it returns is what it put into the slots. -/
theorem TestSignerUpstream.signPcztActions_ok {pool : Pool} {entropy : Nat → W.Entropy}
    {bytes : List UInt8} {ask : W.Ask} {sigs : List (Arr 64)} {pczt : T.Pczt}
    (hparse : V.parse bytes = .ok pczt)
    (h : signPcztActions V U W pool entropy bytes ask = .ok sigs) :
    ∃ made, signActions V U W pool entropy ask pczt = .ok made ∧
      sigs.length = (unsignedActions V pool pczt).length ∧
      V.spendAuthSigs pool made = fillSlots (V.spendAuthSigs pool pczt) sigs := by
  unfold signPcztActions at h
  obtain ⟨pczt', hparse', h⟩ := bind_eq_ok.mp h
  cases hparse.symm.trans (mapError_eq_ok.mp hparse')
  obtain ⟨made, hmade, hread⟩ := bind_eq_ok.mp h
  obtain ⟨sigs', hlen, hsigs⟩ := HW.signActions_ok H hmade
  have hslots : sigs.map (fun sig ↦ some (some sig)) =
      (unsignedActions V pool pczt).map fun i ↦ (V.spendAuthSigs pool made)[i]? := by
    refine map_eq_map_of_mapM hread fun idx _ sig hsig ↦ ?_
    exact (Option.join_eq_some_iff.mp (okOr_eq_ok.mp hsig)).symm
  rw [hsigs] at hslots
  have heq := hslots.trans (map_getElem?_fillSlots hlen)
  cases List.map_injective_iff.mpr
    (fun _ _ h ↦ Option.some.inj (Option.some.inj h) :
      Function.Injective fun sig : Arr 64 ↦ some (some sig)) heq
  exact ⟨made, hmade, hlen, hsigs⟩

include HW in
/-- The finalizer reads the test signer's DER signatures back: they have no mark in the
header and no byte behind them. -/
theorem TestSignerUpstream.parseTransparentDer_ok (sig : U.EcdsaSignature) :
    parseTransparentDer U (W.serializeDer sig) = .ok sig := by
  obtain ⟨content, hlt, hder⟩ := HW.serializeDer sig
  have hlen : (UInt8.ofNat content.length).toNat = content.length := by
    rw [UInt8.toNat_ofNat']
    exact Nat.mod_eq_of_lt (by omega)
  have hparity : resetParityBit (W.serializeDer sig) = W.serializeDer sig := by
    rw [hder]
    rfl
  have hstrip : stripSighashType (W.serializeDer sig) = W.serializeDer sig := by
    rw [hder, stripSighashType, if_neg]
    rintro ⟨-, h⟩
    omega
  rw [parseTransparentDer, hparity, hstrip, HW.fromDer]
  refine bind_eq_ok.mpr ⟨(), refuseIf_eq_ok.mpr ?_, rfl⟩
  rw [hder]
  simp

/-- The signature of an input by its own key: the key is derived at the path that the input
carries, and it signs the input's own sighash. -/
def SignedByOwnKey (W : TestSigner U) (network : Network) (seed : List UInt8) (pczt : T.Pczt)
    (i : Nat) (input : PcztInput) (sig : U.EcdsaSignature) : Prop :=
  ∃ root signer path sk sighash, W.newMaster network seed = .ok root ∧
    U.newSigner pczt = .ok signer ∧ transparentInputBip32Path input = .ok path ∧
    W.derivePriv root path = .ok sk ∧ W.transparentSighash signer i = .ok sighash ∧
    sig = W.signEcdsa sighash sk

/-- The test signer returns one signature for each input, by the input's own key. -/
theorem signPcztTransparentInputs_ok {bytes seed : List UInt8} {network : Network}
    {ders : List (List UInt8)} {pczt : T.Pczt} (hparse : V.parse bytes = .ok pczt)
    (h : signPcztTransparentInputs V U W bytes seed network = .ok ders) :
    ders.length = (V.inputs pczt).length ∧
      ∀ i input, (V.inputs pczt)[i]? = some input →
        ∃ sig, ders[i]? = some (W.serializeDer sig) ∧
          SignedByOwnKey W network seed pczt i input sig := by
  unfold signPcztTransparentInputs at h
  obtain ⟨pczt', hparse', h⟩ := bind_eq_ok.mp h
  cases hparse.symm.trans (mapError_eq_ok.mp hparse')
  split at h
  · rename_i hnone
    cases pure_eq_ok.mp h
    refine ⟨hnone.symm, fun i input hi ↦ ?_⟩
    rw [List.length_eq_zero_iff.mp hnone] at hi
    cases hi
  · obtain ⟨root, hroot, h⟩ := bind_eq_ok.mp h
    obtain ⟨sks, hsks, h⟩ := bind_eq_ok.mp h
    obtain ⟨signer, hnew, h⟩ := bind_eq_ok.mp h
    unfold inputSecretKeys at hsks
    obtain ⟨_, -, hsks⟩ := bind_eq_ok.mp hsks
    obtain ⟨paths, hpaths, hsks⟩ := bind_eq_ok.mp hsks
    have hpaths := mapM_eq_ok_iff.mp hpaths
    have hsks := mapM_eq_ok_iff.mp hsks
    have hders := mapM_eq_ok_iff.mp h
    constructor
    · rw [← hders.length_eq, List.length_zipIdx, ← hsks.length_eq, ← hpaths.length_eq]
    · intro i input hi
      obtain ⟨path, hpath, hinput⟩ := exists_getElem?_of_forall₂ hpaths hi
      obtain ⟨sk, hsk, hderive⟩ := exists_getElem?_of_forall₂ hsks hpath
      have hidx : sks.zipIdx[i]? = some (sk, i) := by simp [hsk]
      obtain ⟨der, hder, hsign⟩ := exists_getElem?_of_forall₂ hders hidx
      obtain ⟨sighash, hsighash, hsign⟩ := bind_eq_ok.mp hsign
      cases pure_eq_ok.mp hsign
      exact ⟨_, hder, root, signer, path, sk, sighash, mapError_eq_ok.mp hroot,
        mapError_eq_ok.mp hnew, hinput, mapError_eq_ok.mp hderive, mapError_eq_ok.mp hsighash, rfl⟩

end Signer

/-! ## Where they land -/

/-- Each signature is on its action or its input, and the signatures that were there stay. -/
structure Lands (V : PcztView T) (S : InputSignatures U) (inputs : FinalizeInputs)
    (pczt signed : T.Pczt) : Prop where
  actions (pool : Pool) :
    (V.spendAuthSigs pool signed).length = (V.spendAuthSigs pool pczt).length
  /-- The unsigned actions of a pool, in ascending order. -/
  unsigned (pool : Pool) : (unsignedActions V pool pczt).Pairwise (· < ·) ∧
    ∀ n, n ∈ unsignedActions V pool pczt ↔ (V.spendAuthSigs pool pczt)[n]? = some none
  /-- The `k`-th signature of a pool is on its `k`-th unsigned action. -/
  placed (pool : Pool) {k n : Nat} : (unsignedActions V pool pczt)[k]? = some n →
    ∃ sig, (inputs.signatures pool)[k]? = some sig ∧
      (V.spendAuthSigs pool signed)[n]? = some (some sig)
  kept (pool : Pool) {n : Nat} {sig : Arr 64} :
    (V.spendAuthSigs pool pczt)[n]? = some (some sig) →
      (V.spendAuthSigs pool signed)[n]? = some (some sig)
  /-- The `i`-th transparent signature is on the `i`-th input. -/
  transparent : List.Forall₂ (fun der slot ↦ ∃ sig, parseTransparentDer U der = .ok sig ∧
    slot = some sig) inputs.transparentSignatures (S signed)

/-- The test signer's signatures are on the actions that it signed, and on the inputs whose
keys made them. -/
structure LandsOwn (V : PcztView T) (S : InputSignatures U) (W : TestSigner U)
    (inputs : FinalizeInputs) (pczt signed : T.Pczt) : Prop where
  actions {pool : Pool} {entropy : Nat → W.Entropy} {ask : W.Ask} :
    signPcztActions V U W pool entropy inputs.pcztBytes ask = .ok (inputs.signatures pool) →
      ∃ made, signActions V U W pool entropy ask pczt = .ok made ∧
        V.spendAuthSigs pool signed = V.spendAuthSigs pool made
  transparent {seed : List UInt8} {network : Network} :
    signPcztTransparentInputs V U W inputs.pcztBytes seed network =
      .ok inputs.transparentSignatures →
      ∀ i input, (V.inputs pczt)[i]? = some input →
        ∃ sig, (S signed)[i]? = some (some sig) ∧
          SignedByOwnKey W network seed pczt i input sig

section Landing

variable {S : InputSignatures U} {inputs : FinalizeInputs} {pczt signed : T.Pczt}

theorem Filled.lands (h : Filled V S inputs pczt signed) : Lands V S inputs pczt signed where
  actions pool := by rw [h.actions, length_fillSlots]
  unsigned pool := ⟨emptySlots_pairwise _, fun n ↦ mem_emptySlots _⟩
  placed pool k n hn := by
    rw [h.actions]
    exact getElem?_fillSlots_of_none (h.count pool) hn
  kept pool n sig hsig := by
    rw [h.actions]
    exact getElem?_fillSlots_of_some hsig _
  transparent := by
    obtain ⟨sigs, hsigs, hS⟩ := h.inputs
    rw [hS, List.forall₂_map_right_iff]
    exact hsigs.imp fun _ sig hsig ↦ ⟨sig, hsig, rfl⟩

theorem Filled.landsOwn (H : SignerUpstream V U S) (HW : TestSignerUpstream V W)
    (h : Filled V S inputs pczt signed) (hparse : V.parse inputs.pcztBytes = .ok pczt) :
    LandsOwn V S W inputs pczt signed where
  actions {pool entropy ask} hsign := by
    obtain ⟨made, hmade, -, hfilled⟩ := HW.signPcztActions_ok H hparse hsign
    exact ⟨made, hmade, (h.actions pool).trans hfilled.symm⟩
  transparent {seed network} hsign i input hi := by
    obtain ⟨-, hkeys⟩ := signPcztTransparentInputs_ok hparse hsign
    obtain ⟨sig, hder, hown⟩ := hkeys i input hi
    obtain ⟨sigs, hsigs, hS⟩ := h.inputs
    obtain ⟨sig', hsig', hread⟩ := exists_getElem?_of_forall₂ hsigs hder
    cases (HW.parseTransparentDer_ok sig).symm.trans hread
    exact ⟨sig, by rw [hS, List.getElem?_map, hsig']; rfl, hown⟩

/-- Finalizing puts every signature on its action or its input and overwrites none; a list
of the wrong length is refused.  The lists of the test signer have the right lengths, and
each of its signatures lands where it was made for. -/
theorem signatures_land (P : CraftUpstream T) (H : SignerUpstream V U S)
    (HW : TestSignerUpstream V W) (inputs : FinalizeInputs) :
    (∀ out, finalizeTransaction P V U inputs = .ok out →
      ∃ pczt signed, V.parse inputs.pcztBytes = .ok pczt ∧
        signPczt V U inputs pczt = .ok signed ∧
        extractTransaction P U (V.consensusBranchId pczt) (0 < (V.inputs pczt).length) signed =
          .ok out ∧
        Lands V S inputs pczt signed ∧ LandsOwn V S W inputs pczt signed) ∧
    (∀ pczt, V.parse inputs.pcztBytes = .ok pczt →
      ((∃ pool, (inputs.signatures pool).length ≠ (unsignedActions V pool pczt).length) ∨
        inputs.transparentSignatures.length ≠ (V.inputs pczt).length) →
      ∃ msg, finalizeTransaction P V U inputs = .error (.finalize msg)) ∧
    ∀ pczt, V.parse inputs.pcztBytes = .ok pczt →
      (∀ pool, ∃ entropy ask, signPcztActions V U W pool entropy inputs.pcztBytes ask =
        .ok (inputs.signatures pool)) →
      (∃ seed network, signPcztTransparentInputs V U W inputs.pcztBytes seed network =
        .ok inputs.transparentSignatures) →
      checkCounts V inputs pczt = .ok () := by
  refine ⟨fun out h ↦ ?_, fun pczt hparse hcount ↦ ?_, fun pczt hparse hactions hinputs ↦ ?_⟩
  · obtain ⟨pczt, hparse, h⟩ := bind_eq_ok.mp h
    obtain ⟨signed, hsigned, h⟩ := bind_eq_ok.mp h
    have hparse := mapError_eq_ok.mp hparse
    have hfilled := H.signPczt_ok hsigned
    exact ⟨pczt, signed, hparse, hsigned, h, hfilled.lands, hfilled.landsOwn H HW hparse⟩
  · obtain ⟨msg, hmsg⟩ := signPczt_eq_error (U := U) hcount
    exact ⟨msg, by rw [finalizeTransaction, parsePczt, hparse]; simp [Except.mapError, bind,
      Except.bind, hmsg]⟩
  · refine checkCounts_eq_ok.mpr ⟨fun pool ↦ ?_, ?_⟩
    · obtain ⟨entropy, ask, hsign⟩ := hactions pool
      obtain ⟨_, -, hlen, -⟩ := HW.signPcztActions_ok H hparse hsign
      exact hlen
    · obtain ⟨seed, network, hsign⟩ := hinputs
      exact (signPcztTransparentInputs_ok hparse hsign).1

end Landing

/-! A PCZT with signed and unsigned actions in both pools and a transparent input. -/

section Sample

/-- Signatures as one byte, transactions as the records they are extracted from. -/
def recordFinalizer : FinalizeUpstream recordTypes where
  Signer := PcztRecord
  EcdsaSignature := UInt8
  Transaction := PcztRecord
  branchOfId _ := some (some .nu6_3)
  openTransparent _ := .ok ()
  setHash160Preimages pczt _ _ := .ok pczt
  newSigner pczt := .ok pczt
  applySignature pool pczt n sig :=
    .ok (pczt.modifyAction n (fun a ↦ { a with spendAuthSig := some sig }) pool)
  fromDer bytes :=
    match bytes with
    | [0x30, 1, sig] => .ok sig
    | _ => .error "malformed"
  appendTransparentSignature pczt n sig :=
    .ok { pczt with inputs := pczt.inputs.modify n fun x ↦ (x.1, some sig) }
  finish pczt := pczt
  finalizeSpends pczt := .ok pczt
  extract _ pczt := .ok pczt
  write pczt := .ok (pczt.inputs.filterMap Prod.snd)
  txid _ := fill 32 0

/-- A signer whose secret keys are the paths that lead to them. -/
def recordSigner : TestSigner recordFinalizer where
  Ask := UInt8
  Entropy := Unit
  Xpriv := Unit
  SecretKey := List Nat
  signAction pool _ pczt n ask :=
    .ok (pczt.modifyAction n (fun a ↦ { a with spendAuthSig := some (fill 64 ask) }) pool)
  newMaster _ _ := .ok ()
  derivePriv _ path := .ok path
  transparentSighash _ index := .ok (fill 32 (UInt8.ofNat index))
  signEcdsa sighash sk := sighash.1.headD 0 + UInt8.ofNat sk.sum
  serializeDer sig := [0x30, 1, sig]

/-- The signatures of the inputs of a record. -/
def recordSignatures : InputSignatures recordFinalizer := fun pczt ↦
  PcztRecord.inputs pczt |>.map Prod.snd

theorem map_spendAuthSig_modify (actions : List PcztAction) (n : Nat) (sig : Arr 64) :
    (actions.modify n fun a ↦ { a with spendAuthSig := some sig }).map
      PcztAction.spendAuthSig = (actions.map PcztAction.spendAuthSig).set n (some sig) := by
  rw [List.set_eq_modify]
  exact map_modify (fun _ ↦ by rfl) _ _

/-- The view of the record, with the bytes of the PCZT below. -/
def signingView : PcztView recordTypes :=
  { recordView with
    parse bytes := if bytes = [3] then .ok
        { inputs := [((sampleStamped .orchard).inputs.headD (recordInput ⟨fill 32 3, 0, 0⟩, none))]
          outputs := []
          orchard := [⟨some (fill 64 1), none⟩, ⟨none, none⟩, ⟨some (fill 64 2), none⟩,
            ⟨none, none⟩]
          ironwood := [⟨none, none⟩, ⟨some (fill 64 3), none⟩] }
      else .error "unknown" }

theorem signerUpstream_record : SignerUpstream signingView recordFinalizer recordSignatures where
  length _ := (List.length_map _).trans (List.length_map _).symm
  setHash160Preimages h := by
    cases h
    exact .refl _
  newSigner h := by
    cases h
    exact .refl _
  applySignature {pool pczt _ n sig} h := by
    cases h
    cases pool with
    | orchard =>
        refine ⟨map_spendAuthSig_modify _ n sig, fun other hother ↦ ?_, rfl⟩
        cases other
        · exact absurd rfl hother
        · rfl
    | ironwood =>
        refine ⟨map_spendAuthSig_modify _ n sig, fun other hother ↦ ?_, rfl⟩
        cases other
        · rfl
        · exact absurd rfl hother
  appendTransparentSignature {pczt _ n sig} h := by
    cases h
    refine ⟨?_, fun pool ↦ by cases pool <;> rfl⟩
    rw [List.set_eq_modify]
    exact map_modify (fun _ ↦ by rfl) _ _

theorem testSignerUpstream_record : TestSignerUpstream signingView recordSigner where
  signAction {pool _ pczt _ n ask} h := by
    cases h
    refine ⟨fill 64 ask, ?_⟩
    cases pool <;> exact map_spendAuthSig_modify _ n _
  fromDer _ := rfl
  serializeDer sig := ⟨[sig], (by decide : 1 < 128), rfl⟩

/-- What the test signer returns for that PCZT. -/
def sampleSignatures : FinalizeInputs where
  pcztBytes := [3]
  orchardSignatures := [fill 64 8, fill 64 8]
  ironwoodSignatures := [fill 64 9]
  transparentSignatures := [[0x30, 1, 50]]

theorem signatures_land_sample : ∃ out pczt signed,
    finalizeTransaction recording signingView recordFinalizer sampleSignatures = .ok out ∧
      signPczt signingView recordFinalizer sampleSignatures pczt = .ok signed ∧
      Lands signingView recordSignatures sampleSignatures pczt signed ∧
      LandsOwn signingView recordSignatures recordSigner sampleSignatures pczt signed := by
  obtain ⟨out, hout⟩ := exists_ok_of_isOk (show (finalizeTransaction recording signingView
    recordFinalizer sampleSignatures).isOk = true by decide +kernel)
  obtain ⟨pczt, signed, -, hsigned, -, hlands, hown⟩ := (signatures_land recording
    signerUpstream_record testSignerUpstream_record sampleSignatures).1 out hout
  exact ⟨out, pczt, signed, hout, hsigned, hlands, hown⟩

end Sample

end LedgerZcash
