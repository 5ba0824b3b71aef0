import LedgerZcash.Crypto.Balance
import LedgerZcash.Crypto.Pczt

/-!
# Expiry and consensus branches

A transaction commits to the consensus branch in force at its target height, and the
branch changes where an upgrade activates.  The expiry that is read back from the bytes of
a built transaction stays below the next activation (`expiry_within_branch`): the walk over
the upgrades finds the lowest height that is scheduled above the target
(`nextActivationHeight_eq_some`), the PCZT is created with the capped expiry, and no later
role changes it (`BuildStages.read_back`).  A build that would leave too few blocks ends with
the error that says so, and with that error in no other case: every other error of a
builder is a `craft` error.
-/

namespace LedgerZcash

open Hex Collect

/-! ## The schedule of a network -/

/-- The upgrades, in order of activation. -/
def NetworkUpgrade.inOrder : List NetworkUpgrade :=
  [.overwinter, .sapling, .blossom, .heartwood, .canopy, .nu5, .nu6, .nu6_1, .nu6_2, .nu6_3, .nu7]

theorem NetworkUpgrade.mem_inOrder (nu : NetworkUpgrade) : nu ∈ inOrder := by
  cases nu <;> decide

/-- Some upgrade activates at the height. -/
def Schedule.Activates (heights : Schedule) (a : Nat) : Prop := ∃ nu, heights nu = some a

/-- The lowest height above the target at which an upgrade activates. -/
structure Schedule.IsNext (heights : Schedule) (target a : Nat) : Prop where
  activates : Schedule.Activates heights a
  above : target < a
  lowest : ∀ b, Schedule.Activates heights b → target < b → a ≤ b

/-- Every height is a `u32`. -/
def Schedule.FitsU32 (heights : Schedule) : Prop := ∀ nu h, heights nu = some h → h < u32Size

section Walk

variable {heights : Schedule} {target a : Nat}

/-- The walk keeps the least of the heights above the target. -/
theorem foldl_lowerActivation (hs : List (Option Nat)) (next : Option Nat) :
    hs.foldl (lowerActivation target) next =
      (next.toList ++ (hs.filterMap id).filter (target < ·)).min? := by
  induction hs generalizing next with
  | nil => cases next <;> simp
  | cons h hs ih =>
      rw [List.foldl_cons, ih]
      cases h with
      | none => rfl
      | some h =>
          by_cases ht : target < h
          · cases next with
            | none => simp [lowerActivation, ht]
            | some n =>
                have hrest : ∀ m : Nat, ∀ rest : List Nat, (n :: m :: rest).min? =
                    (min n m :: rest).min? := fun _ _ ↦ rfl
                by_cases hn : h < n
                · have hmin : min n h = h := Nat.min_eq_right hn.le
                  simp only [lowerActivation, ht, hn, Option.all_some, decide_true, and_self,
                    if_true, List.filterMap_cons, List.filter_cons_of_pos, Option.toList_some,
                    List.singleton_append, id, hrest, hmin]
                · have hmin : min n h = n := Nat.min_eq_left (Nat.not_lt.mp hn)
                  simp only [lowerActivation, ht, hn, Option.all_some, decide_true, decide_false,
                    Bool.false_eq_true, and_false, if_false, List.filterMap_cons,
                    List.filter_cons_of_pos, Option.toList_some, List.singleton_append, id, hrest,
                    hmin]
          · simp [lowerActivation, ht]

theorem nextActivationHeight_eq_min? : nextActivationHeight heights target =
    ((NetworkUpgrade.inOrder.filterMap heights).filter (target < ·)).min? := by
  have hwalk : nextActivationHeight heights target =
      (NetworkUpgrade.inOrder.map heights).foldl (lowerActivation target) none := rfl
  rw [hwalk, foldl_lowerActivation, List.filterMap_map]
  rfl

theorem mem_filterMap_inOrder : a ∈ NetworkUpgrade.inOrder.filterMap heights ↔
    Schedule.Activates heights a := by
  rw [List.mem_filterMap]
  exact exists_congr fun nu ↦ and_iff_right nu.mem_inOrder

/-- The walk finds the lowest height that is scheduled strictly above the target. -/
theorem nextActivationHeight_eq_some :
    nextActivationHeight heights target = some a ↔ Schedule.IsNext heights target a := by
  rw [nextActivationHeight_eq_min?, List.min?_eq_some_iff]
  simp only [List.mem_filter, mem_filterMap_inOrder, decide_eq_true_eq, and_imp]
  exact ⟨fun ⟨⟨h1, h2⟩, h3⟩ ↦ ⟨h1, h2, h3⟩, fun h ↦ ⟨⟨h.activates, h.above⟩, h.lowest⟩⟩

theorem nextActivationHeight_eq_none :
    nextActivationHeight heights target = none ↔
      ∀ b, Schedule.Activates heights b → b ≤ target := by
  rw [nextActivationHeight_eq_min?, List.min?_eq_none_iff, List.filter_eq_nil_iff]
  simp only [mem_filterMap_inOrder, decide_eq_true_eq, not_lt]

end Walk

/-! ## The cap -/

section Cap

variable {heights : Schedule} {target expiry capped : Nat}

/-- A capped expiry is not raised, and no upgrade activates after the target and up to
it. -/
theorem capExpiry_eq_ok (h : capExpiryBelowNextActivation heights target expiry = .ok capped) :
    capped ≤ expiry ∧ (expiry ≠ 0 → ∀ b, Schedule.Activates heights b → target < b →
      capped < b ∧ min (target + minValidityBlocks) (u32Size - 1) ≤ capped) := by
  unfold capExpiryBelowNextActivation at h
  split at h
  · rename_i hzero
    cases h
    exact ⟨le_rfl, fun hne ↦ absurd hzero hne⟩
  · split at h
    · rename_i hnone
      cases h
      exact ⟨le_rfl, fun _ b hb hlt ↦
        absurd (nextActivationHeight_eq_none.mp hnone b hb) (Nat.not_le.mpr hlt)⟩
    · rename_i a hnext
      dsimp only at h
      split at h
      · cases h
      · rename_i hfloor
        cases h
        have hna := nextActivationHeight_eq_some.mp hnext
        refine ⟨Nat.min_le_left _ _, fun _ b hb hlt ↦ ⟨?_, Nat.not_lt.mp hfloor⟩⟩
        have hab := hna.lowest b hb hlt
        have ha := hna.above
        omega

theorem capExpiry_eq_error {e : Error} :
    capExpiryBelowNextActivation heights target expiry = .error e ↔
      expiry ≠ 0 ∧ ∃ a, Schedule.IsNext heights target a ∧
        min expiry (a - 1) < min (target + minValidityBlocks) (u32Size - 1) ∧
        e = .expiryTooCloseToActivation target a (min expiry (a - 1)) := by
  unfold capExpiryBelowNextActivation
  split
  · rename_i hzero
    simp [hzero]
  · rename_i hne
    simp only [← nextActivationHeight_eq_some]
    split
    · rename_i hnone
      simp [hnone]
    · rename_i a hnext
      split
      · rename_i hlt
        constructor
        · intro h
          cases h
          exact ⟨hne, a, hnext, hlt, rfl⟩
        · rintro ⟨-, b, hb, -, rfl⟩
          cases hnext.symm.trans hb
          rfl
      · rename_i hge
        constructor
        · intro h
          cases h
        · rintro ⟨-, b, hb, hlt, -⟩
          cases hnext.symm.trans hb
          exact absurd hlt hge

/-- Below a `u32` activation height the floor is never cut off. -/
theorem floor_le_iff {a : Nat} (ha : a < u32Size) (hc : capped < a) :
    min (target + minValidityBlocks) (u32Size - 1) ≤ capped ↔
      target + minValidityBlocks ≤ capped := by
  omega

end Cap

/-! ## Branches -/

/-- The last upgrade, in order of activation, that is active at a height. -/
def branchAt (heights : Schedule) (height : Nat) : Option NetworkUpgrade :=
  NetworkUpgrade.inOrder.reverse.find? fun nu ↦ (heights nu).any (· ≤ height)

/-- The branch only changes where an upgrade activates. -/
theorem branchAt_eq {heights : Schedule} {h h' : Nat} (hle : h ≤ h')
    (hnone : ∀ b, Schedule.Activates heights b → h < b → h' < b) :
    branchAt heights h' = branchAt heights h := by
  have hactive : ∀ nu, (heights nu).any (· ≤ h') = (heights nu).any (· ≤ h) := by
    intro nu
    cases hnu : heights nu with
    | none => rfl
    | some b =>
        have hb := hnone b ⟨nu, hnu⟩
        simp only [Option.any_some, decide_eq_decide]
        omega
  simp only [branchAt, hactive]

/-! ## Errors of the builders

Everything before the cap, and everything after it, fails with a `craft` error only. -/

/-- The error is one of the crafting code's own texts. -/
def Error.IsCraft : Error → Prop
  | .craft _ => True
  | _ => False

/-- Every error of the computation is a `craft` error. -/
abbrev CraftErrors {α : Type} (x : Except Error α) : Prop := FailsOnly Error.IsCraft x

section Errors

theorem craftErrors_okOr {α : Type} {x : Option α} {msg : String} :
    CraftErrors (okOr x (.craft msg)) := by
  cases x with
  | none => exact .error trivial
  | some a => exact .ok a

theorem craftErrors_refuseIf {c : Prop} [Decidable c] {msg : String} :
    CraftErrors (refuseIf c (Error.craft msg)) := .ite (.error trivial) (.ok ())

variable {Path : Type} {T : CraftTypes Path} {P : CraftUpstream T} {pool : Pool}

theorem craftErrors_zatoshis (what : String) (value : Nat) : CraftErrors (zatoshis P what value) :=
  .ite (.ok value) (.error trivial)

theorem craftErrors_encodeMemo (memo : Option (List UInt8)) : CraftErrors (encodeMemo P memo) := by
  unfold encodeMemo
  split
  · exact .ok _
  · split
    · exact .ok _
    · exact .error trivial

theorem craftErrors_pushInput (b : Builder T) (input : BuilderInput T) (method : String) :
    CraftErrors (pushInput P b input method) :=
  .bind (.mapError fun _ ↦ trivial) fun _ ↦ .pure _

theorem craftErrors_pushOutput (b : Builder T) (output : BuilderOutput T) (method : String) :
    CraftErrors (pushOutput P b output method) :=
  .bind (.mapError fun _ ↦ trivial) fun _ ↦ .pure _

theorem craftErrors_addShieldedSpend (b : Builder T) (fvk : T.Fvk) (spend : SpendInput Path) :
    CraftErrors (addShieldedSpend P pool b fvk spend) := by
  refine .bind (.bind craftErrors_okOr fun _ ↦ ?_) fun _ ↦ craftErrors_pushInput _ _ _
  exact .bind craftErrors_refuseIf fun _ ↦ .bind craftErrors_refuseIf fun _ ↦
    .bind craftErrors_refuseIf fun _ ↦ .pure _

theorem craftErrors_addTransparentInput (b : Builder T) (tin : TransparentInput) :
    CraftErrors (addTransparentInput P b tin) :=
  .bind (.mapError fun _ ↦ trivial) fun _ ↦ .bind (craftErrors_zatoshis _ _) fun _ ↦
    .bind craftErrors_refuseIf fun _ ↦ .bind (.mapError fun _ ↦ trivial) fun _ ↦
      craftErrors_pushInput _ _ _

theorem craftErrors_addPoolOutput (b : Builder T) (ovk : Option T.Ovk) (out : OutputRequest T) :
    CraftErrors (addPoolOutput P pool b ovk out) := by
  refine .bind (craftErrors_zatoshis _ _) fun _ ↦ ?_
  split
  · exact .bind (craftErrors_encodeMemo _) fun _ ↦ craftErrors_pushOutput _ _ _
  · exact craftErrors_pushOutput _ _ _

theorem craftErrors_addChecked (a b : Nat) (msg : String) : CraftErrors (addChecked a b msg) :=
  craftErrors_okOr

variable (i : BuildInputs T) (l : Layout T)

theorem craftErrors_addItems (b : Builder T) : CraftErrors (addItems P pool i b) := by
  refine .bind ?_ fun _ ↦ .bind (.foldlM (fun _ _ ↦ ?_) _ _) fun _ ↦ .foldlM (fun _ _ ↦ ?_) _ _
  · refine .ite (.pure _) (.bind craftErrors_okOr fun _ ↦ .foldlM (fun _ _ ↦ ?_) _ _)
    exact .bind (craftErrors_addShieldedSpend _ _ _) fun _ ↦
      .bind (craftErrors_addChecked _ _ _) fun _ ↦ .pure _
  · exact .bind (craftErrors_addTransparentInput _ _) fun _ ↦
      .bind (craftErrors_addChecked _ _ _) fun _ ↦ .pure _
  · exact .bind (craftErrors_addPoolOutput _ _ _) fun _ ↦
      .bind (craftErrors_addChecked _ _ _) fun _ ↦ .pure _

theorem craftErrors_addChange (change : Nat) : CraftErrors (addChange P pool i l change) := by
  refine .ite (.ite (.bind (.bind craftErrors_okOr fun addr ↦ ?_) fun _ ↦ .pure _)
    (.bind ?_ fun _ ↦ .pure _)) (.pure _)
  · cases pool with
    | orchard =>
        exact .bind craftErrors_okOr fun _ ↦ .bind (craftErrors_zatoshis _ _) fun _ ↦
          craftErrors_pushOutput _ _ _
    | ironwood => exact craftErrors_addPoolOutput _ _ _
  · exact .bind craftErrors_okOr fun _ ↦ .bind craftErrors_okOr fun _ ↦
      .bind craftErrors_okOr fun _ ↦ .bind (craftErrors_addPoolOutput _ _ _) fun _ ↦ .pure _

theorem craftErrors_validateFee (change : Nat) : CraftErrors (validateFee P pool i l change) :=
  .bind (.mapError fun _ ↦ trivial) fun _ ↦
    .bind (.bind (craftErrors_zatoshis _ _) fun _ ↦ .bind craftErrors_refuseIf fun _ ↦ .pure _)
      fun _ ↦ .bind (.mapError fun _ ↦ trivial) fun _ ↦ .bind craftErrors_refuseIf fun _ ↦ .pure _

theorem craftErrors_arrange (b : Builder T) : CraftErrors (arrange P pool i b) := by
  refine .bind (craftErrors_addItems i b) fun l ↦ .bind ?_ fun change ↦
    .bind (craftErrors_addChange i l change) fun _ ↦ .pure _
  exact .bind (craftErrors_addChecked _ _ _) fun _ ↦ .bind craftErrors_refuseIf fun _ ↦ .pure _

theorem craftErrors_layOut (b : Builder T) : CraftErrors (layOut P pool i b) :=
  .bind (craftErrors_arrange i b) fun _ ↦ .bind (craftErrors_validateFee i _ _) fun _ ↦ .pure _

theorem craftErrors_checkNonempty : CraftErrors (checkNonempty pool i) :=
  .bind craftErrors_refuseIf fun _ ↦ craftErrors_refuseIf

theorem craftErrors_decodeAnchor (anchor : Bytes32) : CraftErrors (decodeAnchor P pool anchor) :=
  .bind craftErrors_refuseIf fun _ ↦ craftErrors_okOr

theorem craftErrors_planTransaction : CraftErrors (planTransaction P i) :=
  .bind craftErrors_refuseIf fun _ ↦ .bind (craftErrors_checkNonempty i) fun _ ↦
    .bind (.ite (craftErrors_decodeAnchor _) (.pure _)) fun _ ↦
      .bind (.mapError fun _ ↦ trivial) fun _ ↦ craftErrors_layOut i _

theorem craftErrors_planIronwoodTransaction : CraftErrors (planIronwoodTransaction P i) :=
  .bind craftErrors_refuseIf fun _ ↦ .bind (craftErrors_checkNonempty i) fun _ ↦
    .bind craftErrors_refuseIf fun _ ↦ .bind (craftErrors_decodeAnchor _) fun _ ↦
      craftErrors_layOut i _

end Errors

/-! ## The expiry of a built transaction -/

section Build

variable {Path : Type} {T : CraftTypes Path} (P : CraftUpstream T)

/-- What `v` reads of a PCZT is the same after every role behind the creator, and of the
PCZT that the bytes parse to. -/
structure RolesKeep {β : Type} (P : CraftUpstream T) (V : PcztView T) (v : T.Pczt → β) :
    Prop where
  setSpendDerivation {pool : Pool} {p p' : T.Pczt} {n : Nat} {d : Derivation} :
    P.setSpendDerivation pool p n d = .ok p' → v p' = v p
  setInputDerivation {p p' : T.Pczt} {n : Nat} {pubkey : Arr 33} {d : Derivation} :
    P.setInputDerivation p n pubkey d = .ok p' → v p' = v p
  setOutputDerivation {p p' : T.Pczt} {n : Nat} {pubkey : Arr 33} {d : Derivation} :
    P.setOutputDerivation p n pubkey d = .ok p' → v p' = v p
  finalizeIo {p p' : T.Pczt} : P.finalizeIo p = .ok p' → v p' = v p
  createProof {pool : Pool} {key : OrchardCircuitVersion} {p p' : T.Pczt} :
    P.createProof pool key p = .ok p' → v p' = v p
  redactActions (pool : Pool) (fields : List Redaction) (p : T.Pczt) :
    v (P.redactActions pool fields p) = v p
  serializeV1 {p : T.Pczt} {bytes : List UInt8} : P.serializeV1 p = .ok bytes →
    ∃ p', V.parse bytes = .ok p' ∧ v p' = v p
  serializeV2 {p : T.Pczt} {bytes : List UInt8} : P.serializeV2 p = .ok bytes →
    ∃ p', V.parse bytes = .ok p' ∧ v p' = v p

/-- What the expiry rests on upstream: how far ahead a transaction expires by default, how
the branch of a height is found, and that a PCZT keeps the expiry it is created with. -/
structure ExpiryUpstream (V : PcztView T) where
  /-- `default_tx_expiry_delta`. -/
  delta : Option NetworkUpgrade → Nat
  delta_pos : ∀ branch, 0 < delta branch
  /-- The expiry of a builder's parts; adding to a height saturates. -/
  expiryHeight : ∀ b rule parts, P.buildForPczt b rule = .ok parts → P.expiryHeight parts =
    min (b.targetHeight + delta (P.branchForHeight b.network b.targetHeight)) (u32Size - 1)
  /-- `BranchId::for_height` walks the upgrades backwards. -/
  branchForHeight : ∀ network height,
    P.branchForHeight network height = branchAt (network.activationHeight P.named) height
  /-- `global().expiry_height()`. -/
  expiryOf : T.Pczt → Nat
  created : ∀ parts height pczt,
    P.createPczt (P.setExpiryHeight parts height) = some pczt → expiryOf pczt = height
  kept : RolesKeep P V expiryOf

/-- The activation heights of the network a transaction is built for. -/
def BuildInputs.heights (i : BuildInputs T) : Schedule := i.network.activationHeight P.named

/-- The expiry stays in the branch of the target: it is not raised above the builder's
default, it does not reach the next activation, and it leaves the fewest blocks that a
transaction must keep. -/
structure BuildInputs.ExpiresAt (i : BuildInputs T) (default expiry : Nat) : Prop where
  le_default : expiry ≤ default
  sameBranch : ∀ h, i.targetHeight ≤ h → h ≤ expiry →
    P.branchForHeight i.network h = P.branchForHeight i.network i.targetHeight
  below : ∀ a, Schedule.IsNext (i.heights P) i.targetHeight a →
    expiry ≤ a - 1 ∧ i.targetHeight + minValidityBlocks ≤ expiry

/-- The steps of `finish` after the cap. -/
def finishCapped (pool : Pool) (i : BuildInputs T) (hasBundle : Bool) (plan : Plan T)
    (parts : T.PcztParts) (expiry : Nat) : Except Error BuildOutput := do
  let pczt ← okOr (P.createPczt (P.setExpiryHeight parts expiry))
    (.craft "PCZT Creator rejected the PcztParts (unsupported tx version)")
  let pczt ← stampBundle P pool i hasBundle pczt
  let pczt ← (P.finalizeIo pczt).mapError fun e ↦ Error.craft ("PCZT IoFinalizer: " ++ e)
  let pczt ← prove P pool i.network i.targetHeight pczt
  let pczt ← stampTransparent P i plan.changeStamp pczt
  let pcztBytes ← encodePczt P pool pczt
  let nActions := ((P.partsActions pool parts).map asU32).getD 0
  pure
    { pcztBytes, fee := i.fee, anchorHeight := i.anchorHeight
      nActionsOrchard := if pool = .orchard then nActions else 0
      nTransparentInputs := asU32 i.transparentInputs.length
      nTransparentOutputs := plan.nTransparentOutputs
      nActionsIronwood := if pool = .ironwood then nActions else 0 }

theorem finish_eq (pool : Pool) (i : BuildInputs T) (hasBundle : Bool) (plan : Plan T) :
    finish P pool i hasBundle plan = (do
      let parts ← (P.buildForPczt plan.builder plan.feeRule).mapError fun e ↦
        Error.craft ("build_for_pczt: " ++ e)
      let expiry ← capExpiryBelowNextActivation (i.heights P) i.targetHeight
        (P.expiryHeight parts)
      finishCapped P pool i hasBundle plan parts expiry) := rfl

variable {P} {V : PcztView T} {pool : Pool} {i : BuildInputs T} {hasBundle : Bool}
  {plan : Plan T} {parts : T.PcztParts} {expiry : Nat}

theorem craftErrors_stampActions (pczt : T.Pczt) (network : AnyZcashNetwork)
    (seedFingerprint : Bytes32) (accountIndex : Nat) :
    CraftErrors (stampActions P pool pczt network seedFingerprint accountIndex) :=
  .bind (.ite (.error trivial) (.pure _)) fun _ ↦ .mapError fun _ ↦ trivial

theorem craftErrors_transparentDerivation (network : AnyZcashNetwork) (seedFingerprint : Bytes32)
    (accountIndex scope addressIndex : Nat) (what : String) :
    CraftErrors (transparentDerivation P network seedFingerprint accountIndex scope addressIndex
      what) :=
  .bind (.ite (.error trivial) (.ite (.error trivial) (.ite (.error trivial) (.pure _)))) fun _ ↦
    .bind (.mapError fun _ ↦ trivial) fun _ ↦ .pure _

theorem craftErrors_stampTransparent (change : Option ChangeStamp) (pczt : T.Pczt) :
    CraftErrors (stampTransparent P i change pczt) := by
  refine .ite (.bind (.mapM (fun _ ↦ ?_) _) fun _ ↦ .bind ?_ fun _ ↦ .mapError fun _ ↦ trivial)
    (.pure _)
  · exact .bind (craftErrors_transparentDerivation _ _ _ _ _ _) fun _ ↦ .pure _
  · cases change with
    | none => exact .pure _
    | some stamp =>
        exact .bind (craftErrors_transparentDerivation _ _ _ _ _ _) fun _ ↦ .pure _

theorem craftErrors_stampBundle (pczt : T.Pczt) :
    CraftErrors (stampBundle P pool i hasBundle pczt) := by
  refine .ite ?_ (.pure _)
  cases pool <;> exact craftErrors_stampActions _ _ _ _

theorem craftErrors_finishCapped :
    CraftErrors (finishCapped P pool i hasBundle plan parts expiry) := by
  refine .bind craftErrors_okOr fun _ ↦ .bind (craftErrors_stampBundle _) fun _ ↦
    .bind (.mapError fun _ ↦ trivial) fun _ ↦ .bind (.ite (.mapError fun _ ↦ trivial) (.pure _))
      fun _ ↦ .bind (craftErrors_stampTransparent _ _) fun _ ↦ .bind ?_ fun _ ↦ .pure _
  cases pool <;> exact .mapError fun _ ↦ trivial

namespace RolesKeep

variable {β : Type} {v : T.Pczt → β} {p p' : T.Pczt}

theorem stampActions (K : RolesKeep P V v) {network : AnyZcashNetwork}
    {seedFingerprint : Bytes32} {accountIndex : Nat}
    (h : stampActions P pool p network seedFingerprint accountIndex = .ok p') : v p' = v p := by
  unfold LedgerZcash.stampActions at h
  obtain ⟨path, -, h⟩ := bind_eq_ok.mp h
  obtain ⟨_, -, h⟩ := bind_eq_ok.mp (mapError_eq_ok.mp h)
  refine foldlM_induction (P := fun _ t ↦ v t = v p) h rfl fun _ n t t' ht hn ↦ ?_
  split at hn
  · exact (K.setSpendDerivation hn).trans ht
  · cases hn

theorem stampBundle (K : RolesKeep P V v) (h : stampBundle P pool i hasBundle p = .ok p') :
    v p' = v p := by
  unfold LedgerZcash.stampBundle at h
  split at h
  · cases pool <;> exact K.stampActions h
  · cases pure_eq_ok.mp h
    rfl

theorem prove (K : RolesKeep P V v) {network : AnyZcashNetwork} {target : Nat}
    (h : prove P pool network target p = .ok p') : v p' = v p := by
  unfold LedgerZcash.prove at h
  split at h
  · exact K.createProof (mapError_eq_ok.mp h)
  · cases pure_eq_ok.mp h
    rfl

theorem stampTransparent (K : RolesKeep P V v) {change : Option ChangeStamp}
    (h : stampTransparent P i change p = .ok p') : v p' = v p := by
  unfold LedgerZcash.stampTransparent at h
  split at h
  · unfold stampTransparentDerivations at h
    obtain ⟨inputs, -, h⟩ := bind_eq_ok.mp h
    obtain ⟨change', -, h⟩ := bind_eq_ok.mp h
    obtain ⟨q, hq, h⟩ := bind_eq_ok.mp (mapError_eq_ok.mp h)
    have hinputs : v q = v p := by
      refine foldlM_induction (P := fun _ t ↦ v t = v p) hq rfl ?_
      exact fun _ x t t' ht hx ↦ (K.setInputDerivation hx).trans ht
    cases change' with
    | none =>
        cases pure_eq_ok.mp h
        exact hinputs
    | some stamp => exact (K.setOutputDerivation h).trans hinputs
  · cases pure_eq_ok.mp h
    rfl

theorem encodePczt (K : RolesKeep P V v) {bytes : List UInt8}
    (h : encodePczt P pool p = .ok bytes) : ∃ p', V.parse bytes = .ok p' ∧ v p' = v p := by
  cases pool with
  | orchard => exact K.serializeV1 (mapError_eq_ok.mp h)
  | ironwood =>
      obtain ⟨p', hparse, hkept⟩ := K.serializeV2 (mapError_eq_ok.mp h)
      exact ⟨p', hparse, hkept.trans ((K.redactActions _ _ _).trans (K.redactActions _ _ _))⟩

end RolesKeep

/-- What the roles keep of a PCZT is in the bytes of a build as the creator set it. -/
theorem BuildStages.read_back {β : Type} {v : T.Pczt → β} (K : RolesKeep P V v)
    {out : BuildOutput} (s : BuildStages P pool i hasBundle plan out) :
    ∃ pczt, V.parse out.pcztBytes = .ok pczt ∧ v pczt = v s.created := by
  obtain ⟨pczt, hparse, hkept⟩ := K.encodePczt s.pcztBytes_eq
  refine ⟨pczt, hparse, ?_⟩
  calc v pczt
    _ = v s.signable := hkept
    _ = v s.proved := K.stampTransparent s.signable_eq
    _ = v s.finalized := K.prove s.proved_eq
    _ = v s.stamped := K.finalizeIo s.finalized_eq
    _ = v s.created := K.stampBundle s.stamped_eq

/-- A successful build ends in a PCZT with the capped expiry. -/
theorem expiryOf_eq_cap (D : ExpiryUpstream P V) {out : BuildOutput}
    (h : finish P pool i hasBundle plan = .ok out) :
    ∃ parts pczt, P.buildForPczt plan.builder plan.feeRule = .ok parts ∧
      V.parse out.pcztBytes = .ok pczt ∧
      capExpiryBelowNextActivation (i.heights P) i.targetHeight (P.expiryHeight parts) =
        .ok (D.expiryOf pczt) := by
  obtain ⟨s⟩ := finish_eq_ok h
  obtain ⟨pczt, hparse, hkept⟩ := s.read_back D.kept
  refine ⟨s.parts, pczt, s.parts_eq, hparse, ?_⟩
  rw [hkept, D.created _ _ _ s.created_eq]
  exact s.expiry_eq

/-- Only the cap ends a build with an error that is not a `craft` error. -/
theorem finish_eq_error {e : Error} (he : ¬ e.IsCraft) :
    finish P pool i hasBundle plan = .error e ↔
      ∃ parts, P.buildForPczt plan.builder plan.feeRule = .ok parts ∧
        capExpiryBelowNextActivation (i.heights P) i.targetHeight (P.expiryHeight parts) =
          .error e := by
  rw [finish_eq]
  cases hparts : P.buildForPczt plan.builder plan.feeRule with
  | error text =>
      constructor
      · intro h
        cases h
        exact absurd trivial he
      · rintro ⟨_, h, -⟩
        cases h
  | ok parts =>
      simp only [Except.ok.injEq, exists_eq_left']
      cases hcap : capExpiryBelowNextActivation (i.heights P) i.targetHeight
          (P.expiryHeight parts) with
      | error e' => simp [Except.mapError, bind, Except.bind, hcap]
      | ok expiry =>
          simp only [reduceCtorEq, iff_false]
          intro h
          have hcraft : CraftErrors (finishCapped P pool i hasBundle plan parts expiry) :=
            craftErrors_finishCapped
          refine he (hcraft e ?_)
          simpa [Except.mapError, bind, Except.bind, hcap] using h

/-- A builder's default is never the height that stands for no expiry. -/
theorem ExpiryUpstream.expiryHeight_ne_zero (D : ExpiryUpstream P V) {b : Builder T}
    {rule : FeeRule} (h : P.buildForPczt b rule = .ok parts) : P.expiryHeight parts ≠ 0 := by
  have hpos := D.delta_pos (P.branchForHeight b.network b.targetHeight)
  have hsize : 0 < u32Size - 1 := by decide
  rw [D.expiryHeight b rule parts h]
  omega

/-- What the cap leaves of the builder's default. -/
theorem expiresAt_of_cap (D : ExpiryUpstream P V) (hu : Schedule.FitsU32 (i.heights P))
    {b : Builder T} {rule : FeeRule} (hparts : P.buildForPczt b rule = .ok parts)
    (h : capExpiryBelowNextActivation (i.heights P) i.targetHeight (P.expiryHeight parts) =
      .ok expiry) : i.ExpiresAt P (P.expiryHeight parts) expiry := by
  have hne := D.expiryHeight_ne_zero hparts
  obtain ⟨hle, hbelow⟩ := capExpiry_eq_ok h
  refine ⟨hle, fun height hlo hhi ↦ ?_, fun a ha ↦ ?_⟩
  · rw [D.branchForHeight, D.branchForHeight]
    exact branchAt_eq hlo fun b hb hlt ↦ lt_of_le_of_lt hhi (hbelow hne b hb hlt).1
  · obtain ⟨hlt, hfloor⟩ := hbelow hne a ha.activates ha.above
    obtain ⟨nu, hnu⟩ := ha.activates
    exact ⟨by omega, (floor_le_iff (hu nu a hnu) hlt).mp hfloor⟩

/-- When a build ends for want of blocks below the next activation. -/
theorem finish_eq_tooClose (D : ExpiryUpstream P V) (hu : Schedule.FitsU32 (i.heights P))
    {t a c : Nat} : finish P pool i hasBundle plan = .error (.expiryTooCloseToActivation t a c) ↔
      ∃ parts, P.buildForPczt plan.builder plan.feeRule = .ok parts ∧
        Schedule.IsNext (i.heights P) i.targetHeight a ∧ t = i.targetHeight ∧
        c = min (P.expiryHeight parts) (a - 1) ∧ c < i.targetHeight + minValidityBlocks := by
  rw [finish_eq_error (e := .expiryTooCloseToActivation t a c) (fun h ↦ h)]
  refine exists_congr fun parts ↦ and_congr_right fun hparts ↦ ?_
  have hne := D.expiryHeight_ne_zero hparts
  have hfloor : ∀ a', Schedule.IsNext (i.heights P) i.targetHeight a' →
      (min (P.expiryHeight parts) (a' - 1) <
          min (i.targetHeight + minValidityBlocks) (u32Size - 1) ↔
        min (P.expiryHeight parts) (a' - 1) < i.targetHeight + minValidityBlocks) := by
    intro a' ha'
    obtain ⟨nu, hnu⟩ := ha'.activates
    have habove := ha'.above
    rw [← not_le, ← not_le, floor_le_iff (hu nu a' hnu) (by omega)]
  rw [capExpiry_eq_error]
  constructor
  · rintro ⟨-, a', ha', hlt, heq⟩
    cases heq
    exact ⟨ha', rfl, rfl, (hfloor _ ha').mp hlt⟩
  · rintro ⟨ha, rfl, rfl, hlt⟩
    exact ⟨hne, a, ha, (hfloor a ha).mpr hlt, rfl⟩

end Build

/-- A built transaction, as its bytes read back, does not outlive the consensus branch of
its target, on either builder; a build is refused as too close to an activation exactly
when the capped expiry leaves too few blocks; and the activation ahead is the lowest one
scheduled. -/
theorem expiry_within_branch {Path : Type} {T : CraftTypes Path} {P : CraftUpstream T}
    {V : PcztView T} (D : ExpiryUpstream P V) (i : BuildInputs T)
    (hu : Schedule.FitsU32 (i.heights P)) :
    (∀ a, nextActivationHeight (i.heights P) i.targetHeight = some a ↔
      Schedule.IsNext (i.heights P) i.targetHeight a) ∧
    ∀ run plan, (run = buildTransaction P i ∧ plan = planTransaction P i ∨
        run = buildIronwoodTransaction P i ∧ plan = planIronwoodTransaction P i) →
      (∀ out, run = .ok out → ∃ p parts pczt, plan = .ok p ∧
        P.buildForPczt p.builder p.feeRule = .ok parts ∧
        V.parse out.pcztBytes = .ok pczt ∧
        i.ExpiresAt P (P.expiryHeight parts) (D.expiryOf pczt)) ∧
      ∀ t a c, run = .error (.expiryTooCloseToActivation t a c) ↔
        ∃ p parts, plan = .ok p ∧ P.buildForPczt p.builder p.feeRule = .ok parts ∧
          Schedule.IsNext (i.heights P) i.targetHeight a ∧ t = i.targetHeight ∧
          c = min (P.expiryHeight parts) (a - 1) ∧ c < i.targetHeight + minValidityBlocks := by
  refine ⟨fun a ↦ nextActivationHeight_eq_some, ?_⟩
  -- both builders are a plan, whose errors are craft errors, and the same last step
  have hrun : ∀ (plan : Except Error (Plan T)) (pool : Pool) (hasBundle : Bool),
      CraftErrors plan →
      (∀ out, (plan >>= finish P pool i hasBundle) = .ok out → ∃ p parts pczt,
        plan = .ok p ∧ P.buildForPczt p.builder p.feeRule = .ok parts ∧
        V.parse out.pcztBytes = .ok pczt ∧
        i.ExpiresAt P (P.expiryHeight parts) (D.expiryOf pczt)) ∧
      ∀ t a c, (plan >>= finish P pool i hasBundle) =
          .error (.expiryTooCloseToActivation t a c) ↔
        ∃ p parts, plan = .ok p ∧ P.buildForPczt p.builder p.feeRule = .ok parts ∧
          Schedule.IsNext (i.heights P) i.targetHeight a ∧ t = i.targetHeight ∧
          c = min (P.expiryHeight parts) (a - 1) ∧ c < i.targetHeight + minValidityBlocks := by
    intro plan pool hasBundle hcraft
    constructor
    · intro out h
      obtain ⟨p, hp, h⟩ := bind_eq_ok.mp h
      obtain ⟨parts, pczt, hparts, hparse, hcap⟩ := expiryOf_eq_cap D h
      exact ⟨p, parts, pczt, hp, hparts, hparse, expiresAt_of_cap D hu hparts hcap⟩
    · intro t a c
      cases hp : plan with
      | error e =>
          simp only [reduceCtorEq, false_and, exists_false, iff_false]
          intro h
          cases h
          exact hcraft _ hp
      | ok p =>
          simp only [Except.ok.injEq, exists_and_left, exists_eq_left']
          exact finish_eq_tooClose D hu
  rintro run plan (⟨rfl, rfl⟩ | ⟨rfl, rfl⟩)
  · exact hrun _ .orchard i.hasBundle (craftErrors_planTransaction i)
  · exact hrun _ .ironwood true (craftErrors_planIronwoodTransaction i)

/-! A payment twenty blocks ahead of an activation. -/

section Sample

/-- Every upgrade is active from the start but the last, which activates at a height. -/
def lastUpgradeAt (a : Nat) : Schedule
  | .nu7 => some a
  | _ => some 1

/-- The permissive upstream, with the branch of a height and the parts' expiry: a PCZT is
its expiry, written as so many bytes. -/
def branching : CraftUpstream (plainTypes Unit) :=
  { permissive Unit with
    branchForHeight := fun network height ↦
      branchAt (network.activationHeight (permissive Unit).named) height
    buildForPczt := fun b _ ↦ .ok (min (b.targetHeight + 40) (u32Size - 1) : Nat)
    serializeV1 := fun (expiry : Nat) ↦ .ok (List.replicate expiry 0)
    serializeV2 := fun (expiry : Nat) ↦ .ok (List.replicate expiry 0) }

def branchingView : PcztView (plainTypes Unit) where
  parse bytes := .ok (bytes.length : Nat)
  consensusBranchId _ := 0
  inputs _ := []
  outputs _ := []
  actions _ _ := []
  script _ := []

theorem branching_kept : RolesKeep branching branchingView fun (expiry : Nat) ↦ expiry where
  setSpendDerivation := by rintro _ _ _ _ _ ⟨⟩; rfl
  setInputDerivation := by rintro _ _ _ _ _ ⟨⟩; rfl
  setOutputDerivation := by rintro _ _ _ _ _ ⟨⟩; rfl
  finalizeIo := by rintro _ _ ⟨⟩; rfl
  createProof := by rintro _ _ _ _ ⟨⟩; rfl
  redactActions _ _ _ := rfl
  serializeV1 := by rintro _ _ ⟨⟩; exact ⟨_, rfl, List.length_replicate⟩
  serializeV2 := by rintro _ _ ⟨⟩; exact ⟨_, rfl, List.length_replicate⟩

def branchingExpiry : ExpiryUpstream branching branchingView where
  delta _ := 40
  delta_pos _ := by decide
  expiryHeight := by
    rintro b rule parts ⟨⟩
    rfl
  branchForHeight _ _ := rfl
  expiryOf expiry := expiry
  created := by
    rintro parts height pczt ⟨⟩
    rfl
  kept := branching_kept

/-- The sample payment, on a network whose last upgrade activates at height 30. -/
def paymentBefore30 : BuildInputs (plainTypes Unit) :=
  { samplePayment with network := .local (lastUpgradeAt 30) }

theorem paymentBefore30_fits : Schedule.FitsU32 (paymentBefore30.heights branching) := by
  rintro nu h heq
  cases nu <;> cases heq <;> decide

theorem expiry_within_branch_sample :
    ∃ p parts pczt, planTransaction branching paymentBefore30 = .ok p ∧
      branching.buildForPczt p.builder p.feeRule = .ok parts ∧
      branchingView.parse (List.replicate 29 0) = .ok pczt ∧
      paymentBefore30.ExpiresAt branching (branching.expiryHeight parts)
        (branchingExpiry.expiryOf pczt) :=
  ((expiry_within_branch branchingExpiry paymentBefore30 paymentBefore30_fits).2 _ _
    (.inl ⟨rfl, rfl⟩)).1 ⟨List.replicate 29 0, 3000, 1, 2, 1, 1, 0⟩ (by decide +kernel)

end Sample

end LedgerZcash
