import LedgerZcash.Crypto.FeeRule

/-!
# The fee that a request has

The builders do not choose a fee.  The caller's fee decides whether there is change, the
change is one output more, and that output may raise the fee: a fee passes the check when
it is the price of the layout that it brings about itself.  Over all fees at one marginal
fee there is at most one such (`feeCheck_determined`): the price without change when the
inputs leave exactly that, and the price with change when they leave more than that.
-/

namespace LedgerZcash

open Hex Collect

/-! ## The two prices of a request -/

section Prices

variable {Path : Type} {T : CraftTypes Path}

namespace BuildInputs

variable (i : BuildInputs T)

/-- The same lists with another fee. -/
def withFee (fee : Nat) : BuildInputs T := { i with fee := fee }

/-- `total_in - total_out`. -/
def netInput : Int := (i.inputValues.sum : Int) - ((i.outputs.map OutputRequest.value).sum : Int)

/-- The requested payments into the pool. -/
def shieldedRequests : Nat := i.outputs.countP fun out ↦ out.destination.isShielded

/-- The fee of the layout that returns nothing. -/
def noChangeFee (m : Nat) : Nat :=
  layoutFee m i.spends.length i.shieldedRequests i.transparentInputs.length
    i.transparentRequests.length

/-- The fee of the layout with change: shielded when notes are spent, transparent otherwise. -/
def withChangeFee (m : Nat) : Nat :=
  if i.spends.length = 0 then
    layoutFee m i.spends.length i.shieldedRequests i.transparentInputs.length
      (i.transparentRequests.length + 1)
  else
    layoutFee m i.spends.length (i.shieldedRequests + 1) i.transparentInputs.length
      i.transparentRequests.length

end BuildInputs

theorem paddedActions_mono {s o o' : Nat} (h : o ≤ o') :
    paddedActions s o ≤ paddedActions s o' := by
  unfold paddedActions
  split
  · exact Nat.zero_le _
  · rw [if_neg (by omega)]
    exact max_le_max le_rfl (max_le_max le_rfl h)

theorem layoutFee_mono {m s o o' tin tout tout' : Nat} (ho : o ≤ o') (ht : tout ≤ tout') :
    layoutFee m s o tin tout ≤ layoutFee m s o' tin tout' :=
  Nat.mul_le_mul_left m (max_le_max le_rfl
    (Nat.add_le_add (max_le_max le_rfl ht) (paddedActions_mono ho)))

/-- Two marginal fees never give one price: a layout has two actions at least. -/
theorem layoutFee_injective {s o tin tout : Nat} :
    Function.Injective fun m ↦ layoutFee m s o tin tout := by
  intro m m' h
  have hunits : 0 < max graceActions (max tin tout + paddedActions s o) :=
    lt_of_lt_of_le (by decide) (le_max_left graceActions _)
  exact Nat.eq_of_mul_eq_mul_right hunits h

/-- Change never makes a layout cheaper. -/
theorem noChangeFee_le_withChangeFee (i : BuildInputs T) (m : Nat) :
    i.noChangeFee m ≤ i.withChangeFee m := by
  unfold BuildInputs.noChangeFee BuildInputs.withChangeFee
  split
  · exact layoutFee_mono le_rfl (Nat.le_succ _)
  · exact layoutFee_mono (Nat.le_succ _) le_rfl

theorem hasSurplus_withFee (i : BuildInputs T) (fee : Nat) :
    (i.withFee fee).HasSurplus ↔ (fee : Int) < i.netInput := by
  show (i.outputs.map OutputRequest.value).sum + fee < i.inputValues.sum ↔ _
  unfold BuildInputs.netInput
  omega

end Prices

/-! ## Admissible marginal fees -/

/-- The marginal fees of a height: the standard one, and the legacy one when it is higher. -/
def Admissible (network : AnyZcashNetwork) (target m : Nat) : Prop :=
  m = standardMarginalFee network target ∨
    standardMarginalFee network target < legacyMarginalFee ∧ m = legacyMarginalFee

theorem standardMarginalFee_cases (network : AnyZcashNetwork) (target : Nat) :
    standardMarginalFee network target = legacyMarginalFee ∨
      standardMarginalFee network target = zip2009MarginalFee := by
  unfold standardMarginalFee
  split
  · exact .inl rfl
  · exact .inr rfl

theorem standardMarginalFee_le (network : AnyZcashNetwork) (target : Nat) :
    standardMarginalFee network target ≤ legacyMarginalFee := by
  rcases standardMarginalFee_cases network target with h | h
  · exact h.le
  · rw [h]
    decide

theorem Admissible.standard_le {network : AnyZcashNetwork} {target m : Nat}
    (h : Admissible network target m) : standardMarginalFee network target ≤ m := by
  rcases h with rfl | ⟨_, rfl⟩
  · exact le_rfl
  · exact standardMarginalFee_le network target

/-- The check finds the marginal fee that the caller used, when no two give one fee. -/
theorem callerMarginalFee_eq_ok_iff {network : AnyZcashNetwork} {target fee m : Nat}
    {feeFor : Nat → Nat} (hinj : Function.Injective feeFor) :
    callerMarginalFee network target fee feeFor = .ok m ↔
      Admissible network target m ∧ fee = feeFor m := by
  have hle := standardMarginalFee_le network target
  unfold callerMarginalFee Admissible
  constructor
  · intro h
    simp only at h
    split at h
    · rename_i hfee
      cases h
      exact ⟨.inl rfl, hfee⟩
    · split at h
      · rename_i hfee
        cases h
        exact ⟨.inr ⟨lt_of_le_of_ne hle hfee.1, rfl⟩, hfee.2⟩
      · cases h
  · rintro ⟨rfl | ⟨hlt, rfl⟩, rfl⟩
    · exact if_pos rfl
    · dsimp only
      rw [if_neg fun h ↦ hlt.ne' (hinj h), if_pos ⟨hlt.ne, rfl⟩]

/-! ## The layout that a fee brings about -/

section Check

variable {Path : Type} {T : CraftTypes Path} {P : CraftUpstream T} {pool : Pool}
  {i : BuildInputs T} {b : Builder T} {l : Layout T} {change m fee : Nat}
  {stamp : Option ChangeStamp}

variable (P) in
/-- The fee check passes for a fee at a marginal fee, on the layout of that fee. -/
def FeePasses (pool : Pool) (i : BuildInputs T) (b : Builder T) (fee m : Nat) (l : Layout T) :
    Prop :=
  ∃ change stamp, arrange P pool (i.withFee fee) b = .ok (l, change, stamp) ∧
    callerMarginalFee i.network i.targetHeight fee (l.localFee pool i) = .ok m

theorem length_filterMap_address? (outputs : List (OutputRequest T)) :
    (outputs.filterMap fun out ↦ out.destination.address?).length =
      (outputs.filter fun out ↦ !out.destination.isShielded).length := by
  rw [List.length_filterMap_eq_countP, List.countP_eq_length_filter]
  refine congrArg List.length (List.filter_congr fun out _ ↦ ?_)
  cases out.destination <;> rfl

/-- A transparent change address is there when it is used. -/
theorem toList_changeAddress (h : l.Holds pool i change stamp) (hs : i.HasSurplus)
    (hspends : i.spends.length = 0) : i.transparentChangeAddress.toList.length = 1 := by
  obtain ⟨pays, -, hreturns, -⟩ := h.outputs
  have hpos := (hasSurplus_iff h).mp hs
  cases hreturns with
  | exact hzero => exact absurd hzero hpos.ne'
  | shielded _ hne _ => exact absurd (List.length_eq_zero_iff.mp hspends) hne
  | transparent _ _ haddr _ _ _ =>
      rw [haddr]
      rfl

theorem shieldedOutputs_eq (i : BuildInputs T) : i.shieldedOutputs =
    i.shieldedRequests + if i.HasSurplus ∧ i.spends.length ≠ 0 then 1 else 0 := rfl

theorem length_recipients_eq (h : l.Holds pool i change stamp) : i.recipients.length =
    i.transparentRequests.length + if i.HasSurplus ∧ i.spends.length = 0 then 1 else 0 := by
  rw [BuildInputs.recipients, List.length_append, length_filterMap_address?]
  split
  · rename_i hcond
    rw [toList_changeAddress h hcond.1 hcond.2]
    rfl
  · rfl

/-- The fee that the code computes for the layout of a request. -/
theorem localFee_of_holds (hspends : i.spends.length < u32Size)
    (hinputs : i.transparentInputs.length < u32Size)
    (houtputs : i.outputs.length + 1 < u32Size) (h : l.Holds pool i change stamp) :
    l.localFee pool i m = if i.HasSurplus then i.withChangeFee m else i.noChangeFee m := by
  rw [localFee_eq hspends hinputs (priced_of_holds hspends houtputs h),
    length_recipients_eq h, shieldedOutputs_eq]
  by_cases hs : i.HasSurplus
  · rw [if_pos hs, BuildInputs.withChangeFee]
    by_cases hzero : i.spends.length = 0
    · rw [if_pos ⟨hs, hzero⟩, if_neg fun h ↦ h.2 hzero, if_pos hzero]
      rfl
    · rw [if_neg fun h ↦ hzero h.2, if_pos ⟨hs, hzero⟩, if_neg hzero]
      rfl
  · rw [if_neg hs, if_neg fun h ↦ hs h.1, if_neg fun h ↦ hs h.1]
    rfl

/-- A fee that leaves a layout is covered by the inputs. -/
theorem fee_le_netInput (h : l.Holds pool (i.withFee fee) change stamp) :
    (fee : Int) ≤ i.netInput := by
  have hbalance : i.inputValues.sum = ((i.requested pool).map Payment.value).sum + change + fee :=
    h.balance
  rw [map_value_requested] at hbalance
  unfold BuildInputs.netInput
  omega

theorem localFee_injective (l : Layout T) (pool : Pool) (i : BuildInputs T) :
    Function.Injective (l.localFee pool i) := by
  cases pool <;> exact layoutFee_injective

theorem localFee_mono (l : Layout T) (pool : Pool) (i : BuildInputs T) :
    Monotone (l.localFee pool i) := by
  intro n n' h
  cases pool <;> exact Nat.mul_le_mul_right _ h

/-- Whether the fee of a layout passes, from the request alone. -/
theorem callerMarginalFee_arranged (hb : b = { b with
      network := i.network, targetHeight := i.targetHeight, inputs := [], outputs := [] })
    (hspends : i.spends.length < u32Size) (hinputs : i.transparentInputs.length < u32Size)
    (houtputs : i.outputs.length + 1 < u32Size)
    (h : arrange P pool (i.withFee fee) b = .ok (l, change, stamp)) :
    callerMarginalFee i.network i.targetHeight fee (l.localFee pool i) = .ok m ↔
      Admissible i.network i.targetHeight m ∧
        (i.netInput = i.noChangeFee m ∧ fee = i.noChangeFee m ∨
          (i.withChangeFee m : Int) < i.netInput ∧ fee = i.withChangeFee m) := by
  have hholds : l.Holds pool (i.withFee fee) change stamp := arrange_holds hb h
  have hlocal : l.localFee pool i m =
      if (i.withFee fee).HasSurplus then i.withChangeFee m else i.noChangeFee m :=
    localFee_of_holds (i := i.withFee fee) hspends hinputs houtputs hholds
  have hcovered := fee_le_netInput hholds
  rw [callerMarginalFee_eq_ok_iff (localFee_injective l pool i), hlocal]
  refine and_congr_right fun _ ↦ ?_
  by_cases hs : (i.withFee fee).HasSurplus
  · -- the fee leaves change
    have hlt := (hasSurplus_withFee i fee).mp hs
    have hmono := noChangeFee_le_withChangeFee i m
    rw [if_pos hs]
    constructor
    · rintro rfl
      exact .inr ⟨hlt, rfl⟩
    · rintro (⟨hnet, rfl⟩ | ⟨_, rfl⟩)
      · exact absurd hnet hlt.ne'
      · rfl
  · -- the fee is all that the inputs leave
    have hge := mt (hasSurplus_withFee i fee).mpr hs
    rw [if_neg hs]
    constructor
    · rintro rfl
      exact .inl ⟨le_antisymm (not_lt.mp hge) hcovered, rfl⟩
    · rintro (⟨_, rfl⟩ | ⟨hlt, rfl⟩)
      · rfl
      · exact absurd hlt hge

/-! ## What the two builders accept -/

/-- An accepted fee rule is that of the caller's marginal fee, and the upstream builder asks for
the caller's fee under it. -/
theorem validateFee_eq_ok {feeRule : FeeRule} (h : validateFee P pool i l change = .ok feeRule) :
    ∃ m, callerMarginalFee i.network i.targetHeight i.fee (l.localFee pool i) = .ok m ∧
      feeRule = ⟨m⟩ ∧ P.getFee l.builder ⟨m⟩ = .ok i.fee := by
  obtain ⟨m, hm, h⟩ := bind_eq_ok.mp h
  obtain ⟨rule, hrule, h⟩ := bind_eq_ok.mp h
  obtain ⟨builderFee, hbuilder, h⟩ := bind_eq_ok.mp h
  obtain ⟨_, hsame, h⟩ := bind_eq_ok.mp h
  cases pure_eq_ok.mp h
  obtain ⟨z, hz, hrule⟩ := bind_eq_ok.mp hrule
  obtain ⟨_, -, hrule⟩ := bind_eq_ok.mp hrule
  cases pure_eq_ok.mp hrule
  have hzm : z = m := by
    unfold zatoshis at hz
    split at hz
    · exact (Except.ok.inj hz).symm
    · cases hz
  obtain rfl := hzm
  rw [refuseIf_eq_ok, not_not] at hsame
  exact ⟨_, mapError_eq_ok.mp hm, rfl, hsame ▸ mapError_eq_ok.mp hbuilder⟩

/-- The refusal of a fee that no admissible marginal fee gives. -/
def feeRefusal (l : Layout T) (change : Nat) (reason : String) : Error :=
  .craft (reason ++ " — total_in=" ++ l.totalIn.repr ++ ", total_out=" ++ l.totalOut.repr ++
    ", change=" ++ change.repr)

theorem layOut_eq_feeRefusal {reason : String} (h : arrange P pool i b = .ok (l, change, stamp))
    (hm : callerMarginalFee i.network i.targetHeight i.fee (l.localFee pool i) = .error reason) :
    layOut P pool i b = .error (feeRefusal l change reason) := by
  have hlocal : (callerMarginalFee i.network i.targetHeight i.fee fun marginalFee ↦
      feeAt pool marginalFee (asU32 i.spends.length) l.nShieldedOutputs
        (asU32 i.transparentInputs.length) l.nTransparentOutputs) = .error reason := hm
  rw [layOut_of_arrange h, validateFee, hlocal]
  rfl

/-- A builder that lays a request out has passed its fee. -/
theorem feePasses_of_layOut {plan : Plan T} (h : layOut P pool (i.withFee fee) b = .ok plan) :
    ∃ m, FeePasses P pool i b fee m plan.toLayout ∧ plan.feeRule = ⟨m⟩ ∧
      P.getFee plan.builder ⟨m⟩ = .ok fee := by
  obtain ⟨harrange, hfee⟩ := layOut_eq_ok h
  obtain ⟨m, hm, hrule, hbuilder⟩ := validateFee_eq_ok hfee
  exact ⟨m, ⟨_, _, harrange, hm⟩, hrule, hbuilder⟩

/-- The fee of a transaction that was built is the one of its lists. -/
theorem built_fee (hspends : i.spends.length < u32Size)
    (hinputs : i.transparentInputs.length < u32Size) (houtputs : i.outputs.length + 1 < u32Size)
    {out : BuildOutput} (h : buildTransaction P (i.withFee fee) = .ok out ∨
      buildIronwoodTransaction P (i.withFee fee) = .ok out) :
    out.fee = fee ∧ ∃ m, Admissible i.network i.targetHeight m ∧
      (i.netInput = i.noChangeFee m ∧ fee = i.noChangeFee m ∨
        (i.withChangeFee m : Int) < i.netInput ∧ fee = i.withChangeFee m) := by
  have key : out.fee = fee ∧ ∃ pool b plan, b = { b with
        network := i.network, targetHeight := i.targetHeight, inputs := [], outputs := [] } ∧
      layOut P pool (i.withFee fee) b = .ok plan := by
    rcases h with h | h
    · obtain ⟨plan, hplan, hfinish⟩ := bind_eq_ok.mp h
      obtain ⟨stages⟩ := finish_eq_ok hfinish
      obtain ⟨b, hb, hlay⟩ := exists_layOut_of_planTransaction hplan
      exact ⟨stages.fee_eq, _, b, plan, hb, hlay⟩
    · obtain ⟨plan, hplan, hfinish⟩ := bind_eq_ok.mp h
      obtain ⟨stages⟩ := finish_eq_ok hfinish
      obtain ⟨b, hb, hlay⟩ := exists_layOut_of_planIronwoodTransaction hplan
      exact ⟨stages.fee_eq, _, b, plan, hb, hlay⟩
  obtain ⟨hfee, pool, b, plan, hb, hlay⟩ := key
  obtain ⟨m, ⟨change, stamp, harrange, hm⟩, -⟩ := feePasses_of_layOut hlay
  exact ⟨hfee, m, (callerMarginalFee_arranged hb hspends hinputs houtputs harrange).mp hm⟩

/-- The fee check of a builder, over all fees.  It passes at an admissible marginal fee for
the price without change when the inputs leave just that, for the price with change when they
leave more, and for no other: at most one fee, never below the standard one.  What a builder
lays out has passed, and the upstream builder asks for the same fee; a fee that does not pass
is refused with the reason of the check; and what is built has the fee of its lists. -/
theorem feeCheck_determined (hb : b = { b with
      network := i.network, targetHeight := i.targetHeight, inputs := [], outputs := [] })
    (hspends : i.spends.length < u32Size) (hinputs : i.transparentInputs.length < u32Size)
    (houtputs : i.outputs.length + 1 < u32Size) :
    (∀ fee l change stamp, arrange P pool (i.withFee fee) b = .ok (l, change, stamp) →
      ∀ m, callerMarginalFee i.network i.targetHeight fee (l.localFee pool i) = .ok m ↔
        Admissible i.network i.targetHeight m ∧
          (i.netInput = i.noChangeFee m ∧ fee = i.noChangeFee m ∨
            (i.withChangeFee m : Int) < i.netInput ∧ fee = i.withChangeFee m)) ∧
      (∀ fee fee' m l l', FeePasses P pool i b fee m l → FeePasses P pool i b fee' m l' →
        fee = fee') ∧
      (∀ m, (i.noChangeFee m : Int) < i.netInput → i.netInput ≤ i.withChangeFee m →
        ∀ fee l, ¬FeePasses P pool i b fee m l) ∧
      (∀ fee m l, FeePasses P pool i b fee m l →
        l.localFee pool i (standardMarginalFee i.network i.targetHeight) ≤ fee) ∧
      (i.network.networkType = .main → i.targetHeight < zip2009MainnetHeight →
        ∀ fee m l, FeePasses P pool i b fee m l →
          m = legacyMarginalFee ∧ fee ≠ l.localFee pool i zip2009MarginalFee) ∧
      (∀ fee plan, layOut P pool (i.withFee fee) b = .ok plan →
        ∃ m, FeePasses P pool i b fee m plan.toLayout ∧ plan.feeRule = ⟨m⟩ ∧
          P.getFee plan.builder ⟨m⟩ = .ok fee) ∧
      (∀ fee l change stamp, arrange P pool (i.withFee fee) b = .ok (l, change, stamp) →
        ∀ reason, callerMarginalFee i.network i.targetHeight fee (l.localFee pool i) =
            .error reason →
          layOut P pool (i.withFee fee) b = .error (feeRefusal l change reason)) ∧
      ∀ fee out, buildTransaction P (i.withFee fee) = .ok out ∨
          buildIronwoodTransaction P (i.withFee fee) = .ok out →
        out.fee = fee ∧ ∃ m, Admissible i.network i.targetHeight m ∧
          (i.netInput = i.noChangeFee m ∧ fee = i.noChangeFee m ∨
            (i.withChangeFee m : Int) < i.netInput ∧ fee = i.withChangeFee m) := by
  have hiff : ∀ {fee l change stamp}, arrange P pool (i.withFee fee) b = .ok (l, change, stamp) →
      ∀ m, callerMarginalFee i.network i.targetHeight fee (l.localFee pool i) = .ok m ↔ _ :=
    fun h m ↦ callerMarginalFee_arranged hb hspends hinputs houtputs h
  have hmono := noChangeFee_le_withChangeFee i
  refine ⟨fun fee l change stamp h ↦ hiff h, ?_, ?_, ?_, ?_, fun fee plan ↦ feePasses_of_layOut,
    fun fee l change stamp h reason ↦ layOut_eq_feeRefusal h,
    fun fee out ↦ built_fee hspends hinputs houtputs⟩
  · rintro fee fee' m l l' ⟨_, _, h, hm⟩ ⟨_, _, h', hm'⟩
    rcases ((hiff h m).mp hm).2 with ⟨hnet, rfl⟩ | ⟨hlt, rfl⟩ <;>
      rcases ((hiff h' m).mp hm').2 with ⟨hnet', rfl⟩ | ⟨hlt', rfl⟩
    · rfl
    · exact absurd (hnet ▸ hlt') (not_lt.mpr (Int.ofNat_le.mpr (hmono m)))
    · exact absurd (hnet' ▸ hlt) (not_lt.mpr (Int.ofNat_le.mpr (hmono m)))
    · rfl
  · rintro m hlow hhigh fee l ⟨_, _, h, hm⟩
    rcases ((hiff h m).mp hm).2 with ⟨hnet, -⟩ | ⟨hlt, -⟩
    · exact hlow.ne' hnet
    · exact absurd hlt (not_lt.mpr hhigh)
  · rintro fee m l ⟨_, _, -, hm⟩
    obtain ⟨hadm, rfl⟩ := (callerMarginalFee_eq_ok_iff (localFee_injective l pool i)).mp hm
    exact localFee_mono l pool i hadm.standard_le
  · rintro hmain htarget fee m l ⟨_, _, -, hm⟩
    have hstandard : standardMarginalFee i.network i.targetHeight = legacyMarginalFee :=
      if_pos ⟨hmain, htarget⟩
    obtain ⟨hadm, rfl⟩ := (callerMarginalFee_eq_ok_iff (localFee_injective l pool i)).mp hm
    have hlegacy : m = legacyMarginalFee := by
      rcases hadm with h | ⟨_, h⟩
      · exact h.trans hstandard
      · exact h
    refine ⟨hlegacy, fun heq ↦ ?_⟩
    cases hlegacy.symm.trans (localFee_injective l pool i heq)

end Check

/-! ## A test-network payment at the legacy fee -/

theorem feeCheck_determined_legacy :
    ∃ l change stamp, arrange pricing .ironwood (samplePayment.withFee 15000) emptyBuilder =
        .ok (l, change, stamp) ∧
      callerMarginalFee samplePayment.network samplePayment.targetHeight 15000
        (l.localFee .ironwood samplePayment) = .ok legacyMarginalFee := by
  obtain ⟨⟨l, change, stamp⟩, h⟩ := exists_ok_of_isOk
    (show (arrange pricing .ironwood (samplePayment.withFee 15000) emptyBuilder).isOk = true by
      decide +kernel)
  exact ⟨l, change, stamp, h, ((feeCheck_determined rfl (by decide) (by decide) (by decide)).1
    15000 l change stamp h legacyMarginalFee).mpr ⟨.inr (by decide), .inr (by decide)⟩⟩

end LedgerZcash
