import Mathlib.Algebra.Order.Floor.Div
import LedgerZcash.Crypto.Layout

/-!
# The local fee model and the builder's fee rule

The builders price a layout from five counts (`layoutFee`), and then ask the upstream
builder for its own fee.  The upstream rule measures sizes: a P2SH output is smaller than
a P2PKH one, so that enough of them save a unit; and from NU6.3 on an Orchard change
output brings a fabricated spend, which may cost one.  The two prices agree exactly when
the units saved are the units added (`FeesAgree`).
-/

namespace LedgerZcash

open Hex Collect

/-! ## The upstream rule -/

section Rule

variable {Path : Type} {T : CraftTypes Path}

/-- `P2PKH_STANDARD_INPUT_SIZE`. -/
def p2pkhInputSize : Nat := 150

/-- `P2PKH_STANDARD_OUTPUT_SIZE`. -/
def p2pkhOutputSize : Nat := 34

/-- A P2SH script is two bytes shorter. -/
def p2shOutputSize : Nat := 32

/-- The transparent address that is paid, if it is one. -/
def Destination.address? : Destination T → Option T.TransparentAddress
  | .shielded _ => none
  | .transparent addr => some addr

def Payment.address? (pay : Payment T) : Option T.TransparentAddress := pay.recipient.address?

def BuilderInput.size : BuilderInput T → Nat
  | .shielded .. => 0
  | .transparent .. => p2pkhInputSize

/-- The size of an output that pays a transparent address. -/
def addressSize (isP2sh : T.TransparentAddress → Bool) (addr : T.TransparentAddress) : Nat :=
  if isP2sh addr then p2shOutputSize else p2pkhOutputSize

def BuilderOutput.size (isP2sh : T.TransparentAddress → Bool) (x : BuilderOutput T) : Nat :=
  (x.payment.address?.map (addressSize isP2sh)).getD 0

namespace Builder

variable (b : Builder T)

def poolSpends (pool : Pool) : Nat := b.inputs.countP fun x ↦ x.spent = .note pool

def poolOutputs (pool : Pool) : Nat := b.outputs.countP fun x ↦ x.payment.pool = some pool

def changeOutputs : Nat := b.outputs.countP BuilderOutput.isOrchardChange

/-- Transparent units: the sizes in standard inputs or standard outputs, rounded up. -/
def transparentUnits (isP2sh : T.TransparentAddress → Bool) : Nat :=
  max ((b.inputs.map BuilderInput.size).sum ⌈/⌉ p2pkhInputSize)
    ((b.outputs.map (BuilderOutput.size isP2sh)).sum ⌈/⌉ p2pkhOutputSize)

end Builder

/-- The actions of a bundle: none of an empty one. -/
def actionUnits (nSpends nOutputs : Nat) : Nat :=
  if nSpends = 0 ∧ nOutputs = 0 then 0 else max 2 (max nSpends nOutputs)

namespace CraftUpstream

variable (P : CraftUpstream T)

/-- From NU6.3 on an Orchard change output is paired with a spend of its own. -/
def fabricatedSpends (b : Builder T) : Nat :=
  if P.isNuActive b.network .nu6_3 b.targetHeight then b.changeOutputs else 0

/-- The logical actions that the builder's fee rule counts. -/
def feeUnits (isP2sh : T.TransparentAddress → Bool) (b : Builder T) : Nat :=
  max 2 (b.transparentUnits isP2sh +
    (actionUnits (b.poolSpends .orchard + P.fabricatedSpends b) (b.poolOutputs .orchard) +
      actionUnits (b.poolSpends .ironwood) (b.poolOutputs .ironwood)))

/-- The documented fee rule of the upstream builder; `isP2sh` tells its addresses apart. -/
structure FeeLaw (isP2sh : T.TransparentAddress → Bool) : Prop where
  /-- `FeeRule::non_standard` refuses only sizes of zero. -/
  validMarginalFee : ∀ m, P.validMarginalFee m = true
  /-- `get_fee`, unless the fee is out of range. -/
  getFee : ∀ b m fee,
    P.getFee b ⟨m⟩ = .ok fee ↔ fee = m * P.feeUnits isP2sh b ∧ fee ≤ maxMoney

end CraftUpstream

end Rule

/-! ## When the prices agree -/

section Agreement

variable {Path : Type} {T : CraftTypes Path}

namespace BuildInputs

variable (i : BuildInputs T)

/-- The inputs exceed the outputs and the fee. -/
def HasSurplus : Prop := (i.outputs.map OutputRequest.value).sum + i.fee < i.inputValues.sum

instance : Decidable i.HasSurplus := inferInstanceAs (Decidable (_ < _))

/-- The transparent addresses of the final layout. -/
def recipients : List T.TransparentAddress :=
  i.outputs.filterMap (fun out ↦ out.destination.address?) ++
    if i.HasSurplus ∧ i.spends.length = 0 then i.transparentChangeAddress.toList else []

/-- The shielded outputs of the final layout. -/
def shieldedOutputs : Nat :=
  i.outputs.countP (fun out ↦ out.destination.isShielded) +
    if i.HasSurplus ∧ i.spends.length ≠ 0 then 1 else 0

/-- The units that P2SH outputs save: one for every 17 of them, as far as the outputs
outweigh the inputs. -/
def savedUnits (isP2sh : T.TransparentAddress → Bool) : Nat :=
  let nInputs := i.transparentInputs.length
  let nOutputs := i.recipients.length
  max nInputs nOutputs - max nInputs (nOutputs - i.recipients.countP isP2sh / 17)

/-- The fabricated spend of the change costs an action: there are at least as many notes
as outputs, and more than padding covers. -/
def PairedChange (P : CraftUpstream T) (pool : Pool) : Prop :=
  pool = .orchard ∧ P.isNuActive i.network .nu6_3 i.targetHeight = true ∧ i.HasSurplus ∧
    2 ≤ i.spends.length ∧ i.shieldedOutputs ≤ i.spends.length

instance (P : CraftUpstream T) (pool : Pool) : Decidable (i.PairedChange P pool) :=
  inferInstanceAs (Decidable (_ ∧ _))

/-- What P2SH outputs save is what the change costs. -/
def FeesAgree (P : CraftUpstream T) (isP2sh : T.TransparentAddress → Bool) (pool : Pool) :
    Prop :=
  i.savedUnits isP2sh = if i.PairedChange P pool then 1 else 0

instance (P : CraftUpstream T) (isP2sh : T.TransparentAddress → Bool) (pool : Pool) :
    Decidable (i.FeesAgree P isP2sh pool) :=
  inferInstanceAs (Decidable (_ = _))

end BuildInputs

end Agreement

variable {Path : Type} {T : CraftTypes Path} {P : CraftUpstream T}

/-! ## The units of a builder -/

section Units

variable {isP2sh : T.TransparentAddress → Bool}

/-- Every coin has the size of a standard input. -/
theorem sum_size_inputs (xs : List (BuilderInput T)) :
    (xs.map BuilderInput.size).sum =
      p2pkhInputSize * (xs.map BuilderInput.spent).countP fun s ↦ s.coin?.isSome := by
  induction xs with
  | nil => rfl
  | cons x xs ih =>
      rw [List.map_cons, List.sum_cons, List.map_cons, List.countP_cons, ih, Nat.mul_add,
        Nat.add_comm]
      cases x <;> rfl

/-- The transparent addresses that a builder pays. -/
def Builder.recipients (b : Builder T) : List T.TransparentAddress :=
  b.outputs.filterMap fun x ↦ x.payment.address?

/-- Every P2SH output falls two short of the size of a standard output. -/
theorem sum_size_outputs (xs : List (BuilderOutput T)) :
    (xs.map (BuilderOutput.size isP2sh)).sum +
        2 * (xs.filterMap fun x ↦ x.payment.address?).countP isP2sh =
      p2pkhOutputSize * (xs.filterMap fun x ↦ x.payment.address?).length := by
  induction xs with
  | nil => rfl
  | cons x xs ih =>
      rw [List.map_cons, List.sum_cons, List.filterMap_cons]
      cases haddr : x.payment.address? with
      | none =>
          rw [BuilderOutput.size, haddr]
          simpa using ih
      | some addr =>
          have hsize : addressSize isP2sh addr + 2 * (if isP2sh addr then 1 else 0) =
              p2pkhOutputSize := by
            unfold addressSize
            split <;> rfl
          rw [BuilderOutput.size, haddr, List.countP_cons, List.length_cons, Nat.mul_succ,
            ← ih, ← hsize, Option.map_some, Option.getD_some]
          omega

/-- Rounding up what falls short of whole units. -/
theorem ceilDiv_short {size n short : Nat} (hsize : size + 2 * short = p2pkhOutputSize * n) :
    size ⌈/⌉ p2pkhOutputSize = n - short / 17 := by
  rw [Nat.ceilDiv_eq_add_pred_div]
  unfold p2pkhOutputSize at *
  omega

theorem transparentUnits_eq {b : Builder T} {nInputs : Nat}
    (hinputs : (b.inputs.map BuilderInput.spent).countP (fun s ↦ s.coin?.isSome) = nInputs) :
    b.transparentUnits isP2sh =
      max nInputs (b.recipients.length - b.recipients.countP isP2sh / 17) := by
  have houts : (b.outputs.map (BuilderOutput.size isP2sh)).sum ⌈/⌉ p2pkhOutputSize =
      b.recipients.length - b.recipients.countP isP2sh / 17 :=
    ceilDiv_short (sum_size_outputs b.outputs)
  have hins : p2pkhInputSize * nInputs ⌈/⌉ p2pkhInputSize = nInputs :=
    smul_ceilDiv (by decide) nInputs
  rw [Builder.transparentUnits, houts, sum_size_inputs, hinputs, hins]

end Units

/-! ## The change calls -/

section Change

variable {b b' : Builder T} {pool : Pool} {l l' : Layout T} {i : BuildInputs T} {change : Nat}

theorem changeOutputs_of_pushInput {x : BuilderInput T} {method : String}
    (h : pushInput P b x method = .ok b') : b'.changeOutputs = b.changeOutputs := by
  obtain ⟨_, _, h⟩ := bind_eq_ok.mp h
  cases pure_eq_ok.mp h
  rfl

theorem changeOutputs_of_pushOutput {x : BuilderOutput T} {method : String}
    (h : pushOutput P b x method = .ok b') :
    b'.changeOutputs = b.changeOutputs + if x.isOrchardChange then 1 else 0 := by
  obtain ⟨_, _, h⟩ := bind_eq_ok.mp h
  cases pure_eq_ok.mp h
  exact List.countP_append.trans (congrArg _ List.countP_singleton)

theorem addShieldedSpend_changeOutputs {fvk : T.Fvk} {spend : SpendInput Path}
    (h : addShieldedSpend P pool b fvk spend = .ok b') : b'.changeOutputs = b.changeOutputs := by
  obtain ⟨note, _, h⟩ := bind_eq_ok.mp h
  exact changeOutputs_of_pushInput h

theorem addTransparentInput_changeOutputs {tin : TransparentInput}
    (h : addTransparentInput P b tin = .ok b') : b'.changeOutputs = b.changeOutputs := by
  obtain ⟨pubkey, script, hpush⟩ := addTransparentInput_eq_ok h
  exact changeOutputs_of_pushInput hpush

theorem addPoolOutput_changeOutputs {ovk : Option T.Ovk} {out : OutputRequest T}
    (h : addPoolOutput P pool b ovk out = .ok b') : b'.changeOutputs = b.changeOutputs := by
  obtain ⟨x, method, hpush, -, hplain⟩ := addPoolOutput_eq_ok h
  rw [changeOutputs_of_pushOutput hpush, hplain]
  rfl

/-- Only Orchard change goes through the change call. -/
theorem addShieldedChange_changeOutputs (h : addShieldedChange P pool i b change = .ok b') :
    b'.changeOutputs = b.changeOutputs + if pool = .orchard then 1 else 0 := by
  obtain ⟨addr, x, method, -, hpush, -, hcall⟩ := addShieldedChange_eq_ok h
  rw [changeOutputs_of_pushOutput hpush, hcall]
  simp only [decide_eq_true_eq]

/-- Requested items never go through the change call. -/
theorem addItems_changeOutputs (h : addItems P pool i b = .ok l') :
    l'.builder.changeOutputs = b.changeOutputs := by
  refine addItems_induction (Q := fun l ↦ l.builder.changeOutputs = b.changeOutputs) rfl ?_ ?_ ?_ h
  · intro fvk l spend l' hl h
    obtain ⟨builder, hbuilder, _, rfl⟩ := addSpendStep_eq_ok h
    exact (addShieldedSpend_changeOutputs hbuilder).trans hl
  · intro l tin l' hl h
    obtain ⟨builder, hbuilder, _, rfl⟩ := addTransparentInputStep_eq_ok h
    exact (addTransparentInput_changeOutputs hbuilder).trans hl
  · intro l out l' hl h
    obtain ⟨builder, hbuilder, _, rfl⟩ := addOutputStep_eq_ok h
    rw [Layout.builder_count]
    exact (addPoolOutput_changeOutputs hbuilder).trans hl

theorem addChange_changeOutputs {stamp : Option ChangeStamp}
    (hlen : i.spends.length < u32Size) (h : addChange P pool i l change = .ok (l', stamp)) :
    l'.builder.changeOutputs = l.builder.changeOutputs +
      if pool = .orchard ∧ 0 < change ∧ i.spends.length ≠ 0 then 1 else 0 := by
  cases addChange_eq_ok h with
  | exact hzero => simp [hzero]
  | shielded hpos hspends hadd =>
      rw [asU32_of_lt hlen] at hspends
      rw [Layout.builder_count, addShieldedChange_changeOutputs hadd]
      simp [hpos, Nat.pos_iff_ne_zero.mp hspends]
  | transparent hpos hspends _ _ _ hadd =>
      rw [asU32_of_lt hlen] at hspends
      rw [Layout.builder_count, addPoolOutput_changeOutputs hadd]
      simp [Nat.eq_zero_of_not_pos hspends]

end Change

/-! ## The counts of a final layout -/

section Final

variable {pool : Pool} {i : BuildInputs T} {l : Layout T} {change : Nat}
  {stamp : Option ChangeStamp} {isP2sh : T.TransparentAddress → Bool}

theorem OutputRequest.address?_payment (pool : Pool) (out : OutputRequest T) :
    (out.payment pool).address? = out.destination.address? := by
  unfold OutputRequest.payment
  cases out.destination <;> rfl

/-- An output pays a transparent address unless it is shielded. -/
theorem BuilderOutput.isSome_address? (x : BuilderOutput T) :
    x.payment.address?.isSome = !x.payment.isShielded := by
  cases x <;> rfl

theorem hasSurplus_iff (h : l.Holds pool i change stamp) : i.HasSurplus ↔ 0 < change := by
  have hbalance := h.balance
  rw [map_value_requested] at hbalance
  rw [BuildInputs.HasSurplus]
  omega

/-- A payment of a layout has the pool of its builder, or none. -/
def Payment.InPool (pool : Pool) (pay : Payment T) : Prop :=
  pay.pool = none ∨ pay.pool = some pool

theorem requested_inPool : ∀ pay ∈ i.requested pool, pay.InPool pool := by
  intro pay hpay
  obtain ⟨out, _, rfl⟩ := List.mem_map.mp hpay
  unfold OutputRequest.payment
  split
  · exact .inr rfl
  · exact .inl rfl

/-- What the change adds to the layout's recipients and shielded outputs. -/
theorem change_counts {pays : List (Payment T)} (hlen : i.spends.length < u32Size)
    (hs : i.HasSurplus ↔ 0 < change) (h : i.ReturnsChange pool change pays stamp) :
    pays.filterMap Payment.address? =
        (if i.HasSurplus ∧ i.spends.length = 0 then i.transparentChangeAddress.toList else []) ∧
      pays.countP Payment.isShielded =
        (if i.HasSurplus ∧ i.spends.length ≠ 0 then 1 else 0) ∧
      ∀ pay ∈ pays, pay.InPool pool := by
  cases h with
  | exact hzero =>
      have hno : ¬i.HasSurplus := fun h ↦ (hs.mp h).ne' hzero
      exact ⟨by simp [hno], by simp [hno], by simp⟩
  | shielded hpos hspends haddr =>
      have hne : i.spends.length ≠ 0 := fun h ↦ hspends (List.length_eq_zero_iff.mp h)
      refine ⟨by simp [hne, Payment.address?, Destination.address?], ?_, ?_⟩
      · rw [if_pos ⟨hs.mpr hpos, hne⟩]
        rfl
      · rintro pay hpay
        cases List.mem_singleton.mp hpay
        exact .inr rfl
  | transparent hpos hspends haddr hpubkey haddressIndex hindex =>
      have hzero : i.spends.length = 0 := List.length_eq_zero_iff.mpr (hspends hlen)
      refine ⟨?_, by simp [hzero, Payment.isShielded], ?_⟩
      · rw [if_pos ⟨hs.mpr hpos, hzero⟩, haddr]
        rfl
      · rintro pay hpay
        cases List.mem_singleton.mp hpay
        exact .inl rfl

theorem coins_of_holds (h : l.Holds pool i change stamp) :
    (l.builder.inputs.map BuilderInput.spent).countP (fun s ↦ s.coin?.isSome) =
      i.transparentInputs.length := by
  rw [h.inputs, BuildInputs.spent, List.countP_append, List.countP_map, List.countP_map]
  simp [Function.comp_def, Spent.coin?]

/-- All notes are of the layout's pool. -/
theorem poolSpends_of_holds (h : l.Holds pool i change stamp) (pool' : Pool) :
    l.builder.poolSpends pool' = if pool' = pool then i.spends.length else 0 := by
  have hmap : l.builder.poolSpends pool' =
      (l.builder.inputs.map BuilderInput.spent).countP (fun s ↦ s = .note pool') := by
    rw [List.countP_map]
    rfl
  have hcoins : (i.transparentInputs.map fun tin ↦ Spent.coin tin.coin).countP
      (fun s ↦ s = .note pool') = 0 := by
    rw [List.countP_map]
    exact List.countP_eq_zero.mpr fun tin _ ↦ by simp
  rw [hmap, h.inputs, BuildInputs.spent, List.countP_append, hcoins, Nat.add_zero, List.countP_map]
  split
  · rename_i heq
    exact List.countP_eq_length.mpr fun spend _ ↦ by simp [heq]
  · rename_i hne
    exact List.countP_eq_zero.mpr fun spend _ ↦ by simpa using Ne.symm hne

/-- Payments into one pool are counted by it alone. -/
theorem poolOutputs_of_inPool {b : Builder T} {pays : List (Payment T)}
    (hpays : b.outputs.map BuilderOutput.payment = pays) (hall : ∀ pay ∈ pays, pay.InPool pool)
    (pool' : Pool) :
    b.poolOutputs pool' = if pool' = pool then pays.countP Payment.isShielded else 0 := by
  have hmap : b.poolOutputs pool' = pays.countP (fun pay ↦ pay.pool = some pool') := by
    rw [← hpays, List.countP_map]
    rfl
  rw [hmap]
  split
  · rename_i heq
    rw [heq]
    refine List.countP_congr fun pay hpay ↦ ?_
    rcases hall pay hpay with hnone | hsome
    · simp [Payment.isShielded, hnone]
    · simp [Payment.isShielded, hsome]
  · rename_i hne
    refine List.countP_eq_zero.mpr fun pay hpay ↦ ?_
    rcases hall pay hpay with hnone | hsome
    · simp [hnone]
    · simpa [hsome] using Ne.symm hne

theorem recipients_eq_filterMap (b : Builder T) :
    b.recipients = (b.outputs.map BuilderOutput.payment).filterMap Payment.address? := by
  rw [List.filterMap_map]
  rfl

/-- The recipients are the payments that are not shielded. -/
theorem length_recipients (b : Builder T) :
    b.recipients.length =
      (b.outputs.map BuilderOutput.payment).countP fun pay ↦ !pay.isShielded := by
  rw [Builder.recipients, List.length_filterMap_eq_countP, List.countP_map]
  exact List.countP_congr fun x _ ↦ by
    simp only [Function.comp_apply, BuilderOutput.isSome_address?]

theorem countP_isShielded_requested (i : BuildInputs T) (pool : Pool) :
    (i.requested pool).countP Payment.isShielded =
      i.outputs.countP fun out ↦ out.destination.isShielded := by
  rw [BuildInputs.requested, List.countP_map]
  exact List.countP_congr fun out _ ↦ by
    simp only [Function.comp_apply, OutputRequest.isShielded_payment]

theorem filterMap_address?_requested (i : BuildInputs T) (pool : Pool) :
    (i.requested pool).filterMap Payment.address? =
      i.outputs.filterMap fun out ↦ out.destination.address? := by
  rw [BuildInputs.requested, List.filterMap_map]
  exact List.filterMap_congr fun out _ ↦ OutputRequest.address?_payment pool out

/-- The counts that price a final layout, in the builder and in the local model. -/
structure Layout.Priced (l : Layout T) (pool : Pool) (i : BuildInputs T) : Prop where
  coins : (l.builder.inputs.map BuilderInput.spent).countP (fun s ↦ s.coin?.isSome) =
    i.transparentInputs.length
  recipients : l.builder.recipients = i.recipients
  spends : ∀ pool', l.builder.poolSpends pool' = if pool' = pool then i.spends.length else 0
  outputs : ∀ pool', l.builder.poolOutputs pool' = if pool' = pool then i.shieldedOutputs else 0
  nShieldedOutputs : l.nShieldedOutputs = i.shieldedOutputs
  nTransparentOutputs : l.nTransparentOutputs = i.recipients.length

theorem priced_of_holds (hspends : i.spends.length < u32Size)
    (houtputs : i.outputs.length + 1 < u32Size) (h : l.Holds pool i change stamp) :
    l.Priced pool i := by
  obtain ⟨pays, hpays, hreturns, hcounts⟩ := h.outputs
  obtain ⟨haddrs, hshielded, hpool⟩ := change_counts hspends (hasSurplus_iff h) hreturns
  have hcounts := hcounts houtputs
  have hrecipients : l.builder.recipients = i.recipients := by
    rw [recipients_eq_filterMap, hpays, List.filterMap_append, haddrs,
      filterMap_address?_requested, BuildInputs.recipients]
  have hall : ∀ pay ∈ i.requested pool ++ pays, pay.InPool pool := by
    intro pay hpay
    rcases List.mem_append.mp hpay with hpay | hpay
    · exact requested_inPool pay hpay
    · exact hpool pay hpay
  have htotal : (i.requested pool ++ pays).countP Payment.isShielded = i.shieldedOutputs := by
    rw [List.countP_append, countP_isShielded_requested, hshielded, BuildInputs.shieldedOutputs]
  refine ⟨coins_of_holds h, hrecipients, poolSpends_of_holds h, fun pool' ↦ ?_,
    hcounts.shielded.trans htotal, ?_⟩
  · rw [poolOutputs_of_inPool hpays hall pool', htotal]
  · rw [hcounts.transparent, ← hpays, ← hrecipients, length_recipients]

end Final

/-! ## The two prices -/

section Prices

/-- The cost of a fabricated spend. -/
theorem actionUnits_fabricated {nSpends nOutputs fabricated : Nat}
    (h : fabricated = 0 ∨ fabricated = 1 ∧ nSpends ≠ 0 ∧ nOutputs ≠ 0) :
    actionUnits (nSpends + fabricated) nOutputs = paddedActions nSpends nOutputs +
      if fabricated = 1 ∧ 2 ≤ nSpends ∧ nOutputs ≤ nSpends then 1 else 0 := by
  unfold actionUnits paddedActions orchardMinActions
  rcases h with rfl | ⟨rfl, hs, ho⟩
  · simp
  · rw [if_neg (by omega), if_neg (by omega)]
    split <;> omega

/-- The minimum of two actions hides no difference: what saves units has many outputs, and
what adds them has a padded bundle. -/
theorem units_eq_iff {n n' actions added : Nat} (hle : n' ≤ n) (hmany : n' < n → 2 ≤ n')
    (hpadded : added ≠ 0 → 2 ≤ actions) :
    max graceActions (n + actions) = max 2 (n' + (actions + added)) ↔ n - n' = added := by
  unfold graceActions
  omega

variable {isP2sh : T.TransparentAddress → Bool} {pool : Pool} {i : BuildInputs T} {l : Layout T}

/-- The spend fabricated for the change of a request, if there is one. -/
def BuildInputs.fabricated (i : BuildInputs T) (P : CraftUpstream T) (pool : Pool) : Nat :=
  if pool = .orchard ∧ P.isNuActive i.network .nu6_3 i.targetHeight = true ∧ i.HasSurplus ∧
    i.spends.length ≠ 0 then 1 else 0

theorem fabricated_cases (i : BuildInputs T) (P : CraftUpstream T) (pool : Pool) :
    i.fabricated P pool = 0 ∨
      i.fabricated P pool = 1 ∧ i.spends.length ≠ 0 ∧ i.shieldedOutputs ≠ 0 := by
  unfold BuildInputs.fabricated
  split
  · rename_i h
    obtain ⟨_, _, hsurplus, hspends⟩ := h
    refine .inr ⟨rfl, hspends, ?_⟩
    rw [BuildInputs.shieldedOutputs, if_pos ⟨hsurplus, hspends⟩]
    exact Nat.succ_ne_zero _
  · exact .inl rfl

theorem pairedChange_iff (i : BuildInputs T) (P : CraftUpstream T) (pool : Pool) :
    i.PairedChange P pool ↔
      i.fabricated P pool = 1 ∧ 2 ≤ i.spends.length ∧ i.shieldedOutputs ≤ i.spends.length := by
  unfold BuildInputs.fabricated
  constructor
  · rintro ⟨hpool, hactive, hsurplus, htwo, hle⟩
    exact ⟨if_pos ⟨hpool, hactive, hsurplus, by omega⟩, htwo, hle⟩
  · rintro ⟨hfab, htwo, hle⟩
    split at hfab
    · rename_i h
      exact ⟨h.1, h.2.1, h.2.2.1, htwo, hle⟩
    · exact nomatch hfab

/-- The upstream units of a final layout, from the counts of its request. -/
theorem feeUnits_eq (h : l.Priced pool i)
    (hfab : P.fabricatedSpends l.builder = i.fabricated P pool) :
    P.feeUnits isP2sh l.builder =
      max 2 (max i.transparentInputs.length
          (i.recipients.length - i.recipients.countP isP2sh / 17) +
        actionUnits (i.spends.length + i.fabricated P pool) i.shieldedOutputs) := by
  rw [CraftUpstream.feeUnits, transparentUnits_eq h.coins, h.recipients, hfab, h.spends, h.spends,
    h.outputs, h.outputs]
  cases pool with
  | orchard => rfl
  | ironwood =>
      have hnone : i.fabricated P .ironwood = 0 := if_neg fun h ↦ nomatch h.1
      rw [hnone]
      simp [actionUnits]

/-- The fee that the code computes for a final layout. -/
def Layout.localFee (l : Layout T) (pool : Pool) (i : BuildInputs T) (marginalFee : Nat) : Nat :=
  feeAt pool marginalFee (asU32 i.spends.length) l.nShieldedOutputs
    (asU32 i.transparentInputs.length) l.nTransparentOutputs

theorem localFee_eq (hspends : i.spends.length < u32Size)
    (hinputs : i.transparentInputs.length < u32Size) (h : l.Priced pool i) (m : Nat) :
    l.localFee pool i m = m * max graceActions (max i.transparentInputs.length i.recipients.length +
      paddedActions i.spends.length i.shieldedOutputs) := by
  rw [Layout.localFee, asU32_of_lt hspends, asU32_of_lt hinputs, h.nShieldedOutputs,
    h.nTransparentOutputs]
  cases pool <;> rfl

/-- The two prices of a layout are those of as many units exactly when the condition
holds. -/
theorem units_agree_iff (h : l.Priced pool i)
    (hfab : P.fabricatedSpends l.builder = i.fabricated P pool) :
    max graceActions (max i.transparentInputs.length i.recipients.length +
        paddedActions i.spends.length i.shieldedOutputs) = P.feeUnits isP2sh l.builder ↔
      i.FeesAgree P isP2sh pool := by
  have hcount : i.recipients.countP isP2sh ≤ i.recipients.length := List.countP_le_length
  rw [feeUnits_eq h hfab, actionUnits_fabricated (fabricated_cases i P pool), units_eq_iff,
    BuildInputs.FeesAgree, BuildInputs.savedUnits]
  · simp only [pairedChange_iff]
  · omega
  · omega
  · intro hadded
    split at hadded
    · rename_i hpaired
      unfold paddedActions orchardMinActions
      rw [if_neg (by omega)]
      omega
    · exact absurd rfl hadded

/-- The units of a layout whose counts are `u32`s cost no more than there is money. -/
theorem price_le_maxMoney {m : Nat} (hm : m ≤ legacyMarginalFee)
    (hspends : i.spends.length < u32Size) (hinputs : i.transparentInputs.length < u32Size)
    (houtputs : i.outputs.length + 1 < u32Size) (h : l.Priced pool i)
    (hfab : P.fabricatedSpends l.builder = i.fabricated P pool) :
    m * P.feeUnits isP2sh l.builder ≤ maxMoney := by
  have hrecipients : i.recipients.length ≤ i.outputs.length + 1 := by
    have hrequests := List.length_filterMap_le (fun out ↦ out.destination.address?) i.outputs
    rw [BuildInputs.recipients, List.length_append]
    split
    · cases i.transparentChangeAddress <;> simp <;> omega
    · simp
      omega
  have hshielded : i.shieldedOutputs ≤ i.outputs.length + 1 := by
    have hrequests := List.countP_le_length (p := fun out ↦ out.destination.isShielded)
      (l := i.outputs)
    unfold BuildInputs.shieldedOutputs
    split <;> omega
  have hunits : P.feeUnits isP2sh l.builder ≤ 2 * u32Size := by
    rw [feeUnits_eq h hfab]
    unfold actionUnits
    rcases fabricated_cases i P pool with hfab | ⟨hfab, _⟩ <;> rw [hfab] <;> split <;>
      unfold u32Size at * <;> omega
  exact (Nat.mul_le_mul hm hunits).trans (by decide)

end Prices

/-! ## The fee check -/

section Check

variable {isP2sh : T.TransparentAddress → Bool} {pool : Pool} {i : BuildInputs T}
  {b : Builder T} {l : Layout T} {change : Nat} {stamp : Option ChangeStamp}

/-- What is left of a layout is its fee check. -/
theorem layOut_of_arrange (h : arrange P pool i b = .ok (l, change, stamp)) :
    layOut P pool i b = (validateFee P pool i l change >>= fun feeRule ↦
      pure { toLayout := l, change, changeStamp := stamp, feeRule }) := by
  rw [layOut, h, ok_bind]

/-- The refusal of a fee that is not the upstream builder's. -/
def feeMismatch (fee builderFee : Nat) : Error :=
  .craft ("fee mismatch — caller-supplied " ++ fee.repr ++ ", builder " ++ builderFee.repr)

/-- An accepted fee is that of the standard or of the legacy marginal fee. -/
theorem callerMarginalFee_eq_ok {network : AnyZcashNetwork} {target fee m : Nat}
    {feeFor : Nat → Nat} (h : callerMarginalFee network target fee feeFor = .ok m) :
    0 < m ∧ m ≤ legacyMarginalFee ∧ fee = feeFor m := by
  have hstandard : 0 < standardMarginalFee network target ∧
      standardMarginalFee network target ≤ legacyMarginalFee := by
    unfold standardMarginalFee
    split <;> decide
  simp only [callerMarginalFee] at h
  split at h
  · rename_i hfee
    cases h
    exact ⟨hstandard.1, hstandard.2, hfee⟩
  · split at h
    · rename_i hfee
      cases h
      exact ⟨by decide, le_rfl, hfee.2⟩
    · cases h

/-- The fee check of an accepted fee compares it with the upstream price. -/
theorem validateFee_eq (hlaw : P.FeeLaw isP2sh) {m : Nat}
    (hm : callerMarginalFee i.network i.targetHeight i.fee (l.localFee pool i) = .ok m)
    (hfits : m * P.feeUnits isP2sh l.builder ≤ maxMoney) :
    validateFee P pool i l change =
      if m * P.feeUnits isP2sh l.builder ≠ i.fee then
        .error (feeMismatch i.fee (m * P.feeUnits isP2sh l.builder))
      else .ok ⟨m⟩ := by
  have hle : m ≤ maxMoney := (callerMarginalFee_eq_ok hm).2.1.trans (by decide)
  have hrule : zip317FeeRule P m = .ok ⟨m⟩ := by
    unfold zip317FeeRule zatoshis
    rw [if_pos hle, ok_bind, hlaw.validMarginalFee]
    rfl
  have hfee : P.getFee l.builder ⟨m⟩ = .ok (m * P.feeUnits isP2sh l.builder) :=
    (hlaw.getFee l.builder m _).mpr ⟨rfl, hfits⟩
  have hlocal : (callerMarginalFee i.network i.targetHeight i.fee fun marginalFee ↦
      feeAt pool marginalFee (asU32 i.spends.length) l.nShieldedOutputs
        (asU32 i.transparentInputs.length) l.nTransparentOutputs) = .ok m := hm
  unfold validateFee
  simp only [hlocal, Except.mapError, ok_bind, hrule, hfee, refuseIf]
  split <;> rfl

/-- The fabricated spends of a final layout, from its request. -/
theorem fabricatedSpends_eq (hspends : i.spends.length < u32Size) (hempty : b.outputs = [])
    (hholds : l.Holds pool i change stamp) (h : arrange P pool i b = .ok (l, change, stamp)) :
    P.fabricatedSpends l.builder = i.fabricated P pool := by
  obtain ⟨l₀, hitems, _, hchange⟩ := arrange_eq_ok h
  have hchanges := addChange_changeOutputs hspends hchange
  have hnone : b.changeOutputs = 0 := by
    rw [Builder.changeOutputs, hempty]
    rfl
  rw [addItems_changeOutputs hitems, hnone, Nat.zero_add] at hchanges
  rw [CraftUpstream.fabricatedSpends, hholds.network, hholds.targetHeight, hchanges,
    BuildInputs.fabricated]
  simp only [← hasSurplus_iff hholds]
  cases hactive : P.isNuActive i.network .nu6_3 i.targetHeight <;> simp

theorem arrange_holds (hb : b = { b with
      network := i.network, targetHeight := i.targetHeight, inputs := [], outputs := [] })
    (h : arrange P pool i b = .ok (l, change, stamp)) : l.Holds pool i change stamp := by
  obtain ⟨l₀, hitems, hsurplus, hchange⟩ := arrange_eq_ok h
  exact holds_of_addChange hb hitems hsurplus hchange

end Check

/-- For every final layout, the fee that the code computes is what the upstream builder asks
for at every marginal fee exactly when the units saved by P2SH outputs are those added by a
paired change; and exactly then an accepted fee passes the check against the builder's. -/
theorem feeModel_iff {isP2sh : T.TransparentAddress → Bool} (hlaw : P.FeeLaw isP2sh) {pool : Pool}
    {i : BuildInputs T} {b : Builder T} {l : Layout T} {change : Nat} {stamp : Option ChangeStamp}
    (hb : b = { b with
      network := i.network, targetHeight := i.targetHeight, inputs := [], outputs := [] })
    (hspends : i.spends.length < u32Size) (hinputs : i.transparentInputs.length < u32Size)
    (houtputs : i.outputs.length + 1 < u32Size)
    (h : arrange P pool i b = .ok (l, change, stamp)) :
    ((∀ m fee, P.getFee l.builder ⟨m⟩ = .ok fee → l.localFee pool i m = fee) ↔
      i.FeesAgree P isP2sh pool) ∧
    ∀ m, callerMarginalFee i.network i.targetHeight i.fee (l.localFee pool i) = .ok m →
      ((∃ plan, layOut P pool i b = .ok plan) ↔ i.FeesAgree P isP2sh pool) ∧
      ((∃ builderFee, layOut P pool i b = .error (feeMismatch i.fee builderFee)) ↔
        ¬i.FeesAgree P isP2sh pool) := by
  have hholds := arrange_holds hb h
  have hpriced := priced_of_holds hspends houtputs hholds
  have hfab := fabricatedSpends_eq hspends (by rw [hb]) hholds h
  have hagree := @units_agree_iff _ _ P isP2sh _ _ _ hpriced hfab
  have hlocal := localFee_eq hspends hinputs hpriced
  constructor
  · rw [← hagree]
    constructor
    · intro hall
      have hone := hall 1 _ ((hlaw.getFee _ 1 _).mpr ⟨rfl, price_le_maxMoney (by decide) hspends
        hinputs houtputs hpriced hfab⟩)
      rwa [hlocal, Nat.one_mul, Nat.one_mul] at hone
    · intro hunits m fee hfee
      rw [hlocal, hunits, ((hlaw.getFee _ m fee).mp hfee).1]
  · intro m hm
    obtain ⟨hpos, hle, hfee⟩ := callerMarginalFee_eq_ok hm
    have hmatch : m * P.feeUnits isP2sh l.builder = i.fee ↔ i.FeesAgree P isP2sh pool := by
      rw [← hagree, hfee, hlocal, Nat.mul_right_inj hpos.ne', eq_comm]
    rw [layOut_of_arrange h, validateFee_eq hlaw hm (price_le_maxMoney hle hspends hinputs
      houtputs hpriced hfab), ← hmatch]
    split
    · rename_i hne
      refine ⟨⟨?_, fun heq ↦ absurd heq hne⟩, fun _ ↦ hne, fun _ ↦ ⟨_, rfl⟩⟩
      rintro ⟨plan, hplan⟩
      cases hplan
    · rename_i heq
      have heq := of_not_not heq
      refine ⟨⟨fun _ ↦ heq, fun _ ↦ ⟨_, rfl⟩⟩, ?_, fun hne ↦ absurd heq hne⟩
      rintro ⟨fee, hrefused⟩
      cases hrefused

/-! An upstream with this fee rule, and the two ways in which the prices part. -/

section Sample

/-- The address 1 is P2SH. -/
def oneIsP2sh : (plainTypes Unit).TransparentAddress → Bool := fun (addr : Nat) ↦ addr = 1

/-- Everything is taken but cross-address Orchard outputs from NU6.3 on, and fees follow
the upstream rule. -/
def pricing : CraftUpstream (plainTypes Unit) where
  __ := permissive Unit
  takesOutput b x :=
    match x with
    | .shielded .orchard .. =>
        if (permissive Unit).isNuActive b.network .nu6_3 b.targetHeight then
          .error "CrossAddressDisabled"
        else .ok ()
    | _ => .ok ()
  getFee b rule :=
    let fee := rule.marginalFee * (permissive Unit).feeUnits oneIsP2sh b
    if fee ≤ maxMoney then .ok fee else .error "Balance(Overflow)"

theorem pricing_feeLaw : pricing.FeeLaw oneIsP2sh where
  validMarginalFee _ := rfl
  getFee b m fee := by
    change (if m * (permissive Unit).feeUnits oneIsP2sh b ≤ maxMoney then
        Except.ok (m * (permissive Unit).feeUnits oneIsP2sh b)
      else .error "Balance(Overflow)") = .ok fee ↔
        fee = m * (permissive Unit).feeUnits oneIsP2sh b ∧ fee ≤ maxMoney
    split
    · rename_i hle
      constructor
      · rintro ⟨⟩
        exact ⟨rfl, hle⟩
      · rintro ⟨rfl, _⟩
        rfl
    · rename_i hlt
      constructor
      · rintro ⟨⟩
      · rintro ⟨rfl, hle⟩
        exact absurd hle hlt

/-- The script of a public key hash of zeros. -/
def p2pkhScript : List UInt8 := [0x76, 0xA9, 0x14] ++ List.replicate 20 0 ++ [0x88, 0xAC]

/-- Seventeen P2SH payments out of one coin, without change. -/
def p2shBatch : BuildInputs (plainTypes Unit) where
  __ := samplePayment
  fee := 17000
  spends := []
  transparentInputs := [⟨fill 33 2, fill 32 3, 0, p2pkhScript, 34000, 0, 0⟩]
  outputs := List.replicate 17 ⟨.transparent (1 : Nat), 1000, none⟩

/-- A withdrawal out of two Orchard notes, with change, on an NU6.3 network. -/
def orchardWithdrawal : BuildInputs (plainTypes Unit) where
  __ := samplePayment
  fee := 3000
  spends := List.replicate 2 ⟨fill 43 0, 10000, fill 32 0, fill 32 0, ()⟩
  transparentInputs := []
  outputs := [⟨.transparent (6 : Nat), 7000, none⟩]

/-- Seventeen P2SH outputs are sixteen units, and the change of two notes is a third
action: both fees are accepted and then refused. -/
theorem feeModel_drifts :
    pricing.FeeLaw oneIsP2sh ∧
      buildTransaction pricing p2shBatch = .error (feeMismatch 17000 16000) ∧
      buildTransaction pricing orchardWithdrawal = .error (feeMismatch 3000 4000) :=
  ⟨pricing_feeLaw, by decide +kernel, by decide +kernel⟩

/-- A builder at the height of the samples, with no item yet. -/
def emptyBuilder : Builder (plainTypes Unit) where
  network := .named .testNetwork
  targetHeight := 10
  orchardAnchor := some ()
  ironwoodAnchor := none
  proposedV5 := true
  inputs := []
  outputs := []

/-- The prices of an Ironwood payment agree; those of the withdrawal do not. -/
theorem feeModel_iff_sample :
    (∃ l change stamp,
      arrange pricing .ironwood samplePayment emptyBuilder = .ok (l, change, stamp) ∧
        ∀ m fee, pricing.getFee l.builder ⟨m⟩ = .ok fee →
          l.localFee .ironwood samplePayment m = fee) ∧
    ∃ l change stamp,
      arrange pricing .orchard orchardWithdrawal emptyBuilder = .ok (l, change, stamp) ∧
        ¬∀ m fee, pricing.getFee l.builder ⟨m⟩ = .ok fee →
          l.localFee .orchard orchardWithdrawal m = fee := by
  constructor
  · obtain ⟨⟨l, change, stamp⟩, h⟩ := exists_ok_of_isOk
      (show (arrange pricing .ironwood samplePayment emptyBuilder).isOk = true by decide +kernel)
    exact ⟨l, change, stamp, h, (feeModel_iff pricing_feeLaw rfl (by decide) (by decide)
      (by decide) h).1.mpr (by decide +kernel)⟩
  · obtain ⟨⟨l, change, stamp⟩, h⟩ := exists_ok_of_isOk
      (show (arrange pricing .orchard orchardWithdrawal emptyBuilder).isOk = true by
        decide +kernel)
    exact ⟨l, change, stamp, h, fun hall ↦ absurd ((feeModel_iff pricing_feeLaw rfl (by decide)
      (by decide) (by decide) h).1.mp hall) (by decide +kernel)⟩

end Sample

end LedgerZcash
