import LedgerZcash.Crypto.Balance

/-!
# The items of a layout

`Balance` follows the values through the layout; here are the items.  The builder of a
final layout holds a note for each spend, then a coin for each transparent input, and it
makes the requested payments in order, with the change behind them (`layOut_holds`).  The
counters of the layout count these payments, and a stamp names the change output by its
place among the transparent ones.
-/

namespace LedgerZcash

open Hex Collect

/-! ## Items -/

section Items

variable {Path : Type} {T : CraftTypes Path}

/-- A transparent output that is spent. -/
structure Coin where
  txid : Bytes32
  vout : Nat
  value : Nat
deriving DecidableEq

def TransparentInput.coin (tin : TransparentInput) : Coin := ⟨tin.txid, tin.vout, tin.value⟩

/-- What an input spends: a note of a pool, or a coin. -/
inductive Spent where
  | note (pool : Pool)
  | coin (c : Coin)
deriving DecidableEq

/-- The coin of a transparent input. -/
def Spent.coin? : Spent → Option Coin
  | .note _ => none
  | .coin c => some c

def BuilderInput.spent : BuilderInput T → Spent
  | .shielded pool _ _ _ => .note pool
  | .transparent _ txid vout value _ => .coin ⟨txid, vout, value⟩

namespace Payment

/-- A payment into a shielded pool. -/
def isShielded (pay : Payment T) : Bool := pay.pool.isSome

end Payment

theorem OutputRequest.isShielded_payment (pool : Pool) (out : OutputRequest T) :
    (out.payment pool).isShielded = out.destination.isShielded := by
  unfold OutputRequest.payment Payment.isShielded
  split <;> rename_i h <;> rw [h] <;> rfl

namespace BuildInputs

variable (i : BuildInputs T)

/-- What the inputs of a request spend: notes first. -/
def spent (pool : Pool) : List Spent :=
  i.spends.map (fun _ ↦ .note pool) ++ i.transparentInputs.map fun tin ↦ .coin tin.coin

/-- The requested payments to transparent addresses. -/
def transparentRequests : List (OutputRequest T) :=
  i.outputs.filter fun out ↦ !out.destination.isShielded

/-- The change of a request: none, one shielded payment, or one transparent payment with
the stamp that names it. -/
inductive ReturnsChange (pool : Pool) (amount : Nat) :
    List (Payment T) → Option ChangeStamp → Prop
  | exact (h : amount = 0) : ReturnsChange pool amount [] none
  | shielded {addr : T.OrchardAddress} (hpos : 0 < amount) (hspends : i.spends ≠ [])
      (haddr : i.changeAddress = some addr) :
      ReturnsChange pool amount [⟨some pool, .shielded addr, amount, some (memoBytes none)⟩] none
  | transparent {addr : T.TransparentAddress} {pubkey : Arr 33} {index addressIndex : Nat}
      (hpos : 0 < amount) (hspends : i.spends.length < u32Size → i.spends = [])
      (haddr : i.transparentChangeAddress = some addr)
      (hpubkey : i.transparentChangePubkey = some pubkey)
      (haddressIndex : i.transparentChangeAddressIndex = some addressIndex)
      (hindex : i.outputs.length < u32Size → index = i.transparentRequests.length) :
      ReturnsChange pool amount [⟨none, .transparent addr, amount, none⟩]
        (some ⟨index, pubkey, addressIndex⟩)

end BuildInputs

end Items

variable {Path : Type} {T : CraftTypes Path} {P : CraftUpstream T}

/-! ## What one call spends -/

/-- A builder stays at its height and takes inputs that spend the given items. -/
structure Builder.Spends (b b' : Builder T) (ins : List Spent) : Prop where
  network : b'.network = b.network
  targetHeight : b'.targetHeight = b.targetHeight
  inputs : b'.inputs.map BuilderInput.spent = b.inputs.map BuilderInput.spent ++ ins

namespace Builder.Spends

variable {b b' b'' : Builder T} {ins ins' : List Spent}

theorem refl (b : Builder T) : b.Spends b [] := ⟨rfl, rfl, by rw [List.append_nil]⟩

theorem trans (h : b.Spends b' ins) (h' : b'.Spends b'' ins') : b.Spends b'' (ins ++ ins') where
  network := h'.network.trans h.network
  targetHeight := h'.targetHeight.trans h.targetHeight
  inputs := by rw [h'.inputs, h.inputs, List.append_assoc]

end Builder.Spends

section Calls

variable {b b' : Builder T} {pool : Pool}

theorem spends_of_pushInput {x : BuilderInput T} {method : String}
    (h : pushInput P b x method = .ok b') : b.Spends b' [x.spent] := by
  obtain ⟨_, _, h⟩ := bind_eq_ok.mp h
  cases pure_eq_ok.mp h
  exact ⟨rfl, rfl, List.map_append⟩

theorem spends_of_pushOutput {x : BuilderOutput T} {method : String}
    (h : pushOutput P b x method = .ok b') : b.Spends b' [] := by
  obtain ⟨_, _, h⟩ := bind_eq_ok.mp h
  cases pure_eq_ok.mp h
  exact ⟨rfl, rfl, (List.append_nil _).symm⟩

theorem addShieldedSpend_spends {fvk : T.Fvk} {spend : SpendInput Path}
    (h : addShieldedSpend P pool b fvk spend = .ok b') : b.Spends b' [.note pool] := by
  obtain ⟨note, _, h⟩ := bind_eq_ok.mp h
  exact spends_of_pushInput h

theorem addTransparentInput_spends {tin : TransparentInput}
    (h : addTransparentInput P b tin = .ok b') : b.Spends b' [.coin tin.coin] := by
  obtain ⟨pubkey, script, hpush⟩ := addTransparentInput_eq_ok h
  exact spends_of_pushInput hpush

theorem addPoolOutput_spends {ovk : Option T.Ovk} {out : OutputRequest T}
    (h : addPoolOutput P pool b ovk out = .ok b') : b.Spends b' [] := by
  obtain ⟨x, method, hpush, -, -⟩ := addPoolOutput_eq_ok h
  exact spends_of_pushOutput hpush

theorem addShieldedChange_spends {i : BuildInputs T} {change : Nat}
    (h : addShieldedChange P pool i b change = .ok b') : b.Spends b' [] := by
  obtain ⟨addr, x, method, -, hpush, -, -⟩ := addShieldedChange_eq_ok h
  exact spends_of_pushOutput hpush

end Calls

/-! ## What the loops spend and count -/

section Loops

variable {l l' : Layout T} {pool : Pool} {i : BuildInputs T}

/-- A loop over items each of which adds one input. -/
theorem spends_of_inputs {α : Type} {step : Layout T → α → Except Error (Layout T)}
    {spent : α → Spent}
    (hstep : ∀ l a l', step l a = .ok l' → l.builder.Spends l'.builder [spent a])
    {items : List α} (h : items.foldlM step l = .ok l') :
    l.builder.Spends l'.builder (items.map spent) := by
  refine foldlM_induction (P := fun done l' ↦ l.builder.Spends l'.builder (done.map spent)) h
    (.refl _) ?_
  intro done a t t' ht ha
  rw [List.map_append]
  exact ht.trans (hstep t a t' ha)

theorem addSpends_spends {fvk : Option T.Fvk} {spends : List (SpendInput Path)}
    (h : addSpends P pool fvk spends l = .ok l') :
    l.builder.Spends l'.builder (spends.map fun _ ↦ .note pool) := by
  unfold addSpends at h
  split at h
  · rename_i hempty
    cases pure_eq_ok.mp h
    rw [List.isEmpty_iff.mp hempty]
    exact .refl _
  · obtain ⟨fvk, _, h⟩ := bind_eq_ok.mp h
    refine spends_of_inputs (fun l a l' h ↦ ?_) h
    obtain ⟨builder, hbuilder, _, rfl⟩ := addSpendStep_eq_ok h
    exact addShieldedSpend_spends hbuilder

theorem addTransparentInputStep_spends {tin : TransparentInput}
    (h : addTransparentInputStep P l tin = .ok l') :
    l.builder.Spends l'.builder [.coin tin.coin] := by
  obtain ⟨builder, hbuilder, _, rfl⟩ := addTransparentInputStep_eq_ok h
  exact addTransparentInput_spends hbuilder

theorem addOutputStep_spends {ovk : Option T.Ovk} {out : OutputRequest T}
    (h : addOutputStep P pool ovk l out = .ok l') : l.builder.Spends l'.builder [] := by
  obtain ⟨builder, hbuilder, _, rfl⟩ := addOutputStep_eq_ok h
  rw [Layout.builder_count]
  exact addPoolOutput_spends hbuilder

theorem addItems_spends {b : Builder T} (h : addItems P pool i b = .ok l') :
    b.Spends l'.builder (i.spent pool) := by
  unfold addItems at h
  obtain ⟨l₁, hspends, h⟩ := bind_eq_ok.mp h
  obtain ⟨l₂, hinputs, h⟩ := bind_eq_ok.mp h
  have h₁ := addSpends_spends hspends
  have h₂ := spends_of_inputs (fun l a l' h ↦ @addTransparentInputStep_spends _ _ P l l' a h)
    hinputs
  have h₃ : l₂.builder.Spends l'.builder [] := by
    refine foldlM_induction (P := fun _ t ↦ l₂.builder.Spends t.builder []) h (.refl _) ?_
    intro done a t t' ht ha
    exact ht.trans (addOutputStep_spends ha)
  have htotal := (h₁.trans h₂).trans h₃
  rwa [List.append_nil] at htotal

/-- The counters of a layout, for payments made so far. -/
structure Layout.Counts (l : Layout T) (pays : List (Payment T)) : Prop where
  shielded : l.nShieldedOutputs = pays.countP Payment.isShielded
  transparent : l.nTransparentOutputs = pays.countP fun pay ↦ !pay.isShielded

/-- One more payment is counted, while the counters are `u32`s. -/
theorem Layout.Counts.count {pays : List (Payment T)} (h : l.Counts pays) {pay : Payment T}
    (hlen : (pays ++ [pay]).length < u32Size) {s : Bool} (hpay : pay.isShielded = s) :
    (l.count s).Counts (pays ++ [pay]) := by
  have hle : ∀ p : Payment T → Bool, pays.countP p + 1 < u32Size := by
    intro p
    have hcount := List.countP_le_length (p := p) (l := pays)
    rw [List.length_append, List.length_singleton] at hlen
    omega
  cases s with
  | true => exact ⟨by simp [Layout.count, h.shielded, asU32_of_lt (hle _), hpay],
      by simp [Layout.count, h.transparent, hpay]⟩
  | false => exact ⟨by simp [Layout.count, h.shielded, hpay],
      by simp [Layout.count, h.transparent, asU32_of_lt (hle _), hpay]⟩

/-- What a round keeps of a layout's counters, a loop keeps. -/
theorem counters_of_loop {α : Type} {step : Layout T → α → Except Error (Layout T)}
    (hstep : ∀ l a l', step l a = .ok l' → l'.nShieldedOutputs = l.nShieldedOutputs ∧
      l'.nTransparentOutputs = l.nTransparentOutputs) {items : List α}
    (h : items.foldlM step l = .ok l') : l'.nShieldedOutputs = l.nShieldedOutputs ∧
      l'.nTransparentOutputs = l.nTransparentOutputs := by
  refine foldlM_induction (P := fun _ t ↦ t.nShieldedOutputs = l.nShieldedOutputs ∧
    t.nTransparentOutputs = l.nTransparentOutputs) h ⟨rfl, rfl⟩ ?_
  intro done a t t' ht ha
  obtain ⟨hs, ht'⟩ := hstep t a t' ha
  exact ⟨hs.trans ht.1, ht'.trans ht.2⟩

theorem addOutputs_counts {ovk : Option T.Ovk} {outs : List (OutputRequest T)}
    (hlen : outs.length < u32Size) (hl : l.Counts [])
    (h : outs.foldlM (addOutputStep P pool ovk) l = .ok l') :
    l'.Counts (outs.map (OutputRequest.payment pool)) := by
  refine foldlM_induction (P := fun done t ↦ done.length < u32Size →
    t.Counts (done.map (OutputRequest.payment pool))) h (fun _ ↦ hl) ?_ hlen
  intro done a t t' ht ha hdone
  obtain ⟨builder, _, _, rfl⟩ := addOutputStep_eq_ok ha
  have hcounts := ht (Nat.lt_of_succ_lt (by simpa using hdone))
  have hcounts' : Layout.Counts { t with builder, totalOut := t.totalOut + a.value }
      (done.map (OutputRequest.payment pool)) := ⟨hcounts.shielded, hcounts.transparent⟩
  rw [List.map_append, List.map_singleton]
  refine hcounts'.count ?_ (OutputRequest.isShielded_payment pool a)
  rwa [← List.map_singleton, ← List.map_append, List.length_map]

theorem addItems_counts {b : Builder T} (hlen : i.outputs.length < u32Size)
    (h : addItems P pool i b = .ok l') : l'.Counts (i.requested pool) := by
  unfold addItems at h
  obtain ⟨l₁, hspends, h⟩ := bind_eq_ok.mp h
  obtain ⟨l₂, hinputs, h⟩ := bind_eq_ok.mp h
  have h₁ : l₁.nShieldedOutputs = 0 ∧ l₁.nTransparentOutputs = 0 := by
    unfold addSpends at hspends
    split at hspends
    · cases pure_eq_ok.mp hspends
      exact ⟨rfl, rfl⟩
    · obtain ⟨fvk, _, hspends⟩ := bind_eq_ok.mp hspends
      refine counters_of_loop (fun l a l' h ↦ ?_) hspends
      obtain ⟨builder, _, _, rfl⟩ := addSpendStep_eq_ok h
      exact ⟨rfl, rfl⟩
  have h₂ : l₂.nShieldedOutputs = l₁.nShieldedOutputs ∧
      l₂.nTransparentOutputs = l₁.nTransparentOutputs := by
    refine counters_of_loop (fun l a l' h ↦ ?_) hinputs
    obtain ⟨builder, _, _, rfl⟩ := addTransparentInputStep_eq_ok h
    exact ⟨rfl, rfl⟩
  exact addOutputs_counts hlen ⟨h₂.1.trans h₁.1, h₂.2.trans h₁.2⟩ h

end Loops

/-! ## The final layout -/

/-- The items and the counters of a final layout, for a change and its stamp. -/
structure Layout.Holds (l : Layout T) (pool : Pool) (i : BuildInputs T) (change : Nat)
    (stamp : Option ChangeStamp) : Prop where
  network : l.builder.network = i.network
  targetHeight : l.builder.targetHeight = i.targetHeight
  inputs : l.builder.inputs.map BuilderInput.spent = i.spent pool
  balance : i.inputValues.sum = ((i.requested pool).map Payment.value).sum + change + i.fee
  outputs : ∃ pays, l.builder.outputs.map BuilderOutput.payment = i.requested pool ++ pays ∧
    i.ReturnsChange pool change pays stamp ∧
    (i.outputs.length + 1 < u32Size → l.Counts (i.requested pool ++ pays))

section Final

variable {l l' : Layout T} {pool : Pool} {i : BuildInputs T} {change : Nat}
  {stamp : Option ChangeStamp}

theorem countP_requested (i : BuildInputs T) (pool : Pool) :
    (i.requested pool).countP (fun pay ↦ !pay.isShielded) = i.transparentRequests.length := by
  rw [BuildInputs.requested, List.countP_map, BuildInputs.transparentRequests,
    ← List.countP_eq_length_filter]
  exact List.countP_congr fun out _ ↦ by simp [OutputRequest.isShielded_payment]

/-- The change of a layout, its stamp and its counters. -/
theorem addChange_returns (h : addChange P pool i l change = .ok (l', stamp))
    (hcounts : i.outputs.length < u32Size → l.Counts (i.requested pool)) :
    ∃ pays, l.builder.Takes l'.builder [] pays ∧ l.builder.Spends l'.builder [] ∧
      i.ReturnsChange pool change pays stamp ∧
      (i.outputs.length + 1 < u32Size → l'.Counts (i.requested pool ++ pays)) := by
  have hlen : i.outputs.length + 1 < u32Size → ∀ pay : Payment T,
      (i.requested pool ++ [pay]).length < u32Size := by
    intro hlen pay
    rwa [List.length_append, List.length_singleton, BuildInputs.requested, List.length_map]
  have hbuilder : ∀ (b : Builder T), i.outputs.length + 1 < u32Size →
      Layout.Counts { l with builder := b } (i.requested pool) := by
    intro b hl
    have hc := hcounts (Nat.lt_of_succ_lt hl)
    exact ⟨hc.shielded, hc.transparent⟩
  cases addChange_eq_ok h with
  | exact hzero =>
      refine ⟨[], .refl _, .refl _, .exact (Nat.eq_zero_of_not_pos hzero), fun hl ↦ ?_⟩
      rw [List.append_nil]
      exact hcounts (Nat.lt_of_succ_lt hl)
  | shielded hpos hspends hadd =>
      obtain ⟨addr, haddr, htakes⟩ := addShieldedChange_takes hadd
      refine ⟨_, by rwa [Layout.builder_count], ?_, .shielded hpos ?_ haddr,
        fun hl ↦ (hbuilder _ hl).count (hlen hl _) rfl⟩
      · rw [Layout.builder_count]
        exact addShieldedChange_spends hadd
      · rintro hnil
        rw [hnil] at hspends
        exact absurd hspends (Nat.lt_irrefl 0)
  | transparent hpos hspends haddr hpubkey haddressIndex hadd =>
      refine ⟨_, by rw [Layout.builder_count]; exact addPoolOutput_takes hadd, ?_,
        .transparent hpos ?_ haddr hpubkey haddressIndex fun hl ↦ ?_,
        fun hl ↦ (hbuilder _ hl).count (hlen hl _) rfl⟩
      · rw [Layout.builder_count]
        exact addPoolOutput_spends hadd
      · intro hl
        rw [asU32_of_lt hl] at hspends
        exact List.length_eq_zero_iff.mp (Nat.eq_zero_of_not_pos hspends)
      · rw [(hcounts hl).transparent, countP_requested]

/-- What the items, the surplus and the change make of an empty builder. -/
theorem holds_of_addChange {b : Builder T} (hb : b = { b with
      network := i.network, targetHeight := i.targetHeight, inputs := [], outputs := [] })
    (hitems : addItems P pool i b = .ok l) (hsurplus : surplus i l = .ok change)
    (hchange : addChange P pool i l change = .ok (l', stamp)) : l'.Holds pool i change stamp := by
  have hgrows := addItems_grows hitems
  have hbalance := surplus_eq_ok hsurplus
  rw [hgrows.totalIn, hgrows.totalOut, Nat.zero_add, Nat.zero_add] at hbalance
  obtain ⟨pays, htakes, hspends, hreturns, hcounts⟩ :=
    addChange_returns hchange fun hl ↦ addItems_counts hl hitems
  have htotal := (addItems_spends hitems).trans hspends
  have houtputs := (hgrows.builder.trans htakes).outputs
  rw [hb] at htotal houtputs
  refine ⟨htotal.network, htotal.targetHeight, ?_, hbalance, pays, ?_, hreturns, hcounts⟩
  · simpa using htotal.inputs
  · simpa using houtputs

theorem layOut_holds {b : Builder T} {plan : Plan T} (hb : b = { b with
      network := i.network, targetHeight := i.targetHeight, inputs := [], outputs := [] })
    (h : layOut P pool i b = .ok plan) :
    plan.toLayout.Holds pool i plan.change plan.changeStamp := by
  obtain ⟨l, hitems, hsurplus, hchange⟩ := arrange_eq_ok (layOut_eq_ok h).1
  exact holds_of_addChange hb hitems hsurplus hchange

theorem planTransaction_holds {plan : Plan T} (h : planTransaction P i = .ok plan) :
    plan.toLayout.Holds .orchard i plan.change plan.changeStamp := by
  obtain ⟨b, hb, hlay⟩ := exists_layOut_of_planTransaction h
  exact layOut_holds hb hlay

theorem planIronwoodTransaction_holds {plan : Plan T}
    (h : planIronwoodTransaction P i = .ok plan) :
    plan.toLayout.Holds .ironwood i plan.change plan.changeStamp := by
  obtain ⟨b, hb, hlay⟩ := exists_layOut_of_planIronwoodTransaction h
  exact layOut_holds hb hlay

end Final

end LedgerZcash
