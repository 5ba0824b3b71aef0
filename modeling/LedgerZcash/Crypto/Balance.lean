import LedgerZcash.Crypto.Craft

/-!
# Value conservation and change

A `Payment` is what a recipient gets: an address in a pool, a value and a memo.  The
builders hand over one payment for each requested output, in order and unmodified, and
one more exactly when the inputs exceed the outputs and the fee.
-/

namespace LedgerZcash

open Hex Collect

/-! ## Payments -/

section Payments

variable {Path : Type} (T : CraftTypes Path)

/-- What an output pays to whom.  A transparent payment has no pool and no memo. -/
structure Payment where
  pool : Option Pool
  recipient : Destination T
  value : Nat
  memo : Option (List UInt8)

variable {T}

/-- The payment that a request asks for, on the builder of a pool. -/
def OutputRequest.payment (pool : Pool) (out : OutputRequest T) : Payment T :=
  match out.destination with
  | .shielded addr => ⟨some pool, .shielded addr, out.value, some (memoBytes out.memo)⟩
  | .transparent addr => ⟨none, .transparent addr, out.value, none⟩

/-- The payment that an output of the builder makes. -/
def BuilderOutput.payment : BuilderOutput T → Payment T
  | .shielded pool _ recipient value memo =>
      ⟨some pool, .shielded recipient, value, some memo.1⟩
  | .orchardChange _ _ recipient value memo =>
      ⟨some .orchard, .shielded recipient, value, some memo.1⟩
  | .transparent recipient value => ⟨none, .transparent recipient, value, none⟩

/-- An output that came through the Orchard change call. -/
def BuilderOutput.isOrchardChange : BuilderOutput T → Bool
  | .orchardChange .. => true
  | _ => false

/-- The value of an input of the builder. -/
def BuilderInput.value : BuilderInput T → Nat
  | .shielded _ _ note _ => note.value
  | .transparent _ _ _ value _ => value

namespace BuildInputs

variable (i : BuildInputs T)

/-- The values of what is spent: notes first. -/
def inputValues : List Nat :=
  i.spends.map SpendInput.value ++ i.transparentInputs.map TransparentInput.value

/-- The requested payments. -/
def requested (pool : Pool) : List (Payment T) := i.outputs.map (OutputRequest.payment pool)

/-- The payment that returns `amount` on a route: to the shielded change address, or to the
caller's transparent one. -/
def Returns (pool : Pool) (shielded : Bool) (amount : Nat) (pay : Payment T) : Prop :=
  match shielded with
  | true => ∃ addr, i.changeAddress = some addr ∧
      pay = ⟨some pool, .shielded addr, amount, some (memoBytes none)⟩
  | false => ∃ addr, i.transparentChangeAddress = some addr ∧
      pay = ⟨none, .transparent addr, amount, none⟩

/-- The payments that return a surplus: none of zero, one of anything more. -/
def ReturnsSurplus (pool : Pool) (shielded : Bool) (amount : Nat) (pays : List (Payment T)) :
    Prop :=
  (amount = 0 ∧ pays = []) ∨
    (0 < amount ∧ ∃ pay, pays = [pay] ∧ i.Returns pool shielded amount pay)

/-- Change is shielded exactly when a note is spent. -/
def RoutesChange (shielded : Bool) : Prop := shielded = true ↔ i.spends ≠ []

end BuildInputs

theorem OutputRequest.payment_value (pool : Pool) (out : OutputRequest T) :
    (out.payment pool).value = out.value := by
  unfold OutputRequest.payment
  split <;> rfl

theorem map_value_requested (i : BuildInputs T) (pool : Pool) :
    (i.requested pool).map Payment.value = i.outputs.map OutputRequest.value := by
  rw [BuildInputs.requested, List.map_map]
  exact List.map_congr_left fun out _ ↦ OutputRequest.payment_value pool out

end Payments

variable {Path : Type} {T : CraftTypes Path} {P : CraftUpstream T}

/-! ## What one call adds -/

/-- A builder takes inputs of the given values and outputs with the given payments. -/
structure Builder.Takes (b b' : Builder T) (ins : List Nat) (pays : List (Payment T)) : Prop where
  inputs : b'.inputs.map BuilderInput.value = b.inputs.map BuilderInput.value ++ ins
  outputs : b'.outputs.map BuilderOutput.payment = b.outputs.map BuilderOutput.payment ++ pays

namespace Builder.Takes

variable {b b' b'' : Builder T} {ins ins' : List Nat} {pays pays' : List (Payment T)}

theorem refl (b : Builder T) : b.Takes b [] [] := ⟨by simp, by simp⟩

theorem trans (h : b.Takes b' ins pays) (h' : b'.Takes b'' ins' pays') :
    b.Takes b'' (ins ++ ins') (pays ++ pays') where
  inputs := by rw [h'.inputs, h.inputs, List.append_assoc]
  outputs := by rw [h'.outputs, h.outputs, List.append_assoc]

end Builder.Takes

section Calls

variable {b b' : Builder T} {pool : Pool}

theorem takes_of_pushInput {x : BuilderInput T} {method : String}
    (h : pushInput P b x method = .ok b') : b.Takes b' [x.value] [] := by
  obtain ⟨_, _, h⟩ := bind_eq_ok.mp h
  cases pure_eq_ok.mp h
  exact ⟨by simp, by simp⟩

theorem takes_of_pushOutput {x : BuilderOutput T} {method : String}
    (h : pushOutput P b x method = .ok b') : b.Takes b' [] [x.payment] := by
  obtain ⟨_, _, h⟩ := bind_eq_ok.mp h
  cases pure_eq_ok.mp h
  exact ⟨by simp, by simp⟩

theorem zatoshis_eq_ok {what : String} {value v : Nat} :
    zatoshis P what value = .ok v ↔ v = value ∧ value ≤ maxMoney := by
  unfold zatoshis
  split
  · rename_i h
    simp [h, eq_comm]
  · rename_i h
    simp [h]

theorem encodeMemo_eq_ok {memo : Option (List UInt8)} {m : MemoBytes}
    (h : encodeMemo P memo = .ok m) : m.1 = memoBytes memo := by
  cases memo with
  | none =>
      cases h
      rfl
  | some bytes =>
      rw [encodeMemo] at h
      split at h
      · cases h
        rfl
      · cases h

theorem noteOfSpend_value {spend : SpendInput Path} {note : NoteParts T}
    (h : noteOfSpend P pool spend = .ok note) : note.value = spend.value := by
  unfold noteOfSpend at h
  obtain ⟨recipient, _, h⟩ := bind_eq_ok.mp h
  obtain ⟨_, _, h⟩ := bind_eq_ok.mp h
  obtain ⟨_, _, h⟩ := bind_eq_ok.mp h
  obtain ⟨_, _, h⟩ := bind_eq_ok.mp h
  cases pure_eq_ok.mp h
  rfl

theorem addShieldedSpend_takes {fvk : T.Fvk} {spend : SpendInput Path}
    (h : addShieldedSpend P pool b fvk spend = .ok b') : b.Takes b' [spend.value] [] := by
  obtain ⟨note, hnote, h⟩ := bind_eq_ok.mp h
  rw [← noteOfSpend_value hnote]
  exact takes_of_pushInput h

/-- The input that a transparent input is handed to the builder as. -/
theorem addTransparentInput_eq_ok {tin : TransparentInput}
    (h : addTransparentInput P b tin = .ok b') :
    ∃ pubkey script, pushInput P b (.transparent pubkey tin.txid tin.vout tin.value script)
      "add_transparent_p2pkh_input" = .ok b' := by
  unfold addTransparentInput at h
  obtain ⟨pubkey, _, h⟩ := bind_eq_ok.mp h
  obtain ⟨value, hvalue, h⟩ := bind_eq_ok.mp h
  obtain ⟨_, _, h⟩ := bind_eq_ok.mp h
  obtain ⟨script, _, h⟩ := bind_eq_ok.mp h
  obtain ⟨rfl, _⟩ := zatoshis_eq_ok.mp hvalue
  exact ⟨pubkey, script, h⟩

theorem addTransparentInput_takes {tin : TransparentInput}
    (h : addTransparentInput P b tin = .ok b') : b.Takes b' [tin.value] [] := by
  obtain ⟨pubkey, script, hpush⟩ := addTransparentInput_eq_ok h
  exact takes_of_pushInput hpush

/-- A requested output is handed to the builder as one that pays it, and not as change. -/
theorem addPoolOutput_eq_ok {ovk : Option T.Ovk} {out : OutputRequest T}
    (h : addPoolOutput P pool b ovk out = .ok b') :
    ∃ x method, pushOutput P b x method = .ok b' ∧ x.payment = out.payment pool ∧
      x.isOrchardChange = false := by
  unfold addPoolOutput at h
  obtain ⟨value, hvalue, h⟩ := bind_eq_ok.mp h
  obtain ⟨rfl, _⟩ := zatoshis_eq_ok.mp hvalue
  unfold OutputRequest.payment
  cases hdest : out.destination with
  | shielded addr =>
      rw [hdest] at h
      obtain ⟨memo, hmemo, h⟩ := bind_eq_ok.mp h
      rw [← encodeMemo_eq_ok hmemo]
      exact ⟨_, _, h, rfl, rfl⟩
  | transparent addr =>
      rw [hdest] at h
      exact ⟨_, _, h, rfl, rfl⟩

theorem addPoolOutput_takes {ovk : Option T.Ovk} {out : OutputRequest T}
    (h : addPoolOutput P pool b ovk out = .ok b') : b.Takes b' [] [out.payment pool] := by
  obtain ⟨x, method, hpush, hpays, -⟩ := addPoolOutput_eq_ok h
  rw [← hpays]
  exact takes_of_pushOutput hpush

end Calls

/-! ## What the loops add -/

/-- A layout grows by inputs and requested outputs, and keeps their totals. -/
structure Layout.Grows (l l' : Layout T) (ins : List Nat) (pays : List (Payment T)) : Prop where
  builder : l.builder.Takes l'.builder ins pays
  totalIn : l'.totalIn = l.totalIn + ins.sum
  totalOut : l'.totalOut = l.totalOut + (pays.map Payment.value).sum

namespace Layout.Grows

variable {l l' l'' : Layout T} {ins ins' : List Nat} {pays pays' : List (Payment T)}

theorem refl (l : Layout T) : l.Grows l [] [] := ⟨.refl _, by simp, by simp⟩

theorem trans (h : l.Grows l' ins pays) (h' : l'.Grows l'' ins' pays') :
    l.Grows l'' (ins ++ ins') (pays ++ pays') where
  builder := h.builder.trans h'.builder
  totalIn := by rw [h'.totalIn, h.totalIn, List.sum_append, Nat.add_assoc]
  totalOut := by rw [h'.totalOut, h.totalOut, List.map_append, List.sum_append, Nat.add_assoc]

end Layout.Grows

section Loops

variable {l l' : Layout T} {pool : Pool}

/-- What a round over the spends does. -/
theorem addSpendStep_eq_ok {fvk : T.Fvk} {spend : SpendInput Path}
    (h : addSpendStep P pool fvk l spend = .ok l') :
    ∃ builder, addShieldedSpend P pool l.builder fvk spend = .ok builder ∧
      l.totalIn + spend.value < u64Size ∧
      l' = { l with builder, totalIn := l.totalIn + spend.value } := by
  unfold addSpendStep at h
  obtain ⟨builder, hbuilder, h⟩ := bind_eq_ok.mp h
  obtain ⟨totalIn, htotal, h⟩ := bind_eq_ok.mp h
  cases pure_eq_ok.mp h
  obtain ⟨rfl, hlt⟩ := addChecked_eq_ok.mp htotal
  exact ⟨builder, hbuilder, hlt, rfl⟩

/-- What a round over the transparent inputs does. -/
theorem addTransparentInputStep_eq_ok {tin : TransparentInput}
    (h : addTransparentInputStep P l tin = .ok l') :
    ∃ builder, addTransparentInput P l.builder tin = .ok builder ∧
      l.totalIn + tin.value < u64Size ∧
      l' = { l with builder, totalIn := l.totalIn + tin.value } := by
  unfold addTransparentInputStep at h
  obtain ⟨builder, hbuilder, h⟩ := bind_eq_ok.mp h
  obtain ⟨totalIn, htotal, h⟩ := bind_eq_ok.mp h
  cases pure_eq_ok.mp h
  obtain ⟨rfl, hlt⟩ := addChecked_eq_ok.mp htotal
  exact ⟨builder, hbuilder, hlt, rfl⟩

/-- What a round over the requested outputs does. -/
theorem addOutputStep_eq_ok {ovk : Option T.Ovk} {out : OutputRequest T}
    (h : addOutputStep P pool ovk l out = .ok l') :
    ∃ builder, addPoolOutput P pool l.builder ovk out = .ok builder ∧
      l.totalOut + out.value < u64Size ∧
      l' = Layout.count { l with builder, totalOut := l.totalOut + out.value }
        out.destination.isShielded := by
  unfold addOutputStep at h
  obtain ⟨builder, hbuilder, h⟩ := bind_eq_ok.mp h
  obtain ⟨totalOut, htotal, h⟩ := bind_eq_ok.mp h
  cases pure_eq_ok.mp h
  obtain ⟨rfl, hlt⟩ := addChecked_eq_ok.mp htotal
  exact ⟨builder, hbuilder, hlt, rfl⟩

theorem addSpendStep_grows {fvk : T.Fvk} {spend : SpendInput Path}
    (h : addSpendStep P pool fvk l spend = .ok l') : l.Grows l' [spend.value] [] := by
  obtain ⟨builder, hbuilder, _, rfl⟩ := addSpendStep_eq_ok h
  exact ⟨addShieldedSpend_takes hbuilder, by simp, by simp⟩

theorem addTransparentInputStep_grows {tin : TransparentInput}
    (h : addTransparentInputStep P l tin = .ok l') : l.Grows l' [tin.value] [] := by
  obtain ⟨builder, hbuilder, _, rfl⟩ := addTransparentInputStep_eq_ok h
  exact ⟨addTransparentInput_takes hbuilder, by simp, by simp⟩

@[simp] theorem Layout.builder_count (l : Layout T) (s : Bool) :
    (l.count s).builder = l.builder := by
  cases s <;> rfl

@[simp] theorem Layout.totalIn_count (l : Layout T) (s : Bool) :
    (l.count s).totalIn = l.totalIn := by
  cases s <;> rfl

@[simp] theorem Layout.totalOut_count (l : Layout T) (s : Bool) :
    (l.count s).totalOut = l.totalOut := by
  cases s <;> rfl

theorem addOutputStep_grows {ovk : Option T.Ovk} {out : OutputRequest T}
    (h : addOutputStep P pool ovk l out = .ok l') : l.Grows l' [] [out.payment pool] := by
  obtain ⟨builder, hbuilder, _, rfl⟩ := addOutputStep_eq_ok h
  refine ⟨?_, by simp, by simp [OutputRequest.payment_value]⟩
  rw [Layout.builder_count]
  exact addPoolOutput_takes hbuilder

/-- The loop over items each of which adds one input. -/
theorem grows_of_inputs {α : Type} {step : Layout T → α → Except Error (Layout T)} {value : α → Nat}
    (hstep : ∀ l a l', step l a = .ok l' → l.Grows l' [value a] []) {items : List α}
    (h : items.foldlM step l = .ok l') : l.Grows l' (items.map value) [] := by
  refine foldlM_induction (P := fun done l' ↦ l.Grows l' (done.map value) []) h (.refl l) ?_
  intro done a t t' ht ha
  rw [List.map_append]
  exact ht.trans (hstep t a t' ha)

theorem addSpends_grows {fvk : Option T.Fvk} {spends : List (SpendInput Path)}
    (h : addSpends P pool fvk spends l = .ok l') :
    l.Grows l' (spends.map SpendInput.value) [] := by
  unfold addSpends at h
  split at h
  · rename_i hempty
    cases pure_eq_ok.mp h
    rw [List.isEmpty_iff.mp hempty]
    exact .refl l
  · obtain ⟨fvk, _, h⟩ := bind_eq_ok.mp h
    exact grows_of_inputs (fun _ _ _ ↦ addSpendStep_grows) h

theorem addOutputs_grows {ovk : Option T.Ovk} {outs : List (OutputRequest T)}
    (h : outs.foldlM (addOutputStep P pool ovk) l = .ok l') :
    l.Grows l' [] (outs.map (OutputRequest.payment pool)) := by
  refine foldlM_induction
    (P := fun done l' ↦ l.Grows l' [] (done.map (OutputRequest.payment pool))) h (.refl l) ?_
  intro done a t t' ht ha
  rw [List.map_append]
  exact ht.trans (addOutputStep_grows ha)

/-- What every round keeps of a layout, the loops over the items keep. -/
theorem addItems_induction {Q : Layout T → Prop} {i : BuildInputs T} {b : Builder T}
    (hstart : Q ⟨b, 0, 0, 0, 0⟩)
    (hspend : ∀ fvk l spend l', Q l → addSpendStep P pool fvk l spend = .ok l' → Q l')
    (hinput : ∀ l tin l', Q l → addTransparentInputStep P l tin = .ok l' → Q l')
    (houtput : ∀ l out l', Q l → addOutputStep P pool i.ovk l out = .ok l' → Q l')
    (h : addItems P pool i b = .ok l) : Q l := by
  unfold addItems at h
  obtain ⟨l₁, hspends, h⟩ := bind_eq_ok.mp h
  obtain ⟨l₂, hinputs, houtputs⟩ := bind_eq_ok.mp h
  have h₁ : Q l₁ := by
    unfold addSpends at hspends
    split at hspends
    · cases pure_eq_ok.mp hspends
      exact hstart
    · obtain ⟨fvk, _, hspends⟩ := bind_eq_ok.mp hspends
      exact foldlM_induction (P := fun _ ↦ Q) hspends hstart fun _ a t t' ↦ hspend fvk t a t'
  have h₂ : Q l₂ :=
    foldlM_induction (P := fun _ ↦ Q) hinputs h₁ fun _ a t t' ↦ hinput t a t'
  exact foldlM_induction (P := fun _ ↦ Q) houtputs h₂ fun _ a t t' ↦ houtput t a t'

theorem addItems_grows {i : BuildInputs T} {b : Builder T} (h : addItems P pool i b = .ok l') :
    Layout.Grows ⟨b, 0, 0, 0, 0⟩ l' i.inputValues (i.requested pool) := by
  unfold addItems at h
  obtain ⟨l₁, hspends, h⟩ := bind_eq_ok.mp h
  obtain ⟨l₂, hinputs, h⟩ := bind_eq_ok.mp h
  have h₁ := addSpends_grows hspends
  have h₂ := grows_of_inputs (fun l a l' h ↦ @addTransparentInputStep_grows _ _ P l l' a h) hinputs
  rw [BuildInputs.inputValues, BuildInputs.requested]
  simpa only [List.append_nil, List.nil_append] using (h₁.trans h₂).trans (addOutputs_grows h)

end Loops

/-! ## Change -/

section Change

variable {l l' : Layout T} {pool : Pool} {i : BuildInputs T} {change : Nat}

theorem surplus_eq_ok (h : surplus i l = .ok change) :
    l.totalIn = l.totalOut + change + i.fee := by
  unfold surplus at h
  obtain ⟨outflow, houtflow, h⟩ := bind_eq_ok.mp h
  obtain ⟨rfl, _⟩ := addChecked_eq_ok.mp houtflow
  obtain ⟨_, hlt, h⟩ := bind_eq_ok.mp h
  cases pure_eq_ok.mp h
  rw [refuseIf_eq_ok] at hlt
  omega

/-- Shielded change is one output to the change address; only Orchard has a call for it. -/
theorem addShieldedChange_eq_ok {b b' : Builder T}
    (h : addShieldedChange P pool i b change = .ok b') :
    ∃ addr x method, i.changeAddress = some addr ∧ pushOutput P b x method = .ok b' ∧
      x.payment = ⟨some pool, .shielded addr, change, some (memoBytes none)⟩ ∧
      x.isOrchardChange = decide (pool = .orchard) := by
  unfold addShieldedChange at h
  obtain ⟨addr, haddr, h⟩ := bind_eq_ok.mp h
  cases pool with
  | orchard =>
      obtain ⟨fvk, _, h⟩ := bind_eq_ok.mp h
      unfold addOrchardChange at h
      obtain ⟨_, hvalue, hpush⟩ := bind_eq_ok.mp h
      obtain ⟨rfl, _⟩ := zatoshis_eq_ok.mp hvalue
      exact ⟨addr, _, _, okOr_eq_ok.mp haddr, hpush, rfl, rfl⟩
  | ironwood =>
      obtain ⟨x, method, hpush, hpays, hplain⟩ := addPoolOutput_eq_ok h
      exact ⟨addr, x, method, okOr_eq_ok.mp haddr, hpush, hpays, hplain⟩

theorem addShieldedChange_takes {b b' : Builder T}
    (h : addShieldedChange P pool i b change = .ok b') :
    ∃ addr, i.changeAddress = some addr ∧
      b.Takes b' [] [⟨some pool, .shielded addr, change, some (memoBytes none)⟩] := by
  obtain ⟨addr, x, method, haddr, hpush, hpays, -⟩ := addShieldedChange_eq_ok h
  refine ⟨addr, haddr, ?_⟩
  rw [← hpays]
  exact takes_of_pushOutput hpush

/-- The route of the change, as far as the `u32` that counts the spends can tell. -/
theorem routesChange_asU32 (hlen : i.spends.length < u32Size) :
    i.RoutesChange (decide (0 < asU32 i.spends.length)) := by
  rw [BuildInputs.RoutesChange, asU32_of_lt hlen, decide_eq_true_iff, List.length_pos_iff]

variable (P) in
/-- What adding the change does to a layout: nothing, or one more output, shielded or
transparent with its stamp. -/
inductive AddsChange (pool : Pool) (i : BuildInputs T) (l : Layout T) (change : Nat) :
    Layout T → Option ChangeStamp → Prop
  | exact (hzero : ¬0 < change) : AddsChange pool i l change l none
  | shielded {builder : Builder T} (hpos : 0 < change) (hspends : 0 < asU32 i.spends.length)
      (hadd : addShieldedChange P pool i l.builder change = .ok builder) :
      AddsChange pool i l change (Layout.count { l with builder } true) none
  | transparent {builder : Builder T} {addr : T.TransparentAddress} {pubkey : Arr 33}
      {addressIndex : Nat} (hpos : 0 < change) (hspends : ¬0 < asU32 i.spends.length)
      (haddr : i.transparentChangeAddress = some addr)
      (hpubkey : i.transparentChangePubkey = some pubkey)
      (haddressIndex : i.transparentChangeAddressIndex = some addressIndex)
      (hadd : addPoolOutput P pool l.builder none
        { destination := .transparent addr, value := change, memo := none } = .ok builder) :
      AddsChange pool i l change (Layout.count { l with builder } false)
        (some ⟨l.nTransparentOutputs, pubkey, addressIndex⟩)

theorem addChange_eq_ok {stamp : Option ChangeStamp}
    (h : addChange P pool i l change = .ok (l', stamp)) :
    AddsChange P pool i l change l' stamp := by
  unfold addChange at h
  split at h
  · rename_i hpos
    split at h
    · rename_i hspends
      obtain ⟨builder, hbuilder, h⟩ := bind_eq_ok.mp h
      cases pure_eq_ok.mp h
      exact .shielded hpos hspends hbuilder
    · rename_i hspends
      obtain ⟨⟨builder, stamp⟩, hbuilder, h⟩ := bind_eq_ok.mp h
      cases pure_eq_ok.mp h
      unfold addTransparentChange at hbuilder
      obtain ⟨addr, haddr, hbuilder⟩ := bind_eq_ok.mp hbuilder
      obtain ⟨pubkey, hpubkey, hbuilder⟩ := bind_eq_ok.mp hbuilder
      obtain ⟨addressIndex, hindex, hbuilder⟩ := bind_eq_ok.mp hbuilder
      obtain ⟨builder', hpush, hbuilder⟩ := bind_eq_ok.mp hbuilder
      cases pure_eq_ok.mp hbuilder
      exact .transparent hpos hspends (okOr_eq_ok.mp haddr) (okOr_eq_ok.mp hpubkey)
        (okOr_eq_ok.mp hindex) hpush
  · rename_i hzero
    cases pure_eq_ok.mp h
    exact .exact hzero

/-- The change is one payment of the whole surplus, to the pool that funds it. -/
theorem addChange_takes {stamp : Option ChangeStamp}
    (h : addChange P pool i l change = .ok (l', stamp)) :
    ∃ pays, l.builder.Takes l'.builder [] pays ∧
      i.ReturnsSurplus pool (decide (0 < asU32 i.spends.length)) change pays := by
  cases addChange_eq_ok h with
  | exact hzero => exact ⟨[], .refl _, .inl ⟨Nat.eq_zero_of_not_pos hzero, rfl⟩⟩
  | shielded hpos hspends hadd =>
      obtain ⟨addr, haddr, htakes⟩ := addShieldedChange_takes hadd
      refine ⟨_, by rwa [Layout.builder_count], .inr ⟨hpos, _, rfl, ?_⟩⟩
      rw [decide_eq_true hspends]
      exact ⟨addr, haddr, rfl⟩
  | transparent hpos hspends haddr _ _ hadd =>
      refine ⟨_, by rw [Layout.builder_count]; exact addPoolOutput_takes hadd,
        .inr ⟨hpos, _, rfl, ?_⟩⟩
      rw [decide_eq_false hspends]
      exact ⟨_, haddr, rfl⟩

end Change

/-! ## Conservation -/

/-- A layout settles a request: every input enters at its value, every requested payment
is made, and the rest is the fee and the change.  The number of spends is narrowed to a
`u32` before it routes the change, and a caller's array is shorter than that. -/
structure Plan.Settles (p : Plan T) (pool : Pool) (i : BuildInputs T) : Prop where
  inputs : p.builder.inputs.map BuilderInput.value = i.inputValues
  balance : i.inputValues.sum = ((i.requested pool).map Payment.value).sum + p.change + i.fee
  outputs : ∃ pays shielded,
    p.builder.outputs.map BuilderOutput.payment = i.requested pool ++ pays ∧
      i.ReturnsSurplus pool shielded p.change pays ∧
      (i.spends.length < u32Size → i.RoutesChange shielded)

section Conservation

variable {pool : Pool} {i : BuildInputs T} {p : Plan T}

theorem arrange_eq_ok {b : Builder T} {l : Layout T} {change : Nat} {stamp : Option ChangeStamp}
    (h : arrange P pool i b = .ok (l, change, stamp)) :
    ∃ l₀, addItems P pool i b = .ok l₀ ∧ surplus i l₀ = .ok change ∧
      addChange P pool i l₀ change = .ok (l, stamp) := by
  obtain ⟨l₀, hitems, h⟩ := bind_eq_ok.mp h
  obtain ⟨c, hsurplus, h⟩ := bind_eq_ok.mp h
  obtain ⟨⟨l', s⟩, hchange, h⟩ := bind_eq_ok.mp h
  cases pure_eq_ok.mp h
  exact ⟨l₀, hitems, hsurplus, hchange⟩

/-- A layout is arranged, and its fee passes. -/
theorem layOut_eq_ok {b : Builder T} (h : layOut P pool i b = .ok p) :
    arrange P pool i b = .ok (p.toLayout, p.change, p.changeStamp) ∧
      validateFee P pool i p.toLayout p.change = .ok p.feeRule := by
  obtain ⟨⟨l, change, stamp⟩, harrange, h⟩ := bind_eq_ok.mp h
  obtain ⟨feeRule, hfee, h⟩ := bind_eq_ok.mp h
  cases pure_eq_ok.mp h
  exact ⟨harrange, hfee⟩

theorem layOut_settles {b : Builder T} (hin : b.inputs = []) (hout : b.outputs = [])
    (h : layOut P pool i b = .ok p) : p.Settles pool i := by
  obtain ⟨l, hitems, hsurplus, hchange⟩ := arrange_eq_ok (layOut_eq_ok h).1
  have hgrows := addItems_grows hitems
  have hbalance := surplus_eq_ok hsurplus
  rw [hgrows.totalIn, hgrows.totalOut, Nat.zero_add, Nat.zero_add] at hbalance
  obtain ⟨pays, htakes, hpays⟩ := addChange_takes hchange
  have htotal := hgrows.builder.trans htakes
  refine ⟨?_, hbalance, pays, _, ?_, hpays, routesChange_asU32⟩
  · simpa [hin] using htotal.inputs
  · simpa [hout] using htotal.outputs

/-- A plan is the layout of a builder that has no item yet. -/
theorem exists_layOut_of_planTransaction (h : planTransaction P i = .ok p) :
    ∃ b : Builder T, b = { b with
        network := i.network, targetHeight := i.targetHeight, inputs := [], outputs := [] } ∧
      layOut P .orchard i b = .ok p := by
  unfold planTransaction at h
  obtain ⟨_, _, h⟩ := bind_eq_ok.mp h
  obtain ⟨_, _, h⟩ := bind_eq_ok.mp h
  obtain ⟨anchor, _, h⟩ := bind_eq_ok.mp h
  obtain ⟨_, _, hlay⟩ := bind_eq_ok.mp h
  exact ⟨_, rfl, hlay⟩

theorem exists_layOut_of_planIronwoodTransaction (h : planIronwoodTransaction P i = .ok p) :
    ∃ b : Builder T, b = { b with
        network := i.network, targetHeight := i.targetHeight, inputs := [], outputs := [] } ∧
      layOut P .ironwood i b = .ok p := by
  unfold planIronwoodTransaction at h
  obtain ⟨_, _, h⟩ := bind_eq_ok.mp h
  obtain ⟨_, _, h⟩ := bind_eq_ok.mp h
  obtain ⟨_, _, h⟩ := bind_eq_ok.mp h
  obtain ⟨anchor, _, hlay⟩ := bind_eq_ok.mp h
  exact ⟨_, rfl, hlay⟩

theorem planTransaction_settles (h : planTransaction P i = .ok p) : p.Settles .orchard i := by
  obtain ⟨b, hb, hlay⟩ := exists_layOut_of_planTransaction h
  exact layOut_settles (by rw [hb]) (by rw [hb]) hlay

theorem planIronwoodTransaction_settles (h : planIronwoodTransaction P i = .ok p) :
    p.Settles .ironwood i := by
  obtain ⟨b, hb, hlay⟩ := exists_layOut_of_planIronwoodTransaction h
  exact layOut_settles (by rw [hb]) (by rw [hb]) hlay

end Conservation

/-! ## The roles -/

/-- What each role of a successful build has returned. -/
structure BuildStages (P : CraftUpstream T) (pool : Pool) (i : BuildInputs T) (hasBundle : Bool)
    (plan : Plan T) (out : BuildOutput) where
  parts : T.PcztParts
  expiry : Nat
  created : T.Pczt
  stamped : T.Pczt
  finalized : T.Pczt
  proved : T.Pczt
  signable : T.Pczt
  parts_eq : P.buildForPczt plan.builder plan.feeRule = .ok parts
  expiry_eq : capExpiryBelowNextActivation (i.network.activationHeight P.named) i.targetHeight
    (P.expiryHeight parts) = .ok expiry
  created_eq : P.createPczt (P.setExpiryHeight parts expiry) = some created
  stamped_eq : stampBundle P pool i hasBundle created = .ok stamped
  finalized_eq : P.finalizeIo stamped = .ok finalized
  proved_eq : prove P pool i.network i.targetHeight finalized = .ok proved
  signable_eq : stampTransparent P i plan.changeStamp proved = .ok signable
  pcztBytes_eq : encodePczt P pool signable = .ok out.pcztBytes
  fee_eq : out.fee = i.fee

theorem finish_eq_ok {pool : Pool} {i : BuildInputs T} {hasBundle : Bool} {plan : Plan T}
    {out : BuildOutput} (h : finish P pool i hasBundle plan = .ok out) :
    Nonempty (BuildStages P pool i hasBundle plan out) := by
  unfold finish at h
  obtain ⟨parts, hparts, h⟩ := bind_eq_ok.mp h
  obtain ⟨expiry, hexpiry, h⟩ := bind_eq_ok.mp h
  obtain ⟨created, hcreated, h⟩ := bind_eq_ok.mp h
  obtain ⟨stamped, hstamped, h⟩ := bind_eq_ok.mp h
  obtain ⟨finalized, hfinalized, h⟩ := bind_eq_ok.mp h
  obtain ⟨proved, hproved, h⟩ := bind_eq_ok.mp h
  obtain ⟨signable, hsignable, h⟩ := bind_eq_ok.mp h
  obtain ⟨bytes, hbytes, h⟩ := bind_eq_ok.mp h
  cases pure_eq_ok.mp h
  exact ⟨⟨parts, expiry, created, stamped, finalized, proved, signable, mapError_eq_ok.mp hparts,
    hexpiry, okOr_eq_ok.mp hcreated, hstamped, mapError_eq_ok.mp hfinalized, hproved, hsignable,
    hbytes, rfl⟩⟩

/-- Whenever either builder succeeds, the layout that the upstream builder was run on, and
that the output was finished from, settles the request. -/
theorem value_conserved (P : CraftUpstream T) (i : BuildInputs T) (out : BuildOutput) :
    (buildTransaction P i = .ok out → ∃ p parts, planTransaction P i = .ok p ∧
      P.buildForPczt p.builder p.feeRule = .ok parts ∧ p.Settles .orchard i ∧
      finish P .orchard i i.hasBundle p = .ok out ∧ out.fee = i.fee) ∧
    (buildIronwoodTransaction P i = .ok out → ∃ p parts, planIronwoodTransaction P i = .ok p ∧
      P.buildForPczt p.builder p.feeRule = .ok parts ∧ p.Settles .ironwood i ∧
      finish P .ironwood i true p = .ok out ∧ out.fee = i.fee) := by
  constructor
  · intro h
    obtain ⟨p, hplan, hfinish⟩ := bind_eq_ok.mp h
    obtain ⟨stages⟩ := finish_eq_ok hfinish
    exact ⟨p, stages.parts, hplan, stages.parts_eq, planTransaction_settles hplan, hfinish,
      stages.fee_eq⟩
  · intro h
    obtain ⟨p, hplan, hfinish⟩ := bind_eq_ok.mp h
    obtain ⟨stages⟩ := finish_eq_ok hfinish
    exact ⟨p, stages.parts, hplan, stages.parts_eq, planIronwoodTransaction_settles hplan,
      hfinish, stages.fee_eq⟩

/-! A payment of two outputs from a note and a transparent output, on either builder. -/

section Sample

/-- Numbers for addresses, nothing for keys. -/
def plainTypes (Path : Type) : CraftTypes Path where
  Fvk := Unit
  Ovk := Unit
  OrchardAddress := Nat
  TransparentAddress := Nat
  PublicKey := Unit
  Script := Unit
  Anchor := Unit
  PcztParts := Nat
  Pczt := Nat

/-- The upstream crates as far as values go: everything is taken, and a fee is that of
the items in the builder. -/
def permissive (Path : Type) : CraftUpstream (plainTypes Path) where
  named _ _ := some 1
  branchForHeight _ _ := some .nu6_3
  bundleCircuit _ := some .postNu6_3
  zatoshisOverflow := "overflow"
  memoTooLong _ := "too long"
  validMarginalFee _ := true
  orchardAddress bytes := some bytes.1.length
  validRho _ := true
  validRseed _ _ := true
  validNote _ := true
  publicKey _ := .ok ()
  readScript _ := .ok ()
  anchorFromBytes _ := some ()
  emptyTreeAnchor := ()
  proposeV5 _ := .ok ()
  takesInput _ _ := .ok ()
  takesOutput _ _ := .ok ()
  getFee b rule :=
    let notes := b.inputs.countP fun x ↦ x matches .shielded ..
    let transparentOuts := b.outputs.countP fun x ↦ x matches .transparent ..
    .ok (layoutFee rule.marginalFee notes (b.outputs.length - transparentOuts)
      (b.inputs.length - notes) transparentOuts)
  buildForPczt b _ := .ok (b.targetHeight + 40)
  partsActions _ _ := some 2
  expiryHeight parts := parts
  setExpiryHeight _ height := height
  createPczt parts := some parts
  openBundle _ _ := .ok ()
  bundleActions _ _ := 2
  validZip32 _ := true
  setSpendDerivation _ pczt _ _ := .ok pczt
  parseBip32 _ := .ok ()
  setInputDerivation pczt _ _ _ := .ok pczt
  setOutputDerivation pczt _ _ _ := .ok pczt
  finalizeIo pczt := .ok pczt
  requiresProof _ _ := false
  createProof _ _ pczt := .ok pczt
  redactActions _ _ pczt := pczt
  serializeV1 _ := .ok []
  serializeV2 _ := .ok []

/-- 51 000 in, 27 000 out and a fee of three actions: the change is 21 000. -/
def samplePayment : BuildInputs (plainTypes Unit) where
  network := .named .testNetwork
  targetHeight := 10
  anchorHeight := 1
  fvk := some ()
  ovk := some ()
  changeAddress := some (7 : Nat)
  transparentChangeAddress := none
  transparentChangePubkey := none
  transparentChangeAddressIndex := none
  anchor := fill 32 1
  seedFingerprint := fill 32 2
  accountIndex := 0
  fee := 3000
  spends := [⟨fill 43 0, 50000, fill 32 0, fill 32 0, ()⟩]
  transparentInputs := [⟨fill 33 2, fill 32 3, 0, [], 1000, 0, 0⟩]
  outputs := [⟨.shielded (5 : Nat), 20000, some [104, 105]⟩, ⟨.transparent (6 : Nat), 7000, none⟩]

def paymentOutput : BuildOutput := ⟨[], 3000, 1, 2, 1, 1, 0⟩

def ironwoodPaymentOutput : BuildOutput := ⟨[], 3000, 1, 0, 1, 1, 2⟩

theorem value_conserved_sample :
    (∃ p parts, planTransaction (permissive Unit) samplePayment = .ok p ∧
      (permissive Unit).buildForPczt p.builder p.feeRule = .ok parts ∧
      p.Settles .orchard samplePayment ∧
      finish (permissive Unit) .orchard samplePayment true p = .ok paymentOutput ∧
      paymentOutput.fee = 3000) ∧
    (∃ p parts, planIronwoodTransaction (permissive Unit) samplePayment = .ok p ∧
      (permissive Unit).buildForPczt p.builder p.feeRule = .ok parts ∧
      p.Settles .ironwood samplePayment ∧
      finish (permissive Unit) .ironwood samplePayment true p = .ok ironwoodPaymentOutput ∧
      ironwoodPaymentOutput.fee = 3000) :=
  ⟨(value_conserved _ samplePayment paymentOutput).1 (by decide +kernel),
    (value_conserved _ samplePayment ironwoodPaymentOutput).2 (by decide +kernel)⟩

end Sample

end LedgerZcash
