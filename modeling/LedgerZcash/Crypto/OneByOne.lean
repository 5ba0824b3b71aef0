import LedgerZcash.Crypto.TrialDecrypt

/-!
# Trial decryption, one output at a time

The upstream batch takes all keys of a pool at once and answers with the first that
decrypts.  Assuming it tries each key (`BatchDecryption.TriesEach`), the answer of
`trialDecryptBlock` is that of the plain search (`Owned`): some well-formed output of the
transaction, described by its own bytes, one pool, one of the account's two keys.  What is
malformed plays no part.
-/

namespace LedgerZcash

open Hex Collect

/-! ## One key, one output -/

namespace BatchDecryption

variable {Ivk Output : Type}

/-- The output decrypts under this key alone. -/
def Decrypts (D : BatchDecryption Ivk Output) (ivk : Ivk) (out : Output) : Prop :=
  (D.single [ivk] out).isSome

/-- A list of keys decrypts an output when one of them does. -/
def TriesEach (D : BatchDecryption Ivk Output) : Prop :=
  ∀ ivks out, (D.single ivks out).isSome ↔ ∃ ivk ∈ ivks, D.Decrypts ivk out

/-- The batch that tries the keys in turn. -/
def ofKey (opens : Ivk → Output → Bool) : BatchDecryption Ivk Output where
  single ivks out := ivks.findIdx? (opens · out)
  batch ivks outs := outs.map fun out ↦ ivks.findIdx? (opens · out)
  batch_eq _ _ := rfl

theorem decrypts_ofKey {opens : Ivk → Output → Bool} {ivk : Ivk} {out : Output} :
    (ofKey opens).Decrypts ivk out ↔ opens ivk out = true := by
  show (List.findIdx? (opens · out) [ivk]).isSome = true ↔ _
  simp

theorem triesEach_ofKey (opens : Ivk → Output → Bool) : (ofKey opens).TriesEach := by
  intro ivks out
  simp only [decrypts_ofKey]
  show (List.findIdx? (opens · out) ivks).isSome = true ↔ _
  simp

end BatchDecryption

/-! ## Well-formed outputs -/

section WellFormed

variable (U : NoteCrypto)

/-- The lengths the parser asks for, and a commitment that is a field element. -/
def CompactSaplingOutput.WellFormed (output : CompactSaplingOutput) : Prop :=
  (∃ h : output.cmu.length = 32, U.validCmu ⟨output.cmu, h⟩) ∧
    output.ephemeralKey.length = 32 ∧ output.ciphertext.length = compactNoteSize

/-- As for Sapling; the nullifier may be anything. -/
def CompactOrchardAction.WellFormed (action : CompactOrchardAction) : Prop :=
  (∃ h : action.cmx.length = 32, U.validCmx ⟨action.cmx, h⟩) ∧
    action.ephemeralKey.length = 32 ∧ action.ciphertext.length = compactNoteSize

instance (output : CompactSaplingOutput) : Decidable (output.WellFormed U) :=
  inferInstanceAs (Decidable ((∃ _, _) ∧ _ ∧ _))

instance (action : CompactOrchardAction) : Decidable (action.WellFormed U) :=
  inferInstanceAs (Decidable ((∃ _, _) ∧ _ ∧ _))

variable {U}

/-- A well-formed output is described by its own bytes. -/
def CompactSaplingOutput.description (output : CompactSaplingOutput) (h : output.WellFormed U) :
    CompactOutputDescription :=
  ⟨⟨output.cmu, h.1.fst⟩, ⟨output.ephemeralKey, h.2.1⟩, ⟨output.ciphertext, h.2.2⟩⟩

variable (U) in
/-- The nullifier an action reveals, when its bytes are one; otherwise zero. -/
def CompactOrchardAction.nullifier (action : CompactOrchardAction) : Bytes32 :=
  if h : ∃ h : action.nf.length = 32, U.validNullifier ⟨action.nf, h⟩ then ⟨action.nf, h.fst⟩
  else fill 32 0

def CompactOrchardAction.description (action : CompactOrchardAction) (h : action.WellFormed U) :
    CompactAction :=
  ⟨action.nullifier U, ⟨action.cmx, h.1.fst⟩, ⟨action.ephemeralKey, h.2.1⟩,
    ⟨action.ciphertext, h.2.2⟩⟩

theorem parseField_eq_ok {field : String} {n : Nat} {bs : List UInt8} {a : Arr n} :
    parseField field n bs = .ok a ↔ bs = a.1 := by
  rw [← Arr.tryFrom_eq_some, parseField]
  cases Arr.tryFrom n bs <;> simp

/-- The common shape of the two parsers: three fields, then the commitment. -/
theorem parseFields_eq_ok {γ : Type} {f₁ f₂ f₃ : String} {cm ek ct : List UInt8}
    {valid : Bytes32 → Bool} {parsed : Bytes32 → Bytes32 → Arr compactNoteSize → γ} {err : Error}
    {c : γ} :
    (do
      let cm ← parseField f₁ 32 cm
      let ek ← parseField f₂ 32 ek
      let ct ← parseField f₃ compactNoteSize ct
      if valid cm then pure (parsed cm ek ct) else throw err) = .ok c ↔
      ∃ h : (∃ h : cm.length = 32, valid ⟨cm, h⟩) ∧ ek.length = 32 ∧ ct.length = compactNoteSize,
        c = parsed ⟨cm, h.1.fst⟩ ⟨ek, h.2.1⟩ ⟨ct, h.2.2⟩ := by
  simp only [bind_eq_ok, parseField_eq_ok]
  constructor
  · rintro ⟨⟨cm, hcm⟩, rfl, ⟨ek, hek⟩, rfl, ⟨ct, hct⟩, rfl, h⟩
    by_cases hvalid : valid ⟨cm, hcm⟩
    · rw [if_pos hvalid] at h
      exact ⟨⟨⟨hcm, hvalid⟩, hek, hct⟩, (pure_eq_ok.mp h).symm⟩
    · rw [if_neg hvalid] at h
      cases h
  · rintro ⟨⟨⟨hcm, hvalid⟩, hek, hct⟩, rfl⟩
    refine ⟨⟨cm, hcm⟩, rfl, ⟨ek, hek⟩, rfl, ⟨ct, hct⟩, rfl, ?_⟩
    rw [if_pos hvalid]
    rfl

/-- The parser accepts the well-formed outputs, and only them, with their own bytes. -/
theorem parseCompactSaplingOutput_eq_ok {output : CompactSaplingOutput}
    {d : CompactOutputDescription} : parseCompactSaplingOutput U output = .ok d ↔
      ∃ h : output.WellFormed U, d = output.description h :=
  parseFields_eq_ok

/-- What the parser makes of the nullifier's bytes. -/
theorem CompactOrchardAction.nullifier_eq (action : CompactOrchardAction) :
    action.nullifier U =
      if U.validNullifier ((Arr.tryFrom 32 action.nf).getD (fill 32 0)) then
        (Arr.tryFrom 32 action.nf).getD (fill 32 0)
      else fill 32 0 := by
  unfold nullifier Arr.tryFrom
  by_cases hlen : action.nf.length = 32
  · simp only [dif_pos hlen, Option.getD_some, exists_prop_of_true hlen]
    split <;> rfl
  · simp only [hlen, exists_prop_of_false, not_false_eq_true, dif_neg, Option.getD_none, ite_self]

theorem parseCompactOrchardAction_eq_ok {action : CompactOrchardAction} {a : CompactAction} :
    parseCompactOrchardAction U action = .ok a ↔
      ∃ h : action.WellFormed U, a = action.description h := by
  unfold parseCompactOrchardAction
  simp only [← CompactOrchardAction.nullifier_eq]
  exact parseFields_eq_ok

theorem isOk_iff_of_eq_ok {ε β : Type} {x : Except ε β} {p : Prop} {f : p → β}
    (h : ∀ b, x = .ok b ↔ ∃ hp : p, b = f hp) : x.isOk ↔ p := by
  constructor
  · intro hx
    obtain ⟨b, hb⟩ := exists_ok_of_isOk hx
    exact ((h b).mp hb).fst
  · intro hp
    rw [(h (f hp)).mpr ⟨hp, rfl⟩]
    rfl

theorem parseCompactSaplingOutput_isOk {output : CompactSaplingOutput} :
    (parseCompactSaplingOutput U output).isOk ↔ output.WellFormed U :=
  isOk_iff_of_eq_ok fun _ ↦ parseCompactSaplingOutput_eq_ok

theorem parseCompactOrchardAction_isOk {action : CompactOrchardAction} :
    (parseCompactOrchardAction U action).isOk ↔ action.WellFormed U :=
  isOk_iff_of_eq_ok fun _ ↦ parseCompactOrchardAction_eq_ok

end WellFormed

/-! ## Malformed outputs play no part -/

section Filtered

variable {α β : Type} {parse : α → Except Error β} {single : β → Option Nat}

theorem hits_filter {wellFormed : α → Prop} [DecidablePred wellFormed]
    (h : ∀ o, (parse o).isOk ↔ wellFormed o) (outputs : List α) :
    hits parse single (outputs.filter (wellFormed ·)) = hits parse single outputs := by
  rw [Bool.eq_iff_iff, hits_eq_true, hits_eq_true]
  refine exists_congr fun o ↦ ?_
  rw [List.mem_filter, decide_eq_true_iff, and_assoc]
  refine and_congr_right fun _ ↦ and_iff_right_of_imp ?_
  rintro ⟨b, hb, -⟩
  refine (h o).mp ?_
  rw [hb]
  rfl

end Filtered

section Block

variable (U : NoteCrypto)

/-- The transaction without its malformed outputs. -/
def wellFormedPart (tx : CompactTransaction) : CompactTransaction where
  txid := tx.txid
  saplingOutputs := tx.saplingOutputs.filter (CompactSaplingOutput.WellFormed U ·)
  orchardActions := tx.orchardActions.filter (CompactOrchardAction.WellFormed U ·)
  ironwoodActions := tx.ironwoodActions.filter (CompactOrchardAction.WellFormed U ·)

variable {U} {ivks : PreparedIvks U} {zip212 : Zip212Enforcement}

theorem trialMatches_wellFormedPart (tx : CompactTransaction) :
    trialMatches U ivks zip212 (wellFormedPart U tx) = trialMatches U ivks zip212 tx := by
  simp only [trialMatches, saplingHits, orchardHits, ironwoodHits, wellFormedPart,
    hits_filter fun _ ↦ parseCompactSaplingOutput_isOk,
    hits_filter fun _ ↦ parseCompactOrchardAction_isOk]

theorem trialDecryptBlock_wellFormedPart (threads : Nat) (txs : List CompactTransaction)
    (height : Nat) (network : Network) :
    trialDecryptBlock U threads (txs.map (wellFormedPart U)) ivks height network =
      trialDecryptBlock U threads txs ivks height network := by
  rw [trialDecryptBlock_eq, trialDecryptBlock_eq, List.filter_map, List.map_map]
  have hmatch : trialMatches U ivks (zip212Enforcement network height) ∘ wellFormedPart U =
      trialMatches U ivks (zip212Enforcement network height) := by
    funext tx
    exact trialMatches_wellFormedPart tx
  rw [hmatch]
  rfl

/-! ## The account's transactions -/

/-- Some well-formed output decrypts, as its own bytes describe it, under the external or the
internal key of its pool. -/
inductive Owned (U : NoteCrypto) (ufvk : U.Ufvk) (zip212 : Zip212Enforcement)
    (tx : CompactTransaction) : Prop
  | sapling {o : CompactSaplingOutput} {toIvk : Scope → U.SaplingIvk} (scope : Scope)
      (ho : o ∈ tx.saplingOutputs) (hwf : o.WellFormed U) (hivk : U.saplingIvk ufvk = some toIvk)
      (h : U.saplingBatch.Decrypts (toIvk scope) (zip212, o.description hwf)) :
      Owned U ufvk zip212 tx
  | orchard {o : CompactOrchardAction} {fvk : U.OrchardFvk} (scope : Scope)
      (ho : o ∈ tx.orchardActions) (hwf : o.WellFormed U) (hfvk : U.orchard ufvk = some fvk)
      (h : U.orchardBatch.Decrypts (U.orchardIvk fvk scope) (o.description hwf)) :
      Owned U ufvk zip212 tx
  | ironwood {o : CompactOrchardAction} {fvk : U.OrchardFvk} (scope : Scope)
      (ho : o ∈ tx.ironwoodActions) (hwf : o.WellFormed U) (hfvk : U.orchard ufvk = some fvk)
      (h : U.ironwoodBatch.Decrypts (U.orchardIvk fvk scope) (o.description hwf)) :
      Owned U ufvk zip212 tx

variable {ufvk : U.Ufvk}

theorem exists_scope {α : Type} {f : Scope → α} {a : α} :
    (∃ scope, f scope = a) ↔ a = f .external ∨ a = f .internal := by
  constructor
  · rintro ⟨scope, rfl⟩
    cases scope with
    | external => exact .inl rfl
    | internal => exact .inr rfl
  · rintro (rfl | rfl)
    · exact ⟨.external, rfl⟩
    · exact ⟨.internal, rfl⟩

theorem mem_saplingKeys {ivk : U.SaplingIvk} :
    ivk ∈ (prepareIvksOf U ufvk).sapling.map Prod.fst ↔
      ∃ toIvk, U.saplingIvk ufvk = some toIvk ∧ ∃ scope, toIvk scope = ivk := by
  rw [prepareIvksOf]
  cases U.saplingIvk ufvk with
  | none => simp
  | some toIvk => simp [exists_scope]

theorem mem_orchardKeys {ivk : U.OrchardIvk} :
    ivk ∈ (prepareIvksOf U ufvk).orchard.map Prod.fst ↔
      ∃ fvk, U.orchard ufvk = some fvk ∧ ∃ scope, U.orchardIvk fvk scope = ivk := by
  rw [prepareIvksOf]
  cases U.orchard ufvk with
  | none => simp
  | some fvk => simp [exists_scope]

/-- What a pool's hit is, when the batch tries each key. -/
theorem hits_iff_decrypts {α Ivk Parsed : Type} {parse : α → Except Error Parsed}
    {single : Parsed → Option Nat} {ivks : List Ivk} {decrypts : Ivk → Parsed → Prop}
    {outputs : List α} (h : ∀ b, (single b).isSome ↔ ∃ ivk ∈ ivks, decrypts ivk b) :
    hits parse single outputs = true ↔
      ∃ ivk ∈ ivks, ∃ o ∈ outputs, ∃ b, parse o = .ok b ∧ decrypts ivk b := by
  rw [hits_eq_true]
  constructor
  · rintro ⟨o, ho, b, hb, hsome⟩
    obtain ⟨ivk, hivk, hdec⟩ := (h b).mp hsome
    exact ⟨ivk, hivk, o, ho, b, hb, hdec⟩
  · rintro ⟨ivk, hivk, o, ho, b, hb, hdec⟩
    exact ⟨o, ho, b, hb, (h b).mpr ⟨ivk, hivk, hdec⟩⟩

theorem trialMatches_iff_owned (hs : U.saplingBatch.TriesEach) (ho : U.orchardBatch.TriesEach)
    (hi : U.ironwoodBatch.TriesEach) {tx : CompactTransaction} :
    trialMatches U (prepareIvksOf U ufvk) zip212 tx = true ↔ Owned U ufvk zip212 tx := by
  rw [trialMatches, Bool.or_eq_true, Bool.or_eq_true, saplingHits, orchardHits, ironwoodHits,
    hits_iff_decrypts fun d ↦ hs _ (zip212, d), hits_iff_decrypts (ho _),
    hits_iff_decrypts (hi _)]
  simp only [parseCompactSaplingOutput_eq_ok, parseCompactOrchardAction_eq_ok]
  constructor
  · rintro ((⟨ivk, hivk, o, ho, _, ⟨hwf, rfl⟩, h⟩ | ⟨ivk, hivk, o, ho, _, ⟨hwf, rfl⟩, h⟩) |
      ⟨ivk, hivk, o, ho, _, ⟨hwf, rfl⟩, h⟩)
    · obtain ⟨toIvk, htoIvk, scope, rfl⟩ := mem_saplingKeys.mp hivk
      exact .sapling scope ho hwf htoIvk h
    · obtain ⟨fvk, hfvk, scope, rfl⟩ := mem_orchardKeys.mp hivk
      exact .orchard scope ho hwf hfvk h
    · obtain ⟨fvk, hfvk, scope, rfl⟩ := mem_orchardKeys.mp hivk
      exact .ironwood scope ho hwf hfvk h
  · intro h
    cases h with
    | sapling scope ho hwf hivk h =>
        exact .inl (.inl ⟨_, mem_saplingKeys.mpr ⟨_, hivk, scope, rfl⟩, _, ho, _, ⟨hwf, rfl⟩, h⟩)
    | orchard scope ho hwf hfvk h =>
        exact .inl (.inr ⟨_, mem_orchardKeys.mpr ⟨_, hfvk, scope, rfl⟩, _, ho, _, ⟨hwf, rfl⟩, h⟩)
    | ironwood scope ho hwf hfvk h =>
        exact .inr ⟨_, mem_orchardKeys.mpr ⟨_, hfvk, scope, rfl⟩, _, ho, _, ⟨hwf, rfl⟩, h⟩

open Classical in
/-- The block's answer is the plain search over its transactions, for any number of workers,
and leaving out every malformed output changes nothing. -/
theorem trialDecryptBlock_oneByOne (hs : U.saplingBatch.TriesEach)
    (ho : U.orchardBatch.TriesEach) (hi : U.ironwoodBatch.TriesEach) (ufvk : U.Ufvk)
    (threads : Nat) (txs : List CompactTransaction) (height : Nat) (network : Network) :
    trialDecryptBlock U threads txs (prepareIvksOf U ufvk) height network =
        (txs.filter fun tx ↦ Owned U ufvk (zip212Enforcement network height) tx).map
          CompactTransaction.txid ∧
      trialDecryptBlock U threads (txs.map (wellFormedPart U)) (prepareIvksOf U ufvk) height
          network =
        trialDecryptBlock U threads txs (prepareIvksOf U ufvk) height network := by
  refine ⟨?_, trialDecryptBlock_wellFormedPart threads txs height network⟩
  rw [trialDecryptBlock_eq]
  refine congrArg (List.map _) (List.filter_congr fun tx _ ↦ ?_)
  rw [Bool.eq_iff_iff, trialMatches_iff_owned hs ho hi, decide_eq_true_iff]

end Block

/-! ## A block of three transactions -/

/-- Commitments start with the key that decrypts them. -/
def keyedCrypto : NoteCrypto where
  Ufvk := Unit
  SaplingIvk := UInt8
  OrchardFvk := Unit
  OrchardIvk := UInt8
  Transaction := Unit
  decodeUfvk _ := .ok ()
  saplingIvk _ := some fun | .external => 1 | .internal => 2
  orchard _ := some ()
  orchardIvk _ := fun | .external => 3 | .internal => 4
  validCmu _ := true
  validCmx _ := true
  validNullifier _ := true
  saplingBatch := .ofKey fun ivk (_, d) ↦ d.cmu.1.head? = some ivk
  orchardBatch := .ofKey fun ivk a ↦ a.cmx.1.head? = some ivk
  ironwoodBatch := .ofKey fun ivk a ↦ a.cmx.1.head? = some ivk
  readTransaction _ _ _ := .ok ()
  decryptTransaction _ _ _ _ := ⟨[], [], []⟩
  nullifier note _ := note.rho
  transparentBundle _ := none
  feePaid _ := none

def keyedOutput (key : UInt8) (n : Nat) : CompactSaplingOutput :=
  ⟨List.replicate 32 key, List.replicate 32 0, List.replicate n 0⟩

def keyedAction (key : UInt8) (n : Nat) : CompactOrchardAction :=
  ⟨[], List.replicate 32 key, List.replicate 32 0, List.replicate n 0⟩

/-- The second transaction has a key's output, but cut short. -/
def keyedTxs : List CompactTransaction :=
  [⟨"a", [keyedOutput 2 51, keyedOutput 1 52], [], []⟩, ⟨"b", [keyedOutput 1 51], [], []⟩,
    ⟨"c", [], [keyedAction 3 53], [keyedAction 9 52, keyedAction 4 52]⟩]

open Classical in
theorem trialDecryptBlock_oneByOne_keyed :
    (keyedTxs.filter fun tx ↦
      Owned keyedCrypto () (zip212Enforcement .mainNetwork 3000000) tx).map
        CompactTransaction.txid = ["a", "c"] := by
  have h := trialDecryptBlock_oneByOne (U := keyedCrypto) (BatchDecryption.triesEach_ofKey _)
    (BatchDecryption.triesEach_ofKey _) (BatchDecryption.triesEach_ofKey _) () 2 keyedTxs 3000000
    .mainNetwork
  rw [← h.1]
  decide

end LedgerZcash
