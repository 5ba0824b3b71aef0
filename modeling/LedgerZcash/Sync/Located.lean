import LedgerZcash.Crypto.TrialDecrypt
import LedgerZcash.Lib.Ledger
import LedgerZcash.Sync.Scan

/-!
# The transactions of a range

The vocabulary in which the scan is specified: a transaction in its block, whether its
outputs trial-decrypt, what the server's copy of it decrypts to, and what it reveals.
`processCompactBlock` is brought to it — the fast path and the full path alike — and the
whole forms a `Ledger`.
-/

namespace LedgerZcash

open Hex Collect

/-! ## The vocabulary -/

/-- What a scan looks for: a viewing key on a network, with or without Sapling. -/
structure View (U : NoteCrypto) where
  network : Network
  ufvk : U.Ufvk
  orchardOnly : Bool

/-- A transaction in its block. -/
structure Located where
  block : Proto.CompactBlock
  tx : Proto.CompactTx
deriving DecidableEq

/-- The transactions of a list of blocks, in order. -/
def located (blocks : List Proto.CompactBlock) : List Located :=
  blocks.flatMap fun b ↦ b.vtx.map (Located.mk b)

theorem mem_located {blocks : List Proto.CompactBlock} {l : Located} :
    l ∈ located blocks ↔ l.block ∈ blocks ∧ l.tx ∈ l.block.vtx := by
  cases l
  simp only [located, List.mem_flatMap, List.mem_map, Located.mk.injEq]
  constructor
  · rintro ⟨b, hb, tx, htx, rfl, rfl⟩
    exact ⟨hb, htx⟩
  · rintro ⟨hb, htx⟩
    exact ⟨_, hb, _, htx, rfl, rfl⟩

/-- No two transactions of the blocks share a txid. -/
def UniqueTxids (blocks : List Proto.CompactBlock) : Prop :=
  ((located blocks).map fun l ↦ l.tx.txid).Nodup

/-- The nullifiers of a pool that a transaction reveals. -/
def revealedBy (pool : Pool) (tx : Proto.CompactTx) : List Bytes32 :=
  (pool.actions tx).filterMap fun a ↦ Arr.tryFrom 32 a.nullifier

/-- The notes of a decrypted transaction in a pool. -/
def Pool.outputs : Pool → DecryptedTx → List DecryptedOutput
  | .orchard, d => d.orchardOutputs
  | .ironwood, d => d.ironwoodOutputs

theorem mem_receivedNullifiers {d : DecryptedTx} {v : Bytes32} :
    v ∈ receivedNullifiers d ↔ ∃ pool : Pool, ∃ o ∈ pool.outputs d, o.nullifier = some v := by
  rw [receivedNullifiers, List.filterMap_append, List.mem_append, List.mem_filterMap,
    List.mem_filterMap]
  constructor
  · rintro (h | h)
    · exact ⟨.orchard, h⟩
    · exact ⟨.ironwood, h⟩
  · rintro ⟨_ | _, h⟩
    · exact Or.inl h
    · exact Or.inr h

theorem displayHex_inj {xs ys : List UInt8} : displayHex xs = displayHex ys ↔ xs = ys := by
  simp [displayHex]

namespace Located

variable {U : NoteCrypto} (srv : Server) (v : View U) (l : Located)

def height : Nat := asU32 l.block.height

def txid : String := displayHex l.tx.txid

/-- Some output of the compact transaction trial-decrypts. -/
def matched : Bool :=
  trialMatches U (prepareIvksOf U v.ufvk) (zip212Enforcement v.network l.height)
    (toCompactTransaction v.orchardOnly l.tx)

/-- The bytes the server returns for the transaction, and their decryption. -/
def opened : Option (List UInt8 × DecryptedTx) := do
  let raw ← (srv.getTransaction l.height l.tx.txid).toOption
  let d ← (fullDecryptTxWithUfvk U (Hex.encode raw) v.ufvk l.height v.network).toOption
  pure (raw, d)

/-- The nullifiers of the notes of a pool that the transaction pays to the account. -/
def notes (pool : Pool) : List Bytes32 :=
  (l.opened srv v).toList.flatMap fun x ↦ (pool.outputs x.2).filterMap DecryptedOutput.nullifier

theorem mem_notes {srv : Server} {v : View U} {l : Located} {pool : Pool} {n : Bytes32} :
    n ∈ l.notes srv v pool ↔
      ∃ raw d, l.opened srv v = some (raw, d) ∧ ∃ o ∈ pool.outputs d, o.nullifier = some n := by
  simp [notes]

theorem opened_eq_some {srv : Server} {v : View U} {l : Located} {raw : List UInt8}
    {d : DecryptedTx} : l.opened srv v = some (raw, d) ↔
      srv.getTransaction l.height l.tx.txid = .ok raw ∧
        fullDecryptTxWithUfvk U (Hex.encode raw) v.ufvk l.height v.network = .ok d := by
  simp only [opened, Option.bind_eq_bind, Option.bind_eq_some_iff, Option.pure_def,
    Option.some.injEq, Prod.mk.injEq, toOption_eq_some]
  constructor
  · rintro ⟨_, hraw, _, hd, rfl, rfl⟩
    exact ⟨hraw, hd⟩
  · rintro ⟨hraw, hd⟩
    exact ⟨raw, hraw, d, hd, rfl, rfl⟩

end Located

/-! ## Trial matches and full decryption, pool by pool -/

section Trial

variable {U : NoteCrypto} (srv : Server) (v : View U) (l : Located)

/-- The compact form of the transaction with nothing stripped. -/
def Located.compact : CompactTransaction := toCompactTransaction false l.tx

def Located.saplingMatched : Bool :=
  saplingHits U (prepareIvksOf U v.ufvk) (zip212Enforcement v.network l.height) l.compact

def Located.orchardMatched : Bool := orchardHits U (prepareIvksOf U v.ufvk) l.compact

def Located.ironwoodMatched : Bool := ironwoodHits U (prepareIvksOf U v.ufvk) l.compact

/-- `orchard_only` drops the Sapling matches and nothing else. -/
theorem Located.matched_eq : l.matched v =
    ((!v.orchardOnly && l.saplingMatched v) || l.orchardMatched v || l.ironwoodMatched v) := by
  cases hv : v.orchardOnly with
  | false =>
      simp [matched, trialMatches, hv, saplingMatched, orchardMatched, ironwoodMatched, compact]
  | true =>
      simp [matched, trialMatches, hv, orchardMatched, ironwoodMatched, compact, saplingHits,
        orchardHits, ironwoodHits, hits, toCompactTransaction]

theorem Located.matched_iff : l.matched v = true ↔
    (v.orchardOnly = false ∧ l.saplingMatched v = true) ∨
      l.orchardMatched v = true ∨ l.ironwoodMatched v = true := by
  rw [matched_eq, Bool.or_eq_true, Bool.or_eq_true, Bool.and_eq_true, Bool.not_eq_true', or_assoc]

/-- Some output of a pool is an incoming or internal note. -/
def PaysAccount (outputs : List DecryptedOutput) : Prop :=
  ∃ o ∈ outputs, o.transferType ≠ .outgoing

instance (outputs : List DecryptedOutput) : Decidable (PaysAccount outputs) :=
  inferInstanceAs (Decidable (∃ o ∈ outputs, _))

/-- Pool by pool, a compact trial match holds exactly when full decryption yields an
incoming or internal note. -/
def TrialExact (blocks : List Proto.CompactBlock) : Prop :=
  ∀ l ∈ located blocks, ∀ x ∈ l.opened srv v,
    (l.saplingMatched v = true ↔ PaysAccount x.2.saplingOutputs) ∧
    (l.orchardMatched v = true ↔ PaysAccount x.2.orchardOutputs) ∧
    (l.ironwoodMatched v = true ↔ PaysAccount x.2.ironwoodOutputs)

/-- A decrypted output of the Orchard family comes from an upstream one. -/
theorem Located.exists_upstream {srv : Server} {v : View U} {l : Located}
    {x : List UInt8 × DecryptedTx} (hx : l.opened srv v = some x) {pool : Pool}
    {o : DecryptedOutput} (ho : o ∈ pool.outputs x.2) :
    ∃ f, o = mapOrchardFamilyOutput U f v.ufvk := by
  obtain ⟨-, hd⟩ := opened_eq_some.mp hx
  unfold fullDecryptTxWithUfvk at hd
  obtain ⟨_, -, hd⟩ := bind_eq_ok.mp hd
  obtain ⟨_, -, hd⟩ := bind_eq_ok.mp hd
  rw [← pure_eq_ok.mp hd] at ho
  cases pool <;>
    · obtain ⟨f, -, rfl⟩ := List.mem_map.mp ho
      exact ⟨f, rfl⟩

/-- A note with a nullifier is paid to the account. -/
theorem transferType_ne_outgoing {f : UpstreamOrchardOutput} {ufvk : U.Ufvk} {n : Bytes32}
    (h : (mapOrchardFamilyOutput U f ufvk).nullifier = some n) :
    (mapOrchardFamilyOutput U f ufvk).transferType ≠ .outgoing := by
  cases ht : f.transferType <;> simp [mapOrchardFamilyOutput, ht, decodeTransferType] at h ⊢

end Trial

/-! ## One block -/

section Block

variable {U : NoteCrypto} (v : View U)

/-- What the pipeline returns for a block. -/
def View.blockResult (b : Proto.CompactBlock) : TrialResult :=
  processCompactBlock U 1 (prepareIvksOf U v.ufvk) v.orchardOnly v.network b

/-- The number of worker threads does not matter. -/
theorem processCompactBlock_eq_blockResult (threads : Nat) (b : Proto.CompactBlock) :
    processCompactBlock U threads (prepareIvksOf U v.ufvk) v.orchardOnly v.network b =
      v.blockResult b := by
  simp only [View.blockResult, processCompactBlock, trialDecryptBlock_eq]

@[simp] theorem height_blockResult (b : Proto.CompactBlock) :
    (v.blockResult b).height = asU32 b.height := by
  simp only [View.blockResult, processCompactBlock]
  split <;> rfl

/-- A block the fast path skips has no action, and its Sapling outputs are stripped. -/
theorem skipsBlock_eq_true {orchardOnly : Bool} {b : Proto.CompactBlock} :
    skipsBlock orchardOnly b = true ↔
      orchardOnly = true ∧ ∀ tx ∈ b.vtx, tx.actions = [] ∧ tx.ironwoodActions = [] := by
  simp [skipsBlock]

variable {v}

/-- The matched txids of a block, fast path included. -/
theorem matchedTxids_blockResult (b : Proto.CompactBlock) :
    (v.blockResult b).matchedTxids =
      ((b.vtx.map (Located.mk b)).filter (Located.matched v)).map Located.txid := by
  unfold View.blockResult processCompactBlock
  split
  · rename_i h
    obtain ⟨ho, hall⟩ := skipsBlock_eq_true.mp h
    have hnone : ∀ tx ∈ b.vtx, Located.matched v ⟨b, tx⟩ = false := by
      intro tx htx
      obtain ⟨ha, hi⟩ := hall tx htx
      simp [Located.matched, trialMatches, saplingHits, orchardHits, ironwoodHits, hits,
        toCompactTransaction, ho, ha, hi]
    simp only [List.filter_map, List.map_map]
    rw [eq_comm, List.map_eq_nil_iff, List.filter_eq_nil_iff]
    intro tx htx
    simp [hnone tx htx]
  · simp only [trialDecryptBlock_eq, List.filter_map, List.map_map]
    rfl

theorem mem_actionNullifiers_map {actions : List Proto.CompactOrchardAction} :
    actionNullifiers (actions.map protoOrchardToCompact) =
      actions.filterMap fun a ↦ Arr.tryFrom 32 a.nullifier := by
  simp [actionNullifiers, List.filterMap_map, Function.comp_def, protoOrchardToCompact]

/-- The per-transaction nullifier lists of a pool. -/
def TrialResult.nullifiersOf : Pool → TrialResult → List (String × List Bytes32)
  | .orchard, r => r.txNullifiers
  | .ironwood, r => r.txIronwoodNullifiers

/-- A nullifier is listed under a txid when a transaction of that txid reveals it, fast
path included. -/
theorem mem_nullifiersOf_blockResult {b : Proto.CompactBlock} {pool : Pool} {txid : String}
    {n : Bytes32} :
    (∃ e ∈ (v.blockResult b).nullifiersOf pool, e.1 = txid ∧ n ∈ e.2) ↔
      ∃ tx ∈ b.vtx, displayHex tx.txid = txid ∧ n ∈ revealedBy pool tx := by
  unfold View.blockResult processCompactBlock
  split
  · rename_i h
    obtain ⟨-, hall⟩ := skipsBlock_eq_true.mp h
    constructor
    · rintro ⟨e, he, -⟩
      cases pool <;> exact absurd he List.not_mem_nil
    · rintro ⟨tx, htx, -, hn⟩
      obtain ⟨ha, hi⟩ := hall tx htx
      cases pool <;> simp [revealedBy, Pool.actions, ha, hi] at hn
  · cases pool <;>
      simp [TrialResult.nullifiersOf, toCompactTransaction, mem_actionNullifiers_map,
        revealedBy, Pool.actions]

end Block

/-! ## One transaction -/

section Record

variable {U : NoteCrypto} (srv : Server) (v : View U)

/-- The record of a transaction, before any note is marked. -/
def Located.record (l : Located) (x : List UInt8 × DecryptedTx) : ShieldedTransaction :=
  shieldedTransaction (blockFetchCtx (v.blockResult l.block) l.txid) (Hex.encode x.1) x.2

variable {srv v}

/-- A fetch succeeds when the server answers; it returns nothing when the transaction
cannot be read. -/
theorem fetchOf_eq (l : Located) :
    fetchOf U srv v.ufvk v.network (v.blockResult l.block, l.txid) =
      match srv.getTransaction l.height l.tx.txid with
      | .error e => .error (.error ("GetTransaction failed for " ++ l.txid ++ ": " ++ e))
      | .ok _ => .ok ((l.opened srv v).map fun x ↦ (l.record v x, receivedNullifiers x.2)) := by
  have hdec : Hex.decode (displayHex l.tx.txid) = .ok l.tx.txid.reverse := by simp [displayHex]
  have hh : (blockFetchCtx (v.blockResult l.block) l.txid).height = l.height := by
    simp [blockFetchCtx, Located.height]
  have ht : (blockFetchCtx (v.blockResult l.block) l.txid).txidHex = displayHex l.tx.txid := rfl
  simp only [fetchOf, fetchAndDecryptTx, hh, ht, hdec, orFail, Except.mapError, bind, Except.bind,
    List.reverse_reverse]
  cases hraw : srv.getTransaction l.height l.tx.txid with
  | error e => rfl
  | ok raw =>
      cases hd : fullDecryptTxWithUfvk U (Hex.encode raw) v.ufvk l.height v.network with
      | error e => simp [Located.opened, hraw, hd, Except.toOption, pure, Except.pure]
      | ok d =>
          simp [Located.opened, Located.record, hraw, hd, Except.toOption, pure, Except.pure]

/-- Fetching a transaction fails only when the server does not answer. -/
theorem exists_fetchOf_iff (l : Located) :
    (∃ o, fetchOf U srv v.ufvk v.network (v.blockResult l.block, l.txid) = .ok o) ↔
      ∃ raw, srv.getTransaction l.height l.tx.txid = .ok raw := by
  rw [fetchOf_eq]
  cases hraw : srv.getTransaction l.height l.tx.txid <;> simp

theorem kept_fetchOf (l : Located) :
    kept (fetchOf U srv v.ufvk v.network) (v.blockResult l.block, l.txid) =
      (l.opened srv v).map fun x ↦ (l.record v x, receivedNullifiers x.2) := by
  rw [kept, fetchOf_eq]
  cases hraw : srv.getTransaction l.height l.tx.txid with
  | error e => simp [Located.opened, hraw, Except.toOption]
  | ok raw => simp [Except.toOption]

end Record

/-! ## The ledger of a scan -/

/-- The chain as a scan sees it through a server. -/
def View.ledger {U : NoteCrypto} (v : View U) (srv : Server) : Ledger Located Pool Bytes32 where
  found l := l.matched v = true
  readable l := (l.opened srv v).isSome
  notes l pool := {n | n ∈ l.notes srv v pool}
  reveals l pool := {n | n ∈ revealedBy pool l.tx}

section Ledger

variable {U : NoteCrypto} {srv : Server} {v : View U} {blocks : List Proto.CompactBlock}

/-- The transactions of a range, as a set. -/
def range (blocks : List Proto.CompactBlock) : Set Located := {l | l ∈ located blocks}

/-- Under the trial assumption, whoever pays the account is found. -/
theorem complete_of_trialExact (ht : TrialExact srv v blocks) :
    (v.ledger srv).Complete (range blocks) := by
  intro l hl pool n hn
  obtain ⟨raw, d, hx, o, ho, hno⟩ := Located.mem_notes.mp hn
  obtain ⟨f, rfl⟩ := Located.exists_upstream hx ho
  have hp := transferType_ne_outgoing hno
  obtain ⟨-, horchard, hironwood⟩ := ht l hl _ (Option.mem_def.mpr hx)
  show l.matched v = true
  rw [Located.matched_eq]
  cases pool with
  | orchard => simp [horchard.mpr ⟨_, ho, hp⟩]
  | ironwood => simp [hironwood.mpr ⟨_, ho, hp⟩]

end Ledger

end LedgerZcash
