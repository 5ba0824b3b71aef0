import LedgerZcash.Lib.Decimal
import LedgerZcash.Lib.Double
import LedgerZcash.Ffi.Delivery
import LedgerZcash.Sync.Partition

/-!
# What JavaScript has in the end

A transaction crosses to JavaScript with its amounts as doubles and its positions as decimal
texts.  Amounts of money are below `2 ^ 53`, so that nothing is rounded, and a transaction can
be read back as it was scanned (`read_grpcTxToNapi`).  With the order that the stream keeps,
what `next()` has returned is at any time the first part of what `run_sync` emitted, and when
`next()` and `stats()` have come to their ends it is the result of `run_sync`
(`stream_hands_over`).
-/

namespace LedgerZcash

open Channel Collect Trace

/-! ## Reading a transaction back -/

/-- What a caller reads of a note. -/
def Napi.ShieldedNote.read (n : Napi.ShieldedNote) : LedgerZcash.ShieldedNote where
  amount := n.amount.toUInt64.toNat
  transferType := n.transferType
  memo := n.memo
  pool := n.pool
  nullifier := n.nullifier
  rho := n.rho
  rseed := n.rseed
  cmx := n.cmx
  position := n.position.bind fun s ↦ Decimal.parseUnsigned u64Size s.toList
  recipient := n.recipient
  isSpent := n.isSpent

/-- What a caller reads of a transaction. -/
def Napi.ShieldedTransaction.read (tx : Napi.ShieldedTransaction) :
    LedgerZcash.ShieldedTransaction where
  txid := tx.txid
  hex := tx.hex
  blockHeight := tx.blockHeight
  blockHash := tx.blockHash
  blockTime := tx.blockTime
  feeZatoshis := tx.fee.toUInt64.toNat
  transparentOutZatoshis := tx.transparentOut.toUInt64.toNat
  hasTransparentInputs := tx.hasTransparentInputs
  saplingNotes := tx.saplingNotes.map Napi.ShieldedNote.read
  orchardNotes := tx.orchardNotes.map Napi.ShieldedNote.read
  ironwoodNotes := tx.ironwoodNotes.map Napi.ShieldedNote.read

/-- The amount is below `2 ^ 53`, as every amount of money is, and the position a `u64`. -/
structure ShieldedNote.InRange (n : ShieldedNote) : Prop where
  amount : n.amount < 2 ^ 53
  position : ∀ i, n.position = some i → i < u64Size

/-- All amounts of a transaction are exact as doubles, and all positions `u64`s. -/
structure ShieldedTransaction.InRange (tx : ShieldedTransaction) : Prop where
  fee : tx.feeZatoshis < 2 ^ 53
  transparentOut : tx.transparentOutZatoshis < 2 ^ 53
  notes : ∀ n ∈ tx.saplingNotes ++ tx.orchardNotes ++ tx.ironwoodNotes, n.InRange

instance (n : ShieldedNote) : Decidable n.InRange :=
  decidable_of_iff (n.amount < 2 ^ 53 ∧ ∀ i ∈ n.position, i < u64Size)
    ⟨fun h ↦ ⟨h.1, h.2⟩, fun h ↦ ⟨h.1, h.2⟩⟩

instance (tx : ShieldedTransaction) : Decidable tx.InRange :=
  decidable_of_iff (tx.feeZatoshis < 2 ^ 53 ∧ tx.transparentOutZatoshis < 2 ^ 53 ∧
      ∀ n ∈ tx.saplingNotes ++ tx.orchardNotes ++ tx.ironwoodNotes, n.InRange)
    ⟨fun h ↦ ⟨h.1, h.2.1, h.2.2⟩, fun h ↦ ⟨h.1, h.2, h.3⟩⟩

theorem ShieldedTransaction.InRange.ofPool {tx : ShieldedTransaction} (h : tx.InRange)
    {pool : Pool} {n : ShieldedNote} (hn : n ∈ tx.notes pool) : n.InRange := by
  refine h.notes n ?_
  cases pool with
  | orchard => exact List.mem_append_left _ (List.mem_append_right _ hn)
  | ironwood => exact List.mem_append_right _ hn

/-- No spending field of a Sapling note is kept. -/
structure ShieldedNote.Bare (n : ShieldedNote) : Prop where
  nullifier : n.nullifier = none
  rho : n.rho = none
  rseed : n.rseed = none
  cmx : n.cmx = none
  position : n.position = none
  recipient : n.recipient = none
  isSpent : n.isSpent = false

/-- Such an amount is exact as a double. -/
theorem toUInt64_asF64 {n : Nat} (h : n < 2 ^ 53) : (asF64 n).toUInt64.toNat = n := by
  have hword : 2 ^ 53 < UInt64.size := by decide
  have hn : (UInt64.ofNat n).toNat = n := UInt64.toNat_ofNat_of_lt (h.trans hword)
  have hexact : (UInt64.ofNat n).toNat < 2 ^ 53 := by
    rw [hn]
    exact h
  rw [asF64, Double.toUInt64_toFloat hexact, hn]

/-- A position is exact as a decimal text. -/
theorem parseUnsigned_repr {size i : Nat} (h : i < size) :
    Decimal.parseUnsigned size i.repr.toList = some i := by
  rw [← Decimal.padded_zero, Decimal.parseUnsigned_padded h]

theorem read_orchardNoteToNapi {n : ShieldedNote} (h : n.InRange) :
    (orchardNoteToNapi n).read = n := by
  have hposition : (n.position.map Nat.repr).bind
      (fun s ↦ Decimal.parseUnsigned u64Size s.toList) = n.position := by
    cases hp : n.position with
    | none => rfl
    | some i => exact parseUnsigned_repr (h.position i hp)
  rw [Napi.ShieldedNote.read, orchardNoteToNapi]
  dsimp only
  rw [toUInt64_asF64 h.amount, hposition]

theorem read_saplingNoteToNapi {n : ShieldedNote} (h : n.InRange) (hbare : n.Bare) :
    (saplingNoteToNapi n).read = n := by
  obtain ⟨amount, transferType, memo, pool, nullifier, rho, rseed, cmx, position, recipient,
    isSpent⟩ := n
  obtain ⟨rfl, rfl, rfl, rfl, rfl, rfl, rfl⟩ := hbare
  rw [Napi.ShieldedNote.read, saplingNoteToNapi]
  dsimp only
  rw [toUInt64_asF64 h.amount]
  rfl

/-- A transaction reads back as it was scanned. -/
theorem read_grpcTxToNapi {tx : ShieldedTransaction} (h : tx.InRange)
    (hbare : ∀ n ∈ tx.saplingNotes, n.Bare) : (grpcTxToNapi tx).read = tx := by
  have hmap : ∀ {f : ShieldedNote → Napi.ShieldedNote} {notes : List ShieldedNote},
      (∀ n ∈ notes, (f n).read = n) → (notes.map f).map Napi.ShieldedNote.read = notes := by
    intro f notes hnotes
    rw [List.map_map]
    exact (List.map_congr_left hnotes).trans (List.map_id _)
  have hsapling := hmap fun n hn ↦ read_saplingNoteToNapi
    (h.notes n (List.mem_append_left _ (List.mem_append_left _ hn))) (hbare n hn)
  have horchard := hmap fun n hn ↦ read_orchardNoteToNapi
    (h.notes n (List.mem_append_left _ (List.mem_append_right _ hn)))
  have hironwood := hmap fun n hn ↦ read_orchardNoteToNapi
    (h.notes n (List.mem_append_right _ hn))
  rw [Napi.ShieldedTransaction.read, grpcTxToNapi]
  dsimp only
  rw [toUInt64_asF64 h.fee, toUInt64_asF64 h.transparentOut, hsapling, horchard, hironwood]

/-! ## What `run_sync` emits -/

section Emits

variable {U : NoteCrypto} {rts : Nat → Runtime} {srvs : Nat → Server} {p : SyncParams}

/-- A scan keeps no spending field of a Sapling note. -/
theorem bare_of_mem_emissions {rt : Runtime} {srv : Server} {tx : ShieldedTransaction}
    (htx : tx ∈ emissions U rt srv p) : ∀ n ∈ tx.saplingNotes, n.Bare := by
  rw [emissions_eq] at htx
  split at htx
  · rename_i out hout
    obtain ⟨v, blocks, results, -, -, hscanned, hr, -, -⟩ := runSyncInner_eq_ok hout
    rw [(scanResults_eq_ok hr).2.1] at htx
    obtain ⟨t, ht, rfl⟩ := List.mem_map.mp htx
    obtain ⟨l, -, x, -, rfl⟩ := hscanned.sound ht
    intro n hn
    obtain ⟨o, -, rfl⟩ := List.mem_map.mp hn
    exact ⟨rfl, rfl, rfl, rfl, rfl, rfl, rfl⟩
  · cases htx

theorem bare_of_mem_runEmissions {tx : ShieldedTransaction}
    (htx : tx ∈ runEmissions U rts srvs p) : ∀ n ∈ tx.saplingNotes, n.Bare := by
  obtain ⟨x, -, hx⟩ := List.mem_flatMap.mp htx
  exact bare_of_mem_emissions hx

/-- A run that returns a result has emitted the transactions of the result. -/
theorem runEmissions_eq {res : SyncResult} (h : (runSync U rts srvs p).result = .ok res) :
    runEmissions U rts srvs p = res.transactions := by
  obtain ⟨maxRetries, heq⟩ := runSync_eq_retryLoop h
  rw [runEmissions]
  rw [heq] at h ⊢
  obtain ⟨-, htx, -⟩ := retryLoop_eq_ok h
  rw [htx]
  exact flatMap_emissions (fun m a out ha hout ↦ emissions_of_ok (ha.symm.trans hout))
    (fun m a err ha herr ↦ emissions_of_error (ha.symm.trans herr)) h

end Emits

/-! ## What `stats()` answers -/

theorem pollStats_cases {s s' : TransactionStream} {stats : Except String Napi.SyncStats}
    (h : s.pollStats = .ready (stats, s')) :
    s' = { s with waitingStats := false } ∧
      (stats = .error "sync task was dropped before completing" ∨
        ∃ r, s.result.value = some r ∧ stats = r.map GrpcSyncResult.stats) := by
  unfold TransactionStream.pollStats Oneshot.recv at h
  cases hvalue : s.result.value with
  | some r =>
      rw [hvalue] at h
      cases h
      exact ⟨rfl, .inr ⟨r, rfl, rfl⟩⟩
  | none =>
      rw [hvalue] at h
      cases hsender : s.result.hasSender with
      | true =>
          rw [hsender] at h
          cases h
      | false =>
          rw [hsender] at h
          cases h
          exact ⟨rfl, .inl rfl⟩

/-- Every result on its way to `stats()`, and every answer of it, is one that `run_sync`
returned. -/
structure Reported (events : List StreamEvent) (s : TransactionStream) : Prop where
  task : ∀ r, s.task = .returned r → .returns r ∈ events
  value : ∀ r, s.result.value = some r → .returns r ∈ events
  answered : ∀ stats, .statsReturns stats ∈ events →
    stats = .error "sync task was dropped before completing" ∨
      ∃ r, .returns r ∈ events ∧ stats = r.map GrpcSyncResult.stats

namespace Reported

variable {events : List StreamEvent} {s s' : TransactionStream} {e : StreamEvent}

/-- A step that brings no result further. -/
theorem quiet (h : Reported events s) (he : ∀ stats, e ≠ .statsReturns stats)
    (htask : ∀ r, s'.task = .returned r → s.task = .returned r)
    (hvalue : s'.result.value = s.result.value) : Reported (events ++ [e]) s' where
  task r hr := List.mem_append_left _ (h.task r (htask r hr))
  value r hr := List.mem_append_left _ (h.value r (hvalue ▸ hr))
  answered stats hmem := by
    rcases List.mem_append.mp hmem with hmem | hmem
    · refine (h.answered stats hmem).imp_right ?_
      rintro ⟨r, hr, hstats⟩
      exact ⟨r, List.mem_append_left _ hr, hstats⟩
    · exact absurd (List.mem_singleton.mp hmem).symm (he stats)

theorem step (h : Reported events s) (hstep : StreamStep s e s') :
    Reported (events ++ [e]) s' := by
  cases hstep with
  | polled _ _ => exact h.quiet nofun nofun rfl
  | yields _ => exact h.quiet nofun nofun rfl
  | emits _ _ => exact h.quiet nofun (fun _ ↦ id) rfl
  | panics _ => exact h.quiet nofun nofun rfl
  | dropped _ _ => exact h.quiet nofun nofun rfl
  | callsNext => exact h.quiet nofun (fun _ ↦ id) rfl
  | callsStats _ => exact h.quiet nofun (fun _ ↦ id) rfl
  | refusesStats _ => exact h.quiet nofun (fun _ ↦ id) rfl
  | cancels => exact h.quiet nofun (fun _ ↦ id) rfl
  | nextReturns _ hpoll =>
      obtain ⟨value, rx, -, -, rfl⟩ := pollNext_eq hpoll
      exact h.quiet nofun (fun _ ↦ id) rfl
  | returns _ result =>
      have hquiet : Reported (events ++ [.returns result]) { s with task := .running } :=
        h.quiet nofun nofun rfl
      refine ⟨fun r hr ↦ ?_, hquiet.value, hquiet.answered⟩
      cases hr
      exact List.mem_append_right _ (List.mem_singleton.mpr rfl)
  | @reports result htask =>
      have hquiet : Reported (events ++ [.reports]) { s with task := .finished } :=
        h.quiet nofun nofun rfl
      refine ⟨nofun, fun r hr ↦ ?_, hquiet.answered⟩
      cases hr
      exact List.mem_append_left _ (h.task result htask)
  | @statsReturns _ stats _ hpoll =>
      obtain ⟨rfl, hstats⟩ := pollStats_cases hpoll
      refine ⟨fun r hr ↦ List.mem_append_left _ (h.task r hr),
        fun r hr ↦ List.mem_append_left _ (h.value r hr), fun stats' hmem ↦ ?_⟩
      have hlift : ∀ {r}, .returns r ∈ events → .returns r ∈ events ++ [.statsReturns stats] :=
        fun hr ↦ List.mem_append_left _ hr
      rcases List.mem_append.mp hmem with hmem | hmem
      · exact (h.answered stats' hmem).imp_right fun ⟨r, hr, heq⟩ ↦ ⟨r, hlift hr, heq⟩
      · cases List.mem_singleton.mp hmem
        exact hstats.imp_right fun ⟨r, hr, heq⟩ ↦ ⟨r, hlift (h.value r hr), heq⟩

theorem start : Reported [] startSync where
  task r hr := by cases hr
  value r hr := by cases hr
  answered := nofun

theorem of_run (h : StreamRun startSync events s) : Reported events s :=
  h.invariant start fun _ _ _ _ _ hi hstep ↦ hi.step hstep

end Reported

/-! ## The stream of a sync -/

section HandOver

variable (U : NoteCrypto) (rts : Nat → Runtime) (srvs : Nat → Server) (p : SyncParams)

/-- What the task runs is `run_sync`: it emits what that emits, as far as it has come, and
returns what it returns once everything is emitted. -/
structure RunsSync (events : List StreamEvent) : Prop where
  emits : emitted events <+: runEmissions U rts srvs p
  returns : ∀ result, .returns result ∈ events →
    emitted events = runEmissions U rts srvs p ∧
      (runSync U rts srvs p).result =
        (result.map GrpcSyncResult.toSyncResult).mapError Failure.error

/-- What a caller of the stream has got. -/
structure HandsOver (events : List StreamEvent) : Prop where
  /-- At any time, a first part of what `run_sync` emits. -/
  isPrefix : (delivered events).map Napi.ShieldedTransaction.read <+: runEmissions U rts srvs p
  /-- Statistics come with the result of `run_sync`, and are its own. -/
  stats : ∀ stats, .statsReturns (.ok stats) ∈ events →
    ∃ res, (runSync U rts srvs p).result = .ok res ∧ stats.blocksScanned = res.blocksScanned ∧
      stats.spentKnownNullifiers = res.spentKnownNullifiers ∧
      (.nextReturns none ∈ events → .cancels ∉ events →
        (delivered events).map Napi.ShieldedTransaction.read = res.transactions)
  /-- Else `run_sync` failed with the text of the error, or its task was dropped. -/
  failure : ∀ text, .statsReturns (.error text) ∈ events →
    (runSync U rts srvs p).result = .error (.error text) ∨
      text = "sync task was dropped before completing"

variable {U rts srvs p} {events : List StreamEvent} {s : TransactionStream}

/-- In every interleaving of the task with the calls of `next()`, `stats()` and `cancel()`. -/
theorem stream_hands_over (h : StreamRun startSync events s)
    (hsync : RunsSync U rts srvs p events)
    (hrange : ∀ tx ∈ runEmissions U rts srvs p, tx.InRange) : HandsOver U rts srvs p events := by
  have hguarantees := StreamGuarantees.of_run h
  have hread : ∀ {txs : List ShieldedTransaction}, txs <+: runEmissions U rts srvs p →
      (txs.map grpcTxToNapi).map Napi.ShieldedTransaction.read = txs := by
    intro txs htxs
    rw [List.map_map]
    refine (List.map_congr_left fun tx htx ↦ ?_).trans (List.map_id _)
    have hmem := htxs.subset htx
    exact read_grpcTxToNapi (hrange tx hmem) (bare_of_mem_runEmissions hmem)
  refine ⟨?_, fun stats hstats ↦ ?_, fun text htext ↦ ?_⟩
  · have hprefix := hguarantees.isPrefix.map Napi.ShieldedTransaction.read
    rw [hread hsync.emits] at hprefix
    exact hprefix.trans hsync.emits
  · rcases (Reported.of_run h).answered _ hstats with hdropped | ⟨r, hreturns, heq⟩
    · cases hdropped
    · cases r with
      | error e => cases heq
      | ok g =>
          cases heq
          obtain ⟨hemitted, hresult⟩ := hsync.returns _ hreturns
          refine ⟨g.toSyncResult, hresult, rfl, rfl, fun hnull hcancel ↦ ?_⟩
          rw [hguarantees.complete hnull, sent_of_notMem hcancel, hread hsync.emits, hemitted]
          exact runEmissions_eq hresult
  · rcases (Reported.of_run h).answered _ htext with hdropped | ⟨r, hreturns, heq⟩
    · exact .inr (Except.error.inj hdropped)
    · cases r with
      | error e =>
          cases heq
          exact .inl (hsync.returns _ hreturns).2
      | ok g => cases heq

end HandOver

/-! ## The small chain -/

theorem runSync_flaky_inRange : ∃ res ∈ (runSync sampleCrypto (fun _ ↦ sampleRuntime)
    flakyServers retryParams).result.toOption,
      res.transactions.length = 1 ∧ ∀ tx ∈ res.transactions, tx.InRange := by
  decide +kernel

/-- The retried scan of the small chain, received to its end. -/
theorem exists_run_flaky : ∃ tx res events s,
    (runSync sampleCrypto (fun _ ↦ sampleRuntime) flakyServers retryParams).result = .ok res ∧
      runEmissions sampleCrypto (fun _ ↦ sampleRuntime) flakyServers retryParams = [tx] ∧
      tx.InRange ∧ delivered events = [grpcTxToNapi tx] ∧ StreamRun startSync events s ∧
      RunsSync sampleCrypto (fun _ ↦ sampleRuntime) flakyServers retryParams events := by
  obtain ⟨res, hres, hlen, hrange⟩ := runSync_flaky_inRange
  obtain ⟨tx, htx⟩ := List.length_eq_one_iff.mp hlen
  have hres' := toOption_eq_some.mp hres
  have hemitted := (runEmissions_eq hres').trans htx
  have hrun : StreamRun startSync
      [.polled, .emits tx, .returns (.ok ⟨res, 7⟩), .reports, .callsNext,
        .nextReturns (some (grpcTxToNapi tx)), .callsNext, .nextReturns none, .callsStats,
        .statsReturns (.ok (GrpcSyncResult.stats ⟨res, 7⟩))] _ :=
    .cons (.polled rfl rfl) <| .cons (.emits rfl tx) <| .cons (.returns rfl _) <|
      .cons (.reports rfl) <| .cons .callsNext <| .cons (.nextReturns Nat.one_pos rfl) <|
      .cons .callsNext <| .cons (.nextReturns Nat.one_pos rfl) <| .cons (.callsStats rfl) <|
      .single (.statsReturns rfl rfl)
  refine ⟨tx, res, _, _, hres', hemitted, hrange tx (htx ▸ List.mem_singleton_self tx), rfl, hrun,
    ?_, ?_⟩
  · rw [hemitted]
    exact List.prefix_refl _
  · intro result hmem
    obtain rfl : result = .ok ⟨res, 7⟩ := by simpa using hmem
    exact ⟨hemitted.symm, hres'⟩

theorem stream_hands_over_flaky : ∃ tx res events,
    (runSync sampleCrypto (fun _ ↦ sampleRuntime) flakyServers retryParams).result = .ok res ∧
      delivered events = [grpcTxToNapi tx] ∧
      HandsOver sampleCrypto (fun _ ↦ sampleRuntime) flakyServers retryParams events := by
  obtain ⟨tx, res, events, s, hres, hemitted, hrange, hdelivered, hrun, hsync⟩ := exists_run_flaky
  refine ⟨tx, res, events, hres, hdelivered, stream_hands_over hrun hsync fun t ht ↦ ?_⟩
  rw [hemitted, List.mem_singleton] at ht
  exact ht ▸ hrange

end LedgerZcash
