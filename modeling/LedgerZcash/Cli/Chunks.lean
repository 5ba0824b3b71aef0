import LedgerZcash.Sync.Coverage
import LedgerZcash.Sync.Splits

/-!
# The chunked sync of the command line

`cmdSync` cuts the range into chunks of `chunk_size` blocks, runs `runSync` on each with an
empty known list, and puts the transactions together.  The chunks do not know of each other,
so what was said of a retried run holds of them: the answer is that of one scan of the range
exactly when no receive and spend are cut apart (`cmdSync_iff_pairsKept`).

Height arithmetic is checked, as in a build with overflow checks: an overflow is a panic.
The progress bar and the printed tables are left out.
-/

namespace LedgerZcash

open Hex Collect

/-! ## The chunks -/

/-- The end of the chunk that starts at a height, and the start of the next one. -/
theorem toNat_chunkEnd {h stop chunkSize sum next : UInt32} (hpos : 0 < chunkSize)
    (hsum : addU32 h chunkSize = .ok sum) (hnext : addU32 (min (sum - 1) stop) 1 = .ok next) :
    (min (sum - 1) stop).toNat = min (h.toNat + chunkSize.toNat - 1) stop.toNat ∧
      next.toNat = min (h.toNat + chunkSize.toNat - 1) stop.toNat + 1 := by
  have hp : 0 < chunkSize.toNat := UInt32.lt_iff_toNat_lt.mp hpos
  have hs := addU32_eq_ok.mp hsum
  have hn := addU32_eq_ok.mp hnext
  have hone : 1 ≤ sum := by
    rw [UInt32.le_iff_toNat_le, hs, UInt32.toNat_one]
    omega
  rw [UInt32.toNat_min, UInt32.toNat_sub_of_le _ _ hone, UInt32.toNat_one, hs] at hn ⊢
  exact ⟨rfl, hn⟩

/-- The loop of `buildChunks`, from the height `h` on. -/
def chunksFrom (stop chunkSize : UInt32) (hpos : 0 < chunkSize) (h : UInt32) :
    Except Failure (List (UInt32 × UInt32)) :=
  if h ≤ stop then
    match _hsum : addU32 h chunkSize with
    | .error err => .error err
    | .ok sum =>
        let chunkEnd := min (sum - 1) stop
        match _hnext : addU32 chunkEnd 1 with
        | .error err => .error err
        | .ok next => (chunksFrom stop chunkSize hpos next).map ((h, chunkEnd) :: ·)
  else .ok []
termination_by stop.toNat + 1 - h.toNat
decreasing_by
  have hp : 0 < chunkSize.toNat := UInt32.lt_iff_toNat_lt.mp hpos
  have hle : h.toNat ≤ stop.toNat := UInt32.le_iff_toNat_le.mp ‹h ≤ stop›
  rw [(toNat_chunkEnd hpos _hsum _hnext).2]
  omega

/-- Split `start..=stop` into consecutive chunks of at most `chunkSize` blocks. -/
def buildChunks (start stop chunkSize : UInt32) : Except Failure (List (UInt32 × UInt32)) :=
  if stop < start then .ok []
  else do
    let _ ← addU32 (stop - start) 1
    -- the capacity `total.div_ceil(chunk_size)` divides by the chunk size
    if hpos : 0 < chunkSize then chunksFrom stop chunkSize hpos start else throw .panic

section Chunks

variable {start stop chunkSize : UInt32} {chunks : List (UInt32 × UInt32)}

/-- One round of the loop. -/
theorem chunksFrom_of_le {hpos : 0 < chunkSize} {h : UInt32} (hle : h ≤ stop) :
    chunksFrom stop chunkSize hpos h = .ok chunks ↔ ∃ sum next rest,
      addU32 h chunkSize = .ok sum ∧ addU32 (min (sum - 1) stop) 1 = .ok next ∧
        chunksFrom stop chunkSize hpos next = .ok rest ∧
          chunks = (h, min (sum - 1) stop) :: rest := by
  rw [chunksFrom, if_pos hle]
  constructor
  · intro hc
    split at hc
    · cases hc
    · rename_i sum hsum
      dsimp only at hc
      split at hc
      · cases hc
      · rename_i next hnext
        cases hrest : chunksFrom stop chunkSize hpos next with
        | error err => simp [hrest, Except.map] at hc
        | ok rest =>
            refine ⟨sum, next, rest, hsum, hnext, hrest, ?_⟩
            simpa [hrest, Except.map, eq_comm] using hc
  · rintro ⟨sum, next, rest, hsum, hnext, hrest, rfl⟩
    split
    · rename_i err herr
      cases hsum.symm.trans herr
    · rename_i sum' hsum'
      cases hsum.symm.trans hsum'
      dsimp only
      split
      · rename_i err herr
        cases hnext.symm.trans herr
      · rename_i next' hnext'
        cases hnext.symm.trans hnext'
        rw [hrest]
        rfl

theorem chunksFrom_of_lt {hpos : 0 < chunkSize} {h : UInt32} (hlt : stop < h) :
    chunksFrom stop chunkSize hpos h = .ok [] := by
  rw [chunksFrom, if_neg (UInt32.not_le.mpr hlt)]

/-- The chunks partition the range, and none is larger than asked for. -/
theorem chunksFrom_cuts {hpos : 0 < chunkSize} {h : UInt32} (hle : h ≤ stop)
    (hc : chunksFrom stop chunkSize hpos h = .ok chunks) :
    Bisect.Cuts h.toNat stop.toNat (chunks.map natRange) ∧
      ∀ r ∈ chunks, r.2.toNat - r.1.toNat + 1 ≤ chunkSize.toNat := by
  induction hn : stop.toNat + 1 - h.toNat using Nat.strong_induction_on generalizing h chunks with
  | _ n ih =>
      obtain ⟨sum, next, rest, hsum, hnext, hrest, rfl⟩ := (chunksFrom_of_le hle).mp hc
      obtain ⟨hend, hnext'⟩ := toNat_chunkEnd hpos hsum hnext
      have hp : 0 < chunkSize.toNat := UInt32.lt_iff_toNat_lt.mp hpos
      have hle' : h.toNat ≤ stop.toNat := UInt32.le_iff_toNat_le.mp hle
      have hsize : (min (sum - 1) stop).toNat - h.toNat + 1 ≤ chunkSize.toNat := by
        rw [hend]
        omega
      by_cases hge : next ≤ stop
      · have hge' : next.toNat ≤ stop.toNat := UInt32.le_iff_toNat_le.mp hge
        obtain ⟨hcuts, hsizes⟩ := ih _ (by omega) hge hrest rfl
        rw [hnext', ← hend] at hcuts
        have hcut : Bisect.Cuts h.toNat stop.toNat
            ((h.toNat, (min (sum - 1) stop).toNat) :: rest.map natRange) :=
          .cut (by omega) (by omega) hcuts
        exact ⟨hcut, List.forall_mem_cons.mpr ⟨hsize, hsizes⟩⟩
      · -- the last chunk
        have hlt := UInt32.not_le.mp hge
        have hstop : stop.toNat < next.toNat := UInt32.lt_iff_toNat_lt.mp hlt
        cases (chunksFrom_of_lt hlt).symm.trans hrest
        have hlast : (min (sum - 1) stop).toNat = stop.toNat := by omega
        refine ⟨?_, List.forall_mem_singleton.mpr hsize⟩
        rw [List.map_singleton, natRange, hlast]
        exact .last hle'

/-- A round goes through when its first sum does not overflow. -/
theorem exists_round_iff (stop h : UInt32) (hpos : 0 < chunkSize) :
    (∃ sum next, addU32 h chunkSize = .ok sum ∧ addU32 (min (sum - 1) stop) 1 = .ok next) ↔
      h.toNat + chunkSize.toNat < u32Size := by
  have hp : 0 < chunkSize.toNat := UInt32.lt_iff_toNat_lt.mp hpos
  constructor
  · rintro ⟨sum, -, hsum, -⟩
    rw [← addU32_eq_ok.mp hsum]
    exact sum.toNat_lt
  · intro hlt
    have hsum : addU32 h chunkSize = .ok (h + chunkSize) := if_pos hlt
    have hone : 1 ≤ h + chunkSize := by
      rw [UInt32.le_iff_toNat_le, addU32_eq_ok.mp hsum, UInt32.toNat_one]
      omega
    refine ⟨_, min (h + chunkSize - 1) stop + 1, hsum, if_pos ?_⟩
    rw [UInt32.toNat_min, UInt32.toNat_sub_of_le _ _ hone, addU32_eq_ok.mp hsum,
      UInt32.toNat_one]
    omega

/-- The loop overflows exactly when the end of the last full chunk does. -/
theorem exists_chunksFrom_iff (hpos : 0 < chunkSize) {h : UInt32} (hle : h ≤ stop) :
    (∃ chunks, chunksFrom stop chunkSize hpos h = .ok chunks) ↔
      h.toNat + chunkSize.toNat * ((stop.toNat - h.toNat) / chunkSize.toNat + 1) < u32Size := by
  have hp : 0 < chunkSize.toNat := UInt32.lt_iff_toNat_lt.mp hpos
  induction hn : stop.toNat + 1 - h.toNat using Nat.strong_induction_on generalizing h with
  | _ n ih =>
      have hle' : h.toNat ≤ stop.toNat := UInt32.le_iff_toNat_le.mp hle
      have hround := exists_round_iff stop h hpos
      by_cases hlast : stop.toNat - h.toNat < chunkSize.toNat
      · -- the last chunk: the next height is past the end
        rw [Nat.div_eq_of_lt hlast, Nat.zero_add, Nat.mul_one, ← hround]
        constructor
        · rintro ⟨chunks, hc⟩
          obtain ⟨sum, next, -, hsum, hnext, -⟩ := (chunksFrom_of_le hle).mp hc
          exact ⟨sum, next, hsum, hnext⟩
        · rintro ⟨sum, next, hsum, hnext⟩
          have hend : stop < next := by
            rw [UInt32.lt_iff_toNat_lt, (toNat_chunkEnd hpos hsum hnext).2]
            omega
          exact ⟨_, (chunksFrom_of_le hle).mpr
            ⟨sum, next, [], hsum, hnext, chunksFrom_of_lt hend, rfl⟩⟩
      · rw [Nat.div_eq_sub_div hp (Nat.not_lt.mp hlast), Nat.mul_add, Nat.mul_one,
          ← Nat.add_assoc, Nat.add_right_comm]
        have hrest : ∀ sum next, addU32 h chunkSize = .ok sum →
            addU32 (min (sum - 1) stop) 1 = .ok next →
              ((∃ chunks, chunksFrom stop chunkSize hpos next = .ok chunks) ↔
                h.toNat + chunkSize.toNat + chunkSize.toNat *
                  ((stop.toNat - h.toNat - chunkSize.toNat) / chunkSize.toNat + 1) < u32Size) := by
          intro sum next hsum hnext
          have hnext' := (toNat_chunkEnd hpos hsum hnext).2
          have heq : next.toNat = h.toNat + chunkSize.toNat := by omega
          have hnextle : next ≤ stop := by
            rw [UInt32.le_iff_toNat_le, heq]
            omega
          have hih := ih _ (by omega) hnextle rfl
          rwa [heq, Nat.sub_add_eq] at hih
        constructor
        · rintro ⟨chunks, hc⟩
          obtain ⟨sum, next, rest, hsum, hnext, hr, -⟩ := (chunksFrom_of_le hle).mp hc
          exact (hrest sum next hsum hnext).mp ⟨rest, hr⟩
        · intro hlt
          obtain ⟨sum, next, hsum, hnext⟩ := hround.mpr (by omega)
          obtain ⟨rest, hr⟩ := (hrest sum next hsum hnext).mpr hlt
          exact ⟨_, (chunksFrom_of_le hle).mpr ⟨sum, next, rest, hsum, hnext, hr, rfl⟩⟩

/-- So does the list of chunks. -/
theorem exists_buildChunks_iff (hle : start ≤ stop) (hpos : 0 < chunkSize) :
    (∃ chunks, buildChunks start stop chunkSize = .ok chunks) ↔
      start.toNat + chunkSize.toNat * ((stop.toNat - start.toNat) / chunkSize.toNat + 1) <
        u32Size := by
  have hle' : start.toNat ≤ stop.toNat := UInt32.le_iff_toNat_le.mp hle
  rw [← exists_chunksFrom_iff hpos hle]
  simp only [buildChunks, if_neg (UInt32.not_lt.mpr hle), dif_pos hpos]
  refine exists_congr fun chunks ↦ ⟨fun h ↦ (bind_eq_ok.mp h).choose_spec.2, fun h ↦ ?_⟩
  refine bind_eq_ok.mpr ⟨stop - start + 1, if_pos ?_, h⟩
  -- the loop ends at a height past the end, so the range is not that of all heights
  have hlt := (exists_chunksFrom_iff hpos hle).mp ⟨chunks, h⟩
  have hdiv := Nat.lt_mul_div_succ (stop.toNat - start.toNat) (UInt32.lt_iff_toNat_lt.mp hpos)
  rw [UInt32.toNat_sub_of_le _ _ hle, UInt32.toNat_one]
  have hzero : (0 : UInt32).toNat = 0 := rfl
  omega

theorem buildChunks_cuts (hle : start ≤ stop) (h : buildChunks start stop chunkSize = .ok chunks) :
    Bisect.Cuts start.toNat stop.toNat (chunks.map natRange) ∧
      ∀ r ∈ chunks, r.2.toNat - r.1.toNat + 1 ≤ chunkSize.toNat := by
  rw [buildChunks, if_neg (UInt32.not_lt.mpr hle)] at h
  obtain ⟨_, -, h⟩ := bind_eq_ok.mp h
  split at h
  · exact chunksFrom_cuts hle h
  · cases h

/-- Chunks that partition the heights of a range: none is empty or larger than asked for, each
begins right after the one before, and together they list every height once, in order. -/
structure PartitionInto (start stop chunkSize : UInt32) (chunks : List (UInt32 × UInt32)) :
    Prop where
  nonempty : ∀ r ∈ chunks, r.1 ≤ r.2
  size_le : ∀ r ∈ chunks, r.2.toNat + 1 - r.1.toNat ≤ chunkSize.toNat
  consecutive : chunks.IsChain fun r r' ↦ r'.1.toNat = r.2.toNat + 1
  heights : chunks.flatMap (fun r ↦ List.range' r.1.toNat (r.2.toNat + 1 - r.1.toNat)) =
    List.range' start.toNat (stop.toNat + 1 - start.toNat)

theorem buildChunks_partitionInto (hle : start ≤ stop)
    (h : buildChunks start stop chunkSize = .ok chunks) :
    PartitionInto start stop chunkSize chunks := by
  obtain ⟨hcuts, hsizes⟩ := buildChunks_cuts hle h
  have hnonempty : ∀ r ∈ chunks, r.1.toNat ≤ r.2.toNat := fun r hr ↦
    (hcuts.bounds (List.mem_map_of_mem hr)).2.1
  refine ⟨fun r hr ↦ UInt32.le_iff_toNat_le.mpr (hnonempty r hr), fun r hr ↦ ?_, ?_, ?_⟩
  · rw [Nat.sub_add_comm (hnonempty r hr)]
    exact hsizes r hr
  · exact (List.isChain_map natRange).mp hcuts.isChain
  · rw [← hcuts.flatMap_range', List.flatMap_map]
    rfl

/-- The chunks are built, and partition the range, exactly when the end of the last full chunk
does not overflow: `start + chunkSize * n < 2 ^ 32` for the number `n` of chunks. -/
theorem buildChunks_partition_iff (hle : start ≤ stop) (hpos : 1 ≤ chunkSize) :
    (∃ chunks, buildChunks start stop chunkSize = .ok chunks ∧
        PartitionInto start stop chunkSize chunks) ↔
      start.toNat + chunkSize.toNat * ((stop.toNat - start.toNat) / chunkSize.toNat + 1) <
        u32Size := by
  have hpos' : 0 < chunkSize := by
    rw [UInt32.le_iff_toNat_le, UInt32.toNat_one] at hpos
    exact UInt32.lt_iff_toNat_lt.mpr hpos
  rw [← exists_buildChunks_iff hle hpos']
  constructor
  · rintro ⟨chunks, h, -⟩
    exact ⟨chunks, h⟩
  · rintro ⟨chunks, h⟩
    exact ⟨chunks, h, buildChunks_partitionInto hle h⟩

/-- Ten heights in chunks of three: the last full chunk would end at height 13. -/
theorem buildChunks_partition_ten :
    ∃ chunks, buildChunks 1 10 3 = .ok chunks ∧ PartitionInto 1 10 3 chunks :=
  (buildChunks_partition_iff (by decide) (by decide)).mpr (by decide)

/-- Nine heights in chunks that have room for all of them: the end of the first one overflows. -/
theorem oversized_chunk_overflows : buildChunks 2 10 4294967295 = .error .panic ∧
    ¬∃ chunks, buildChunks 2 10 4294967295 = .ok chunks ∧
      PartitionInto 2 10 4294967295 chunks := by
  have hround : chunksFrom 10 4294967295 (by decide) 2 = .error .panic := by
    rw [chunksFrom, if_pos (by decide)]
    rfl
  have hchunks : buildChunks 2 10 4294967295 = .error .panic := hround
  refine ⟨hchunks, ?_⟩
  rintro ⟨chunks, h, -⟩
  cases hchunks.symm.trans h

end Chunks

/-! ## The command -/

/-- The arguments of the `sync` subcommand. -/
structure SyncArgs where
  viewingKey : String
  startHeight : Option UInt32
  endHeight : Option UInt32
  network : Network
  chunkSize : Option UInt32
  maxRetries : Option UInt32
  orchardOnly : Bool

namespace SyncArgs

variable (args : SyncArgs)

def networkStr : String :=
  match args.network with
  | .mainNetwork => "mainnet"
  | .testNetwork => "testnet"

/-- Without a start height: Sapling activation, or Orchard's when Sapling is skipped. -/
def defaultStartHeight : UInt32 :=
  match args.orchardOnly, args.network with
  | true, .mainNetwork => 1687104
  | true, .testNetwork => 1842420
  | false, .mainNetwork => 419200
  | false, .testNetwork => 280000

/-- The range of the scan; without an end height, up to the tip. -/
def range (tip : Server) : Except Failure (UInt32 × UInt32) := do
  let startHeight := args.startHeight.getD args.defaultStartHeight
  let endHeight ← match args.endHeight with
    | some h => pure h
    | none =>
        match chainTip tip with
        | .ok h => pure (UInt32.ofNat h)
        | .error (.error e) => throw (.error ("Error fetching chain tip: " ++ e))
        | .error .panic => throw .panic
  pure (startHeight, endHeight)

def chunkBlocks : UInt32 := args.chunkSize.getD 10000

/-- The parameters of the scan of one chunk. -/
def params (s e : UInt32) : SyncParams where
  viewingKey := args.viewingKey
  startHeight := s
  endHeight := e
  network := some args.networkStr
  orchardOnly := args.orchardOnly
  maxRetries := some (args.maxRetries.getD 3)
  knownNullifiers := []

end SyncArgs

/-- A failed chunk ends the command. -/
def chunkResult (s e : UInt32) : Except Failure SyncResult → Except Failure SyncResult
  | .ok r => .ok r
  | .error (.error err) =>
      .error (.error ("Error on chunk " ++ s.toNat.repr ++ ".." ++ e.toNat.repr ++ ": " ++ err))
  | .error .panic => .error .panic

theorem chunkResult_eq_ok {s e : UInt32} {x : Except Failure SyncResult} {r : SyncResult} :
    chunkResult s e x = .ok r ↔ x = .ok r := by
  match x with
  | .ok _ => rfl
  | .error (.error _) => exact iff_of_false (fun h ↦ nomatch h) fun h ↦ nomatch h
  | .error .panic => exact iff_of_false (fun h ↦ nomatch h) fun h ↦ nomatch h

def isPanic : Except Failure SyncResult → Bool
  | .error .panic => true
  | _ => false

/-- Add the result of one chunk. -/
def SyncResult.accumulate (total r : SyncResult) : SyncResult :=
  { total with
    transactions := total.transactions ++ r.transactions
    blocksScanned := asU32 (total.blocksScanned + r.blocksScanned) }

/-- The `sync` subcommand.  The `i`-th chunk is scanned with the `i`-th sequence of runtimes
and servers, and every chunk is scanned before any result is looked at. -/
def cmdSync (U : NoteCrypto) (tip : Server) (rts : Nat → Nat → Runtime)
    (srvs : Nat → Nat → Server) (args : SyncArgs) : Except Failure SyncResult := do
  let (startHeight, endHeight) ← args.range tip
  if args.chunkBlocks = 0 then throw (.error "Error: --chunk-size must be greater than 0")
  let chunks ← buildChunks startHeight endHeight args.chunkBlocks
  let chunkResults := chunks.zipIdx.map fun ((s, e), i) ↦
    (s, e, (runSync U (rts i) (srvs i) (args.params s e)).result)
  if chunkResults.any fun (_, _, r) ↦ isPanic r then throw .panic
  let results ← chunkResults.mapM fun (s, e, r) ↦ chunkResult s e r
  pure (results.foldl SyncResult.accumulate emptyResult)

/-! ## What the chunks report -/

section Command

variable {U : NoteCrypto} {tip base : Server} {rts : Nat → Nat → Runtime}
  {srvs : Nat → Nat → Server} {args : SyncArgs} {v : View U} {c : Chain}

/-- The run over a numbered chunk. -/
def chunkRun (U : NoteCrypto) (rts : Nat → Nat → Runtime) (srvs : Nat → Nat → Server)
    (args : SyncArgs) (chunk : (UInt32 × UInt32) × Nat) : RetryRun :=
  runSync U (rts chunk.2) (srvs chunk.2) (args.params chunk.1.1 chunk.1.2)

/-- The ranges that the chunks end up being scanned in. -/
def chunkRanges (U : NoteCrypto) (rts : Nat → Nat → Runtime) (srvs : Nat → Nat → Server)
    (args : SyncArgs) (chunks : List (UInt32 × UInt32)) : List (Nat × Nat) :=
  chunks.zipIdx.flatMap fun chunk ↦
    cutRanges U (rts chunk.2) (srvs chunk.2) (args.params chunk.1.1 chunk.1.2)

theorem transactions_foldl_accumulate (results : List SyncResult) (total : SyncResult) :
    (results.foldl SyncResult.accumulate total).transactions =
      total.transactions ++ results.flatMap SyncResult.transactions := by
  induction results generalizing total with
  | nil => simp
  | cons r results ih =>
      rw [List.foldl_cons, ih, SyncResult.accumulate, List.flatMap_cons, List.append_assoc]

/-- The command returns a result when every chunk does, and its transactions are theirs. -/
theorem cmdSync_eq_ok {res : SyncResult} (h : cmdSync U tip rts srvs args = .ok res) :
    ∃ s e chunks results, args.range tip = .ok (s, e) ∧
      buildChunks s e args.chunkBlocks = .ok chunks ∧
      List.Forall₂ (fun chunk r ↦ (chunkRun U rts srvs args chunk).result = .ok r)
        chunks.zipIdx results ∧
      res.transactions = results.flatMap SyncResult.transactions := by
  unfold cmdSync at h
  obtain ⟨⟨s, e⟩, hrange, h⟩ := bind_eq_ok.mp h
  dsimp only at h
  split at h
  · cases h
  · obtain ⟨chunks, hchunks, h⟩ := bind_eq_ok.mp h
    split at h
    · cases h
    · obtain ⟨results, hresults, h⟩ := bind_eq_ok.mp h
      rw [mapM_eq_ok_iff, List.forall₂_map_left_iff] at hresults
      refine ⟨s, e, chunks, results, hrange, hchunks, ?_, ?_⟩
      · exact hresults.imp fun _ _ hr ↦ chunkResult_eq_ok.mp hr
      · rw [← pure_eq_ok.mp h, transactions_foldl_accumulate]
        rfl

/-- The command returns a result once every chunk does. -/
theorem exists_cmdSync {s e : UInt32} {chunks : List (UInt32 × UInt32)}
    (hrange : args.range tip = .ok (s, e)) (hpos : 0 < args.chunkBlocks)
    (hchunks : buildChunks s e args.chunkBlocks = .ok chunks)
    (hruns : ∀ chunk ∈ chunks.zipIdx, ∃ r, (chunkRun U rts srvs args chunk).result = .ok r) :
    ∃ res, cmdSync U tip rts srvs args = .ok res := by
  have hne : args.chunkBlocks ≠ 0 := by
    intro hzero
    rw [hzero] at hpos
    exact absurd hpos (by decide)
  have hpanic : ((chunks.zipIdx.map fun ((s, e), i) ↦
      (s, e, (runSync U (rts i) (srvs i) (args.params s e)).result)).any
        fun (_, _, r) ↦ isPanic r) = false := by
    rw [List.any_eq_false]
    intro x hx
    obtain ⟨chunk, hchunk, rfl⟩ := List.mem_map.mp hx
    obtain ⟨r, hr⟩ := hruns chunk hchunk
    rw [chunkRun] at hr
    simp [hr, isPanic]
  have hmap : ∃ results, (chunks.zipIdx.map fun ((s, e), i) ↦
      (s, e, (runSync U (rts i) (srvs i) (args.params s e)).result)).mapM
        (fun (s, e, r) ↦ chunkResult s e r) = .ok results := by
    refine ⟨chunks.zipIdx.map fun chunk ↦
      ((chunkRun U rts srvs args chunk).result.toOption).getD emptyResult, ?_⟩
    rw [mapM_eq_ok_iff, List.forall₂_map_left_iff, List.forall₂_map_right_iff, List.forall₂_same]
    intro chunk hchunk
    obtain ⟨r, hr⟩ := hruns chunk hchunk
    rw [hr]
    exact chunkResult_eq_ok.mpr hr
  obtain ⟨results, hresults⟩ := hmap
  refine ⟨results.foldl SyncResult.accumulate emptyResult, ?_⟩
  unfold cmdSync
  refine bind_eq_ok.mpr ⟨(s, e), hrange, ?_⟩
  simp only [if_neg hne]
  refine bind_eq_ok.mpr ⟨chunks, hchunks, ?_⟩
  simp only [hpanic, Bool.false_eq_true, if_false]
  exact bind_eq_ok.mpr ⟨results, hresults, rfl⟩

theorem map_natRange_eq (chunks : List (UInt32 × UInt32)) :
    chunks.map natRange = chunks.zipIdx.map fun chunk ↦ natRange chunk.1 := by
  rw [← Function.comp_def natRange, ← List.map_map, List.zipIdx_map_fst]

/-- The ranges of the chunks cut the range of the command. -/
theorem cuts_chunkRanges {s e : UInt32} {chunks : List (UInt32 × UInt32)} (hle : s ≤ e)
    (hchunks : buildChunks s e args.chunkBlocks = .ok chunks) :
    Bisect.Cuts s.toNat e.toNat (chunkRanges U rts srvs args chunks) := by
  have hcuts := (buildChunks_cuts hle hchunks).1
  rw [map_natRange_eq] at hcuts
  refine hcuts.flatMap fun chunk hchunk ↦ ?_
  have hb := (hcuts.bounds (List.mem_map_of_mem hchunk)).2.1
  exact cuts_cutRanges (p := args.params chunk.1.1 chunk.1.2) (UInt32.le_iff_toNat_le.mpr hb)

/-- Chunks that return a result are put together from one scan of each of their ranges. -/
theorem exists_scans {chunks : List ((UInt32 × UInt32) × Nat)} {results : List SyncResult}
    (hle : ∀ chunk ∈ chunks, chunk.1.1 ≤ chunk.1.2)
    (h : List.Forall₂ (fun chunk r ↦ (chunkRun U rts srvs args chunk).result = .ok r)
      chunks results) :
    ∃ outs : List ((UInt32 × UInt32) × ScanOutput),
      (∀ x ∈ outs, ∃ i m, runSyncInner U (rts i m) (srvs i m)
        ((args.params x.1.1 x.1.2).sub x.1.1 x.1.2) = .ok x.2) ∧
      outs.map (fun x ↦ natRange x.1) = chunks.flatMap (fun chunk ↦
        cutRanges U (rts chunk.2) (srvs chunk.2) (args.params chunk.1.1 chunk.1.2)) ∧
      results.flatMap SyncResult.transactions =
        outs.flatMap (fun x ↦ x.2.result.transactions) := by
  induction h with
  | nil => exact ⟨[], by simp, rfl, rfl⟩
  | @cons chunk r chunks results hr _ ih =>
      obtain ⟨hchunk, hle⟩ := List.forall_mem_cons.mp hle
      obtain ⟨outs, hscan, hranges, htx, -⟩ :=
        runSync_eq_ok (p := args.params chunk.1.1 chunk.1.2) hchunk hr
      obtain ⟨rest, hscan', hranges', htx'⟩ := ih hle
      refine ⟨outs ++ rest, ?_, ?_, ?_⟩
      · intro x hx
        rcases List.mem_append.mp hx with hx | hx
        · exact ⟨chunk.2, hscan x hx⟩
        · exact hscan' x hx
      · rw [List.map_append, hranges, hranges', List.flatMap_cons]
      · rw [List.flatMap_cons, htx, htx', List.flatMap_append]

theorem knownSet_nil : knownSet [] = ∅ := by
  ext n
  simp [knownSet]

/-- What the chunks report is what one scan of the range reports exactly when their ranges
keep every receive and spend together. -/
theorem mem_transactions_iff {s e : UInt32} {chunks : List (UInt32 × UInt32)} {rt : Runtime}
    {results : List SyncResult} {whole : ScanOutput} (hserve : c.Serves base)
    (hf : ∀ i n, (srvs i n).Follows base) (hle : s ≤ e)
    (hv : (args.params s e).view U = .ok v)
    (hchunks : buildChunks s e args.chunkBlocks = .ok chunks)
    (hresults : List.Forall₂ (fun chunk r ↦ (chunkRun U rts srvs args chunk).result = .ok r)
      chunks.zipIdx results)
    (hwhole : runSyncInner U rt base ((args.params s e).sub s e) = .ok whole) :
    (∀ t, t ∈ results.flatMap SyncResult.transactions ↔ t ∈ whole.result.transactions) ↔
      PairsKept base v ∅ c (chunkRanges U rts srvs args chunks) := by
  have hcuts : Bisect.Cuts s.toNat e.toNat (chunkRanges U rts srvs args chunks) :=
    cuts_chunkRanges hle hchunks
  have hchunkle : ∀ chunk ∈ chunks.zipIdx, chunk.1.1 ≤ chunk.1.2 := by
    intro chunk hchunk
    have hmem : natRange chunk.1 ∈ chunks.map natRange :=
      List.mem_map_of_mem (List.fst_mem_of_mem_zipIdx hchunk)
    exact UInt32.le_iff_toNat_le.mpr ((buildChunks_cuts hle hchunks).1.bounds hmem).2.1
  obtain ⟨outs, hscan, hranges, htx⟩ := exists_scans hchunkle hresults
  have hout : ∀ {s' e' : UInt32} {rt' : Runtime} {out : ScanOutput},
      runSyncInner U rt' base ((args.params s' e').sub s' e') = .ok out →
        Outcome base v ∅ (c.slice s'.toNat e'.toNat) out.result := by
    intro s' e' rt' out h
    have ho := outcome_of_runSyncInner (p := (args.params s' e').sub s' e') (v := v) hv
      (hserve _ _) h
    rw [← knownSet_nil]
    exact ho
  have hpart : ∀ x ∈ outs, Outcome base v ∅ (c.slice x.1.1.toNat x.1.2.toNat) x.2.result := by
    intro x hx
    obtain ⟨i, m, hm⟩ := hscan x hx
    exact hout (runSyncInner_follows (hf i m) hm)
  rw [htx]
  exact mem_transactions_iff_pairsKept hcuts hpart hranges (hout hwhole)

/-- Where a range can be scanned, every part of it can. -/
theorem exists_scan_part {p : SyncParams} {rt : Runtime} {whole : ScanOutput} {s e : UInt32}
    (hserve : c.Serves base) (hv : p.view U = .ok v)
    (hwhole : runSyncInner U rt base p = .ok whole) (hs : p.startHeight ≤ s)
    (he : e ≤ p.endHeight) (rt' : Runtime) :
    ∃ out, runSyncInner U rt' base { p with startHeight := s, endHeight := e } = .ok out := by
  obtain ⟨_, _, _, -, -, -, hr, -, -⟩ := runSyncInner_eq_ok hwhole
  have hout := outcome_of_runSyncInner hv (hserve _ _) hwhole
  have hsub : range (c.slice s.toNat e.toNat) ⊆
      range (c.slice p.startHeight.toNat p.endHeight.toNat) :=
    Chain.range_slice_mono (UInt32.le_iff_toNat_le.mp hs) (UInt32.le_iff_toNat_le.mp he)
  have hu : Unimpeded U base { p with startHeight := s, endHeight := e } v
      (c.slice s.toNat e.toNat) := by
    refine ⟨hv, connect_of_runSyncInner hwhole, hserve _ _, known_of_scanResults hr, ?_⟩
    intro l hl hd
    refine hout.answered (c.uniqueTxids_slice _ _) l (hsub hl) (hd.imp_right fun h ↦ ?_)
    exact h.1.mono (Ledger.tracked_mono hsub subset_rfl)
  exact hu.exists_ok rt'

/-- The chunks of a server that never fails: each is scanned once, as a whole. -/
theorem chunkRun_of_steady {s e : UInt32} {chunks : List (UInt32 × UInt32)} {rt : Runtime}
    {whole : ScanOutput} (hserve : c.Serves base) (hsteady : ∀ i n, srvs i n = base)
    (hle : s ≤ e) (hv : (args.params s e).view U = .ok v)
    (hchunks : buildChunks s e args.chunkBlocks = .ok chunks)
    (hwhole : runSyncInner U rt base (args.params s e) = .ok whole)
    (rts : Nat → Nat → Runtime) {chunk : (UInt32 × UInt32) × Nat}
    (hchunk : chunk ∈ chunks.zipIdx) :
    ∃ out, runSyncInner U (rts chunk.2 0) (srvs chunk.2 0)
      (args.params chunk.1.1 chunk.1.2) = .ok out := by
  have hmem : natRange chunk.1 ∈ chunks.map natRange :=
    List.mem_map_of_mem (List.fst_mem_of_mem_zipIdx hchunk)
  obtain ⟨hs, -, he⟩ := (buildChunks_cuts hle hchunks).1.bounds hmem
  rw [hsteady]
  exact exists_scan_part (p := args.params s e) hserve hv hwhole (UInt32.le_iff_toNat_le.mpr hs)
    (UInt32.le_iff_toNat_le.mpr he) _

/-- A first scan that succeeds is the whole run. -/
theorem exists_runSync_of_ok {rts : Nat → Runtime} {srvs : Nat → Server} {p : SyncParams}
    {out : ScanOutput} (h : runSyncInner U (rts 0) (srvs 0) p = .ok out) :
    ∃ res, (runSync U rts srvs p).result = .ok res := by
  unfold runSync
  dsimp only
  split
  · exact ⟨out.result, by rw [h]; rfl⟩
  · have hsub : runSyncInner U (rts 0) (srvs 0) (p.sub p.startHeight p.endHeight) = .ok out := h
    rw [retryLoop]
    simp only [hsub, RetryRun.result_after, retryLoop]
    exact ⟨_, rfl⟩

/-- What `cmdSync` reports is what one scan of the range reports exactly when no receive and
spend are cut apart.  With a server that never fails the chunks are not split further, and
the command returns a result unless a height overflows. -/
theorem cmdSync_iff_pairsKept {s e : UInt32} {rt : Runtime} {whole : ScanOutput}
    (hserve : c.Serves base) (hf : ∀ i n, (srvs i n).Follows base)
    (hrange : args.range tip = .ok (s, e)) (hle : s ≤ e) (hpos : 0 < args.chunkBlocks)
    (hv : (args.params s e).view U = .ok v)
    (hwhole : runSyncInner U rt base ((args.params s e).sub s e) = .ok whole) :
    (∀ res chunks, cmdSync U tip rts srvs args = .ok res →
      buildChunks s e args.chunkBlocks = .ok chunks →
        ((∀ t, t ∈ res.transactions ↔ t ∈ whole.result.transactions) ↔
          PairsKept base v ∅ c (chunkRanges U rts srvs args chunks))) ∧
    ((∀ i n, srvs i n = base) →
      ((∃ res, cmdSync U tip rts srvs args = .ok res) ↔
        s.toNat + args.chunkBlocks.toNat *
          ((e.toNat - s.toNat) / args.chunkBlocks.toNat + 1) < u32Size) ∧
      ∀ chunks, buildChunks s e args.chunkBlocks = .ok chunks →
        chunkRanges U rts srvs args chunks = chunks.map natRange) := by
  refine ⟨fun res chunks h hchunks ↦ ?_, fun hsteady ↦ ⟨?_, fun chunks hchunks ↦ ?_⟩⟩
  · obtain ⟨s', e', chunks', results, hrange', hchunks', hresults, htx⟩ := cmdSync_eq_ok h
    cases hrange.symm.trans hrange'
    cases hchunks.symm.trans hchunks'
    rw [htx]
    exact mem_transactions_iff hserve hf hle hv hchunks hresults hwhole
  · rw [← exists_buildChunks_iff hle hpos]
    constructor
    · rintro ⟨res, h⟩
      obtain ⟨s', e', chunks, -, hrange', hchunks, -⟩ := cmdSync_eq_ok h
      cases hrange.symm.trans hrange'
      exact ⟨chunks, hchunks⟩
    · rintro ⟨chunks, hchunks⟩
      refine exists_cmdSync hrange hpos hchunks fun chunk hchunk ↦ ?_
      obtain ⟨out, hout⟩ := chunkRun_of_steady hserve hsteady hle hv hchunks hwhole rts hchunk
      exact exists_runSync_of_ok hout
  · have hone : ∀ chunk ∈ chunks.zipIdx, cutRanges U (rts chunk.2) (srvs chunk.2)
        (args.params chunk.1.1 chunk.1.2) = [natRange chunk.1] := by
      intro chunk hchunk
      obtain ⟨out, hout⟩ := chunkRun_of_steady hserve hsteady hle hv hchunks hwhole rts hchunk
      exact cutRanges_of_ok hout
    rw [chunkRanges, List.flatMap_congr hone, map_natRange_eq, List.map_eq_flatMap]

/-! ### A chunk boundary between a note and its spend -/

def oneBlockChunks : SyncArgs where
  viewingKey := "uview"
  startHeight := some 1
  endHeight := some 2
  network := .testNetwork
  chunkSize := some 1
  maxRetries := none
  orchardOnly := false

theorem cmdSync_oneBlockChunks : ((cmdSync sampleCrypto sampleServer (fun _ _ ↦ sampleRuntime)
    (fun _ _ ↦ sampleServer) oneBlockChunks).toOption.map SyncResult.summary) =
      some [("01", [false])] := by
  decide +kernel

theorem scan_oneBlockChunks : ((runSyncInner sampleCrypto sampleRuntime sampleServer
    ((oneBlockChunks.params 1 2).sub 1 2)).toOption.map fun out ↦ out.result.summary) =
      some [("01", [true]), ("02", [])] := by
  decide +kernel

/-- With chunks of one block the received note is reported unspent, and the spending
transaction is lost. -/
theorem chunk_loses_spend :
    sampleChain.Serves sampleServer ∧
      ∃ res whole,
        cmdSync sampleCrypto sampleServer (fun _ _ ↦ sampleRuntime) (fun _ _ ↦ sampleServer)
          oneBlockChunks = .ok res ∧
        runSyncInner sampleCrypto sampleRuntime sampleServer
          ((oneBlockChunks.params 1 2).sub 1 2) = .ok whole ∧
        ¬ ∀ t, t ∈ res.transactions ↔ t ∈ whole.result.transactions := by
  obtain ⟨res, hres, hsum⟩ := Option.map_eq_some_iff.mp cmdSync_oneBlockChunks
  obtain ⟨whole, hwhole, hsum'⟩ := Option.map_eq_some_iff.mp scan_oneBlockChunks
  refine ⟨fun _ _ ↦ rfl, res, whole, toOption_eq_some.mp hres, toOption_eq_some.mp hwhole,
    fun htx ↦ ?_⟩
  have hmem := (mem_summary_congr htx ("02", [])).mpr (hsum' ▸ by decide)
  rw [hsum] at hmem
  exact absurd hmem (by decide)

def twoBlockChunks : SyncArgs := { oneBlockChunks with chunkSize := some 2 }

/-- One chunk for both blocks reports what one scan of them reports. -/
theorem cmdSync_twoBlockChunks : ∃ res ∈ (cmdSync sampleCrypto sampleServer
    (fun _ _ ↦ sampleRuntime) (fun _ _ ↦ sampleServer) twoBlockChunks).toOption,
      ∃ whole ∈ (runSyncInner sampleCrypto sampleRuntime sampleServer
        ((twoBlockChunks.params 1 2).sub 1 2)).toOption,
        res.transactions = whole.result.transactions := by
  decide +kernel

/-- The equivalence at that input, and at chunks of two blocks, where both sides hold. -/
theorem cmdSync_iff_pairsKept_chunks :
    (∃ res chunks, ∃ whole : ScanOutput,
      cmdSync sampleCrypto sampleServer (fun _ _ ↦ sampleRuntime) (fun _ _ ↦ sampleServer)
        oneBlockChunks = .ok res ∧
      buildChunks 1 2 1 = .ok chunks ∧
      ((∀ t, t ∈ res.transactions ↔ t ∈ whole.result.transactions) ↔
        PairsKept sampleServer sampleView ∅ sampleChain (chunkRanges sampleCrypto
          (fun _ _ ↦ sampleRuntime) (fun _ _ ↦ sampleServer) oneBlockChunks chunks))) ∧
    ∃ res chunks, ∃ whole : ScanOutput,
      cmdSync sampleCrypto sampleServer (fun _ _ ↦ sampleRuntime) (fun _ _ ↦ sampleServer)
        twoBlockChunks = .ok res ∧
      buildChunks 1 2 2 = .ok chunks ∧
      (∀ t, t ∈ res.transactions ↔ t ∈ whole.result.transactions) ∧
      PairsKept sampleServer sampleView ∅ sampleChain (chunkRanges sampleCrypto
        (fun _ _ ↦ sampleRuntime) (fun _ _ ↦ sampleServer) twoBlockChunks chunks) := by
  constructor
  · obtain ⟨res, hres, -⟩ := Option.map_eq_some_iff.mp cmdSync_oneBlockChunks
    obtain ⟨whole, hwhole, -⟩ := Option.map_eq_some_iff.mp scan_oneBlockChunks
    have hres' := toOption_eq_some.mp hres
    obtain ⟨chunks, hchunks⟩ :=
      (exists_buildChunks_iff (by decide : (1 : UInt32) ≤ 2) (by decide : (0 : UInt32) < 1)).mpr
        (by decide)
    exact ⟨res, chunks, whole, hres', hchunks, (cmdSync_iff_pairsKept (s := 1) (e := 2)
      (c := sampleChain) (v := sampleView) (fun _ _ ↦ rfl)
      (fun _ _ ↦ ⟨id, fun _ _ _ h ↦ h, fun _ _ _ h ↦ h⟩) rfl (by decide) (by decide) rfl
      (toOption_eq_some.mp hwhole)).1 res chunks hres' hchunks⟩
  · obtain ⟨res, hres, whole, hwhole, htx⟩ := cmdSync_twoBlockChunks
    have hres' := toOption_eq_some.mp hres
    obtain ⟨chunks, hchunks⟩ :=
      (exists_buildChunks_iff (by decide : (1 : UInt32) ≤ 2) (by decide : (0 : UInt32) < 2)).mpr
        (by decide)
    have hsame : ∀ t, t ∈ res.transactions ↔ t ∈ whole.result.transactions := by
      intro t
      rw [htx]
    have hiff := (cmdSync_iff_pairsKept (s := 1) (e := 2) (c := sampleChain) (v := sampleView)
      (fun _ _ ↦ rfl) (fun _ _ ↦ ⟨id, fun _ _ _ h ↦ h, fun _ _ _ h ↦ h⟩) rfl (by decide)
      (by decide) rfl (toOption_eq_some.mp hwhole)).1 res chunks hres' hchunks
    exact ⟨res, chunks, whole, hres', hchunks, hsame, hiff.mp hsame⟩

end Command

end LedgerZcash
