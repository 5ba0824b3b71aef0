import LedgerZcash.Crypto.Keys
import LedgerZcash.Crypto.OneByOne
import LedgerZcash.Sync.Interleaving
import LedgerZcash.Sync.OrchardOnly
import LedgerZcash.Sync.Pairing

/-!
# A wallet without Sapling

The viewing key of an account may be given out without its Sapling part.  A scan with such a
key, in either mode, is the scan of the whole key with `orchard_only`, but for the Sapling notes
of the transactions it reports (`isOk_bare`, `same_bare`).  The address to receive at is the
same, and so is what either orchestrator hands to its builder (`derived_bare`).
-/

namespace LedgerZcash

open Hex Collect

/-! ## Without Sapling notes -/

def DecryptedTx.withoutSapling (d : DecryptedTx) : DecryptedTx := { d with saplingOutputs := [] }

def ShieldedTransaction.withoutSapling (t : ShieldedTransaction) : ShieldedTransaction :=
  { t with saplingNotes := [] }

def SyncResult.withoutSapling (r : SyncResult) : SyncResult :=
  { r with transactions := r.transactions.map ShieldedTransaction.withoutSapling }

/-- The outputs of each pool are decrypted with the key of the pool. -/
def NoteCrypto.DecryptsByPool (U : NoteCrypto) : Prop :=
  ∀ network height tx ufvk bare, U.orchard bare = U.orchard ufvk → U.saplingIvk bare = none →
    U.decryptTransaction network height tx bare =
      { U.decryptTransaction network height tx ufvk with saplingOutputs := [] }

section Bare

variable {U : NoteCrypto} {X : KeyUpstream U} {ufvk bare : U.Ufvk} (hfree : SaplingFree X ufvk bare)
include hfree

/-! ## One transaction -/

theorem fullDecrypt_bare (hpools : U.DecryptsByPool) (txHex : String) (height : Nat)
    (network : Network) : fullDecryptTxWithUfvk U txHex bare height network =
      (fullDecryptTxWithUfvk U txHex ufvk height network).map DecryptedTx.withoutSapling := by
  have houtput : (mapOrchardFamilyOutput U · bare) = (mapOrchardFamilyOutput U · ufvk) := by
    funext f
    rw [mapOrchardFamilyOutput, mapOrchardFamilyOutput, hfree.orchard]
  rw [fullDecryptTxWithUfvk, fullDecryptTxWithUfvk]
  cases Hex.decode txHex with
  | error e => rfl
  | ok bytes =>
      simp only [Except.mapError, ok_bind]
      cases U.readTransaction network height bytes with
      | error e => rfl
      | ok tx =>
          simp only [ok_bind, hpools network height tx ufvk bare hfree.orchard hfree.sapling,
            houtput]
          rfl

/-- Trial decryption with the key is that of the whole key on the Orchard family. -/
theorem trialMatches_bare (hs : U.saplingBatch.TriesEach) (zip212 : Zip212Enforcement)
    (mode : Bool) (tx : Proto.CompactTx) :
    trialMatches U (prepareIvksOf U bare) zip212 (toCompactTransaction mode tx) =
      trialMatches U (prepareIvksOf U ufvk) zip212 (toCompactTransaction true tx) := by
  have hkeys : (prepareIvksOf U bare).orchard = (prepareIvksOf U ufvk).orchard := by
    rw [prepareIvksOf, prepareIvksOf, hfree.orchard]
  have hnone : ∀ d, (U.saplingBatch.single ((prepareIvksOf U bare).sapling.map Prod.fst) d).isSome
      = false := by
    intro d
    refine Bool.eq_false_iff.mpr fun h ↦ ?_
    obtain ⟨ivk, hivk, -⟩ := (hs _ d).mp h
    simp [prepareIvksOf, hfree.sapling] at hivk
  have hsapling : ∀ os : List CompactSaplingOutput, hits (parseCompactSaplingOutput U) (fun d ↦
      U.saplingBatch.single ((prepareIvksOf U bare).sapling.map Prod.fst) (zip212, d)) os =
        false := by
    intro os
    refine Bool.eq_false_iff.mpr fun h ↦ ?_
    obtain ⟨-, -, d, -, hd⟩ := hits_eq_true.mp h
    exact Bool.false_ne_true ((hnone _).symm.trans hd)
  simp only [trialMatches, saplingHits, hsapling, orchardHits, ironwoodHits, hkeys]
  rfl

/-! ## The scan -/

variable (network : Network) (mode : Bool) (srv : Server)

theorem opened_bare (hpools : U.DecryptsByPool) (l : Located) :
    l.opened srv ⟨network, bare, mode⟩ =
      (l.opened srv ⟨network, ufvk, true⟩).map fun x ↦ (x.1, x.2.withoutSapling) := by
  simp only [Located.opened, fullDecrypt_bare hfree hpools]
  cases srv.getTransaction l.height l.tx.txid with
  | error e => rfl
  | ok raw =>
      simp only [Except.toOption, Option.bind_eq_bind, Option.bind_some]
      cases fullDecryptTxWithUfvk U (Hex.encode raw) ufvk l.height network with
      | error e => rfl
      | ok d => rfl

theorem matched_bare (hs : U.saplingBatch.TriesEach) (l : Located) :
    l.matched ⟨network, bare, mode⟩ = l.matched ⟨network, ufvk, true⟩ :=
  trialMatches_bare hfree hs _ mode l.tx

/-- Both scans see the same ledger. -/
theorem ledger_bare (hs : U.saplingBatch.TriesEach) (hpools : U.DecryptsByPool) :
    (View.mk network bare mode).ledger srv = (View.mk network ufvk true).ledger srv := by
  simp only [View.ledger, Ledger.mk.injEq, matched_bare hfree network mode hs,
    Located.notes, opened_bare hfree network mode srv hpools, Option.isSome_map, true_and, and_true]
  funext l pool
  ext n
  cases pool <;>
    · simp only [Set.mem_ofPred_eq, Option.toList_map, List.flatMap_map]
      rfl

omit hfree in
/-- What a scan with `orchard_only` detects has an action, so its block is looked at. -/
theorem looked_of_detected {blocks : List Proto.CompactBlock} {K : Set Bytes32} {l : Located}
    (h : l ∈ ((View.mk network ufvk true).ledger srv).detected (range blocks) K) :
    skipsBlock mode l.block = false := by
  refine Bool.eq_false_iff.mpr fun hskip ↦ ?_
  obtain ⟨-, hall⟩ := skipsBlock_eq_true.mp hskip
  obtain ⟨hl, -, hfound | ⟨pool, n, hn, -⟩⟩ := h
  · obtain ⟨ha, hi⟩ := hall l.tx (mem_located.mp hl).2
    have hmatched : l.matched (View.mk network ufvk true) = true := hfound
    simp [Located.matched, trialMatches, saplingHits, orchardHits, ironwoodHits, hits,
      toCompactTransaction, ha, hi] at hmatched
  · obtain ⟨ha, hi⟩ := hall l.tx (mem_located.mp hl).2
    have hrevealed : n ∈ revealedBy pool l.tx := hn
    cases pool <;> simp [revealedBy, Pool.actions, ha, hi] at hrevealed

omit hfree in
/-- A block that is looked at places its notes alike. -/
theorem blockFetchCtx_bare {b : Proto.CompactBlock} (h : ∀ m, skipsBlock m b = false)
    (txid : String) : blockFetchCtx ((View.mk network bare mode).blockResult b) txid =
      blockFetchCtx ((View.mk network ufvk true).blockResult b) txid := by
  have hslow : ∀ (key : U.Ufvk) (m : Bool), (View.mk network key m).blockResult b =
      slowPath U 1 (prepareIvksOf U key) m network b :=
    fun key m ↦ processCompactBlock_of_looked (h m)
  rw [hslow, hslow]
  simp only [blockFetchCtx, computeBlockPositionCtx, computeIronwoodBlockPositionCtx, slowPath,
    List.map_map]
  rfl

omit hfree in
/-- The records differ in the Sapling notes alone. -/
theorem report_bare {l : Located} (h : ∀ m, skipsBlock m l.block = false)
    (S : Pool → Set Bytes32) (x : List UInt8 × DecryptedTx) :
    l.report ⟨network, bare, mode⟩ S (x.1, x.2.withoutSapling) =
      (l.report ⟨network, ufvk, true⟩ S x).withoutSapling := by
  have hctx : blockFetchCtx ((View.mk network bare mode).blockResult l.block) l.txid =
      blockFetchCtx ((View.mk network ufvk true).blockResult l.block) l.txid :=
    blockFetchCtx_bare network mode h l.txid
  simp only [Located.report, Located.record, hctx]
  rfl

omit hfree in
theorem blocksScanned_of_runSyncInner {srv : Server} {p : SyncParams}
    {blocks : List Proto.CompactBlock} {rt : Runtime} {out : ScanOutput}
    (hb : srv.getBlockRange p.startHeight.toNat p.endHeight.toNat = .ok (blocks.map .ok))
    (h : runSyncInner U rt srv p = .ok out) :
    out.result.blocksScanned = asU32 blocks.length := by
  obtain ⟨v, blocks', results, -, hb', hs, hr, -, -⟩ := runSyncInner_eq_ok h
  have hlen : blocks.length = blocks'.length := by
    simpa using congrArg List.length (Except.ok.inj (hb.symm.trans hb'))
  rw [(scanResults_eq_ok hr).2.2.1, hs.perm.length_eq, List.length_map, hlen]

variable {network} {mode} {srv} {p q : SyncParams} (hp : p.view U = .ok ⟨network, ufvk, true⟩)
  (hq : q.view U = .ok ⟨network, bare, mode⟩) (hstart : q.startHeight = p.startHeight)
  (hend : q.endHeight = p.endHeight) (hknown : q.knownNullifiers = p.knownNullifiers)
  (hs : U.saplingBatch.TriesEach) (hpools : U.DecryptsByPool)
include hp hq hstart hend hknown hs hpools

/-- What stops one of the two scans stops the other. -/
theorem isOk_bare (rt rt' : Runtime) : (∃ out, runSyncInner U rt srv q = .ok out) ↔
    ∃ out, runSyncInner U rt' srv p = .ok out := by
  have hopened : ∀ l : Located, l.opened srv ⟨network, bare, mode⟩ = none ↔
      l.opened srv ⟨network, ufvk, true⟩ = none := by
    intro l
    rw [opened_bare hfree network mode srv hpools, Option.map_eq_none_iff]
  have hanswers : ∀ blocks, Answers srv ⟨network, bare, mode⟩ q.knownNullifiers blocks ↔
      Answers srv ⟨network, ufvk, true⟩ p.knownNullifiers blocks := by
    intro blocks
    simp only [Answers, matched_bare hfree network mode hs, hopened, hknown,
      ledger_bare hfree network mode srv hs hpools]
  rw [runSyncInner_isOk_iff, runSyncInner_isOk_iff]
  constructor
  · rintro ⟨v, blocks, hv, hconnect, hstream, hdecoded, h⟩
    cases hq.symm.trans hv
    exact ⟨_, blocks, hp, hconnect, hstart ▸ hend ▸ hstream, hknown ▸ hdecoded,
      (hanswers blocks).mp h⟩
  · rintro ⟨v, blocks, hv, hconnect, hstream, hdecoded, h⟩
    cases hp.symm.trans hv
    exact ⟨_, blocks, hq, hconnect, hstart ▸ hend ▸ hstream, hknown ▸ hdecoded,
      (hanswers blocks).mpr h⟩

/-- Their results differ in the Sapling notes alone. -/
theorem same_bare {blocks : List Proto.CompactBlock}
    (hb : srv.getBlockRange p.startHeight.toNat p.endHeight.toNat = .ok (blocks.map .ok))
    (hu : UniqueTxids blocks) {rt rt' : Runtime} {out out' : ScanOutput}
    (h : runSyncInner U rt srv q = .ok out) (h' : runSyncInner U rt' srv p = .ok out') :
    out.result.Same out'.result.withoutSapling := by
  have hledger := ledger_bare hfree network mode srv hs hpools
  have hbq : srv.getBlockRange q.startHeight.toNat q.endHeight.toNat = .ok (blocks.map .ok) := by
    rw [hstart, hend, hb]
  have hout := outcome_of_runSyncInner hq hbq h
  have hout' := outcome_of_runSyncInner hp hb h'
  rw [hknown] at hout
  refine ⟨?_, ?_, ?_⟩
  · have hnodup : (out'.result.transactions.map ShieldedTransaction.withoutSapling).Nodup := by
      refine List.Nodup.of_map ShieldedTransaction.txid ?_
      rw [List.map_map]
      exact hout'.nodup hu
    refine (List.perm_ext_iff_of_nodup (List.Nodup.of_map _ (hout.nodup hu)) hnodup).mpr fun t ↦ ?_
    rw [List.mem_map]
    constructor
    · intro ht
      obtain ⟨l, hl, x, hx, rfl⟩ := hout.sound t ht
      rw [hledger] at hl ⊢
      rw [opened_bare hfree network mode srv hpools] at hx
      obtain ⟨x', hx', rfl⟩ := Option.map_eq_some_iff.mp hx
      exact ⟨_, hout'.complete hu l hl x' hx', (report_bare network mode
        (fun m ↦ looked_of_detected network m srv hl) _ x').symm⟩
    · rintro ⟨t', ht', rfl⟩
      obtain ⟨l, hl, x', hx', rfl⟩ := hout'.sound t' ht'
      have hx : l.opened srv ⟨network, bare, mode⟩ = some (x'.1, x'.2.withoutSapling) := by
        rw [opened_bare hfree network mode srv hpools, hx', Option.map_some]
      have hin := hout.complete hu l (hledger ▸ hl) _ hx
      rwa [hledger, report_bare network mode fun m ↦ looked_of_detected network m srv hl] at hin
  · rw [blocksScanned_of_runSyncInner hbq h]
    exact (blocksScanned_of_runSyncInner hb h').symm
  · obtain ⟨results, hscanned, hperm⟩ := exists_spentKnown hq hbq h
    obtain ⟨results', hscanned', hperm'⟩ := exists_spentKnown hp hb h'
    rw [hknown] at hperm
    refine hperm.trans (List.Perm.trans ?_ hperm'.symm)
    have hspent : ∀ pool, (spentOf srv ⟨network, bare, mode⟩ p.knownNullifiers results pool).Perm
        (spentOf srv ⟨network, ufvk, true⟩ p.knownNullifiers results' pool) := by
      intro pool
      refine (List.perm_ext_iff_of_nodup (List.nodup_dedup _) (List.nodup_dedup _)).mpr fun n ↦ ?_
      exact hscanned.mem_spentOf.trans (hledger ▸ hscanned'.mem_spentOf.symm)
    exact (((hspent .orchard).append (hspent .ironwood)).filter _).map _

end Bare

/-! ## The request -/

section Craft

variable {S : ShardTrees} {T : CraftTypes S.Path} {K : WalletKeys T} {key key' : K.Ufvk}
  {s s' : String} (hparse : parseEncodedUfvk K s = .ok key)
  (hparse' : parseEncodedUfvk K s' = .ok key') (horchard : K.orchard key' = K.orchard key)
  (hp2pkh : K.p2pkh key' = K.p2pkh key)
include hparse hparse' horchard hp2pkh

/-- What a request hands to the builder depends on the Orchard and the transparent part. -/
theorem craftInputs_congr (tip : Except Failure Nat) (srv : Server) (req : CraftRequest) :
    craftInputs S K tip srv { req with ufvk := some s' } =
      craftInputs S K tip srv { req with ufvk := some s } := by
  have hkeys : shieldedKeys K (some key') = shieldedKeys K (some key) := by
    funext hasBundle
    simp only [shieldedKeys, orElse, ok_bind, horchard]
  have hread : ∀ {α : Type} (text : String) (k : K.Ufvk) (f : Option K.Ufvk → Except Failure α),
      parseEncodedUfvk K text = .ok k →
        ((some text).mapM (parseEncodedUfvk K) >>= f) = f (some k) := by
    intro α text k f h
    show ((do let a ← parseEncodedUfvk K text; pure (some a)) >>= f) = _
    rw [h]
    rfl
  simp only [craftInputs, hread _ _ _ hparse, hread _ _ _ hparse', hkeys, Option.bind_some, hp2pkh,
    Option.isNone_some]

theorem craftIronwoodInputs_congr (tip : Except Failure Nat) (srv : Server)
    (req : IronwoodCraftRequest) :
    craftIronwoodInputs S K tip srv { req with ufvk := s' } =
      craftIronwoodInputs S K tip srv { req with ufvk := s } := by
  simp only [craftIronwoodInputs, hparse, hparse', ok_bind, ironwoodFvk, horchard, hp2pkh]

end Craft

/-! ## The wallet -/

section Wallet

/-- The same scan with another key, in the given mode. -/
def SyncParams.withKey (p : SyncParams) (viewingKey : String) (orchardOnly : Bool) : SyncParams :=
  { p with viewingKey, orchardOnly }

theorem view_withKey {U : NoteCrypto} {p : SyncParams} {network : Network} {ufvk : U.Ufvk}
    {key : String} (hnetwork : parseNetwork p.network = .ok network)
    (hkey : U.decodeUfvk key = .ok ufvk) (mode : Bool) :
    (p.withKey key mode).view U = .ok ⟨network, ufvk, mode⟩ := by
  have hivks : prepareIvks U key = .ok (prepareIvksOf U ufvk) := by rw [prepareIvks, hkey]
  have hparse : parseSyncKeys U p.network key = .ok (network, prepareIvksOf U ufvk, ufvk) :=
    bind_eq_ok.mpr ⟨_, orFail_eq_ok.mpr hnetwork, bind_eq_ok.mpr ⟨_, orFail_eq_ok.mpr hivks,
      bind_eq_ok.mpr ⟨_, orFail_eq_ok.mpr hkey, rfl⟩⟩⟩
  show (parseSyncKeys U p.network key).map _ = _
  rw [hparse]
  rfl

/-- A scan that succeeds has a network. -/
theorem exists_network {U : NoteCrypto} {rt : Runtime} {srv : Server} {p : SyncParams}
    (h : ∃ out, runSyncInner U rt srv p = .ok out) :
    ∃ network, parseNetwork p.network = .ok network := by
  obtain ⟨v, blocks, hrun⟩ := runSyncInner_isOk_iff.mp h
  obtain ⟨network, hnetwork, -⟩ := bind_eq_ok.mp (parseSyncKeys_of_view hrun.view).1
  exact ⟨network, orFail_eq_ok.mp hnetwork⟩

variable {U : NoteCrypto} (X : KeyUpstream U) {S : ShardTrees} {T : CraftTypes S.Path}
  (K : WalletKeys T)

/-- The orchestrators read the parts of a key with the same upstream functions. -/
def KeyUpstream.ReadsAlike : Prop :=
  ∃ (fvkOf : U.OrchardFvk → T.Fvk) (keyOf : X.AccountPubKey → K.AccountPubKey),
    ∀ s networkType ufvk, ReadsAs X s networkType ufvk → ∃ key, parseEncodedUfvk K s = .ok key ∧
      K.orchard key = (U.orchard ufvk).map fvkOf ∧ K.p2pkh key = (X.p2pkh ufvk).map keyOf

/-- The text `s'` does for a wallet what `s` does, but for Sapling. -/
structure StandsFor (s s' : String) : Prop where
  address : orchardAddressFromUfvk X s' = orchardAddressFromUfvk X s
  scans (srv : Server) (p : SyncParams) (mode : Bool) (rt rt' : Runtime) :
    (∃ out, runSyncInner U rt srv (p.withKey s' mode) = .ok out) ↔
      ∃ out, runSyncInner U rt' srv (p.withKey s true) = .ok out
  results {srv : Server} {p : SyncParams} {mode : Bool} {rt rt' : Runtime}
    {blocks : List Proto.CompactBlock} {out out' : ScanOutput} :
    srv.getBlockRange p.startHeight.toNat p.endHeight.toNat = .ok (blocks.map .ok) →
    UniqueTxids blocks → runSyncInner U rt srv (p.withKey s' mode) = .ok out →
    runSyncInner U rt' srv (p.withKey s true) = .ok out' →
    out.result.Same out'.result.withoutSapling
  orchard (tip : Except Failure Nat) (srv : Server) (req : CraftRequest) :
    craftInputs S K tip srv { req with ufvk := some s' } =
      craftInputs S K tip srv { req with ufvk := some s }
  ironwood (tip : Except Failure Nat) (srv : Server) (req : IronwoodCraftRequest) :
    craftIronwoodInputs S K tip srv { req with ufvk := s' } =
      craftIronwoodInputs S K tip srv { req with ufvk := s }

variable {X} {K} (L : X.Lawful) (hs : U.saplingBatch.TriesEach) (hpools : U.DecryptsByPool)
  (hreads : X.ReadsAlike K)
include L hs hpools hreads

theorem StandsFor.of_saplingFree {s s' : String} {networkType : NetworkType} {ufvk bare : U.Ufvk}
    (hfull : ReadsAs X s networkType ufvk) (hbare : ReadsAs X s' networkType bare)
    (hfree : SaplingFree X ufvk bare) : StandsFor X K s s' := by
  have hufvk : U.decodeUfvk s = .ok ufvk := L.decodeUfvk.mpr ⟨_, hfull⟩
  have hufvk' : U.decodeUfvk s' = .ok bare := L.decodeUfvk.mpr ⟨_, hbare⟩
  obtain ⟨fvkOf, keyOf, hread⟩ := hreads
  obtain ⟨key, hkey, horchard, hp2pkh⟩ := hread _ _ _ hfull
  obtain ⟨key', hkey', horchard', hp2pkh'⟩ := hread _ _ _ hbare
  have ho : K.orchard key' = K.orchard key := by rw [horchard', horchard, hfree.orchard]
  have ht : K.p2pkh key' = K.p2pkh key := by rw [hp2pkh', hp2pkh, hfree.p2pkh]
  refine ⟨orchardAddress_congr hfull hbare hfree.orchard, fun srv p mode rt rt' ↦ ?_,
    fun {srv p mode rt rt' blocks out out'} hb hu h h' ↦ ?_,
    craftInputs_congr hkey hkey' ho ht, craftIronwoodInputs_congr hkey hkey' ho ht⟩
  · cases hnetwork : parseNetwork p.network with
    | error e =>
        have hnone : ∀ (rt : Runtime) (k : String) (m : Bool),
            ¬ ∃ out, runSyncInner U rt srv (p.withKey k m) = .ok out := by
          intro rt k m h
          obtain ⟨network, hok⟩ := exists_network h
          cases hnetwork.symm.trans hok
        exact iff_of_false (hnone _ _ _) (hnone _ _ _)
    | ok network =>
        exact isOk_bare hfree (view_withKey hnetwork hufvk true) (view_withKey hnetwork hufvk' mode)
          rfl rfl rfl hs hpools rt rt'
  · obtain ⟨network, hnetwork⟩ := exists_network ⟨out, h⟩
    exact same_bare hfree (p := p.withKey s true) (view_withKey hnetwork hufvk true)
      (view_withKey hnetwork hufvk' mode) rfl rfl rfl hs hpools hb hu h h'

/-- An account's keys can be derived with a text that leaves Sapling out: everything else is the
same, and the text stands for the whole one. -/
theorem derived_bare {phrase : String} {account : Nat} {network : Network}
    {xpubPath : Option String} {full : DerivedKeys}
    (h : deriveKeys X phrase account network xpubPath = .ok full) :
    ∃ s', deriveKeysWithOptions X phrase account network xpubPath ⟨false⟩ =
        .ok { full with ufvk := s' } ∧ StandsFor X K full.ufvk s' := by
  obtain ⟨ufvk, s', bare, hfull, hbare, hfree, hderive⟩ := deriveKeysWithOptions_bare L h
  exact ⟨s', hderive, .of_saplingFree L hs hpools hreads hfull hbare hfree⟩

end Wallet

/-! A key with both parts, and a chain that pays either. -/

section Sample

def networkTag : NetworkType → String
  | .main => "uview"
  | .test => "uviewtest"
  | .regtest => "uviewregtest"

/-- A container is whether it has a Sapling item. -/
def bothItems : Bool → List FvkKind
  | true => [.sapling, .orchard]
  | false => [.orchard]

def encodeBoth (networkType : NetworkType) (container : Bool) : String :=
  networkTag networkType ++ if container then "1so" else "1o"

def decodeBoth (s : String) : Except String (NetworkType × Unit × Bool) :=
  match [(.main, true), (.main, false), (.test, true), (.test, false), (.regtest, true),
    (.regtest, false)].find? fun x ↦ encodeBoth x.1 x.2 = s with
  | some (networkType, container) => .ok (networkType, (), container)
  | none => .error "not a viewing key"

/-- Every byte of a transaction is a Sapling output, and an Orchard one unless it is zero. -/
def bothCrypto : NoteCrypto where
  Ufvk := Bool
  SaplingIvk := Scope
  OrchardFvk := Unit
  OrchardIvk := Scope
  Transaction := List UInt8
  decodeUfvk s := (decodeBoth s).map fun x ↦ x.2.2
  saplingIvk ufvk := if ufvk then some id else none
  orchard _ := some ()
  orchardIvk _ scope := scope
  validCmu _ := true
  validCmx _ := true
  validNullifier _ := true
  saplingBatch := .ofKey fun _ _ ↦ true
  orchardBatch := .ofKey fun _ a ↦ a.cmx ≠ fill 32 0
  ironwoodBatch := .ofKey fun _ _ ↦ false
  readTransaction _ _ raw := .ok raw
  decryptTransaction _ _ raw ufvk :=
    { saplingOutputs := if ufvk then raw.map fun b ↦ ⟨5, fill 43 b, [], .incoming, .sapling⟩
        else []
      orchardOutputs := raw.zipIdx.filterMap fun (b, i) ↦
        if b = 0 then none else some ⟨i, sampleNote b, [], .incoming, .orchard⟩
      ironwoodOutputs := [] }
  nullifier note _ := note.rho
  transparentBundle _ := none
  feePaid _ := none

def bothKeys : KeyUpstream bothCrypto where
  Mnemonic := Unit
  SaplingDfvk := Unit
  AccountPubKey := Unit
  OrchardAddress := Unit
  UnifiedAddress := Unit
  Xpriv := Unit
  Revision := Unit
  Item := FvkKind
  Container := Bool
  parseMnemonic s := if s = "abandon" then .ok () else .error "unknown word"
  toSeed _ := []
  ufvkFromSeed _ _ _ := .ok true
  encodeUfvk network ufvk := .ok (encodeBoth network.networkType ufvk)
  decode := decodeBoth
  items := bothItems
  kind := id
  tryFromItems _ items := if items = bothItems true then .ok true
    else if items = bothItems false then .ok false else .error "no shielded item"
  encodeContainer := encodeBoth
  parse container := .ok container
  sapling ufvk := (bothCrypto.saplingIvk ufvk).map fun _ ↦ ()
  p2pkh _ := none
  saplingBytes _ := fill 128 0
  saplingIvkBytes _ _ := fill 32 1
  saplingOvkBytes _ _ := fill 32 2
  orchardBytes _ := fill 96 3
  orchardIvkBytes _ _ := fill 64 4
  orchardOvkBytes _ _ := fill 32 5
  defaultAddress _ := .ok ()
  addressAt _ _ _ := ()
  orchardOnly _ := ()
  encodeAddress _ _ := "u1"
  parsePath _ := .ok []
  newMaster _ _ := .ok ()
  derivePriv _ _ := .ok ()
  xpub _ := "xpub"

theorem decodeBoth_encodeBoth (networkType : NetworkType) (container : Bool) :
    decodeBoth (encodeBoth networkType container) = .ok (networkType, (), container) := by
  cases networkType <;> cases container <;> decide

theorem bothKeys_lawful : bothKeys.Lawful where
  decodeUfvk {s ufvk} := by
    constructor
    · intro h
      obtain ⟨⟨networkType, rev, container⟩, hdecode, rfl⟩ := map_eq_ok.mp h
      exact ⟨networkType, rev, container, hdecode, rfl⟩
    · rintro ⟨networkType, rev, container, hdecode, hparse⟩
      cases hparse
      exact map_eq_ok.mpr ⟨_, hdecode, rfl⟩
  readsAs_encodeUfvk {network ufvk s} h := by
    cases h
    exact ⟨(), ufvk, decodeBoth_encodeBoth _ _, rfl⟩
  orchard_ufvkFromSeed _ := rfl
  tryFromItems {s networkType rev container items} _ hsub horchard := by
    have hmem : items ∈ (bothItems container).sublists := List.mem_sublists.mpr hsub
    have hall : ∀ container, ∀ items ∈ (bothItems container).sublists, FvkKind.orchard ∈ items →
        items = bothItems true ∨ items = bothItems false := by decide
    obtain ⟨item, hitem, rfl⟩ := horchard
    rcases hall container items hmem hitem with rfl | rfl
    · exact ⟨true, rfl⟩
    · exact ⟨false, rfl⟩
  mem_items {rev items container} h item := by
    simp only [bothKeys] at h
    split at h
    · rename_i htrue
      cases h
      rw [htrue]
      exact Iff.rfl
    · split at h
      · rename_i hfalse
        cases h
        rw [hfalse]
        exact Iff.rfl
      · cases h
  decode_encodeContainer _ _ := decodeBoth_encodeBoth _ _
  parse_of_subset {container container' ufvk} _ _ := ⟨container', rfl⟩
  orchard_isSome {container ufvk} _ := by
    have hmem : ∀ container, FvkKind.orchard ∈ bothItems container := by decide
    exact iff_of_true rfl ⟨.orchard, hmem container, rfl⟩
  sapling_isSome {container ufvk} h := by
    cases h
    cases container <;> decide
  orchard_congr _ _ _ := rfl
  p2pkh_congr _ _ _ := rfl

theorem bothCrypto_decryptsByPool : bothCrypto.DecryptsByPool := by
  intro network height tx ufvk bare _ hbare
  cases bare with
  | true => cases hbare
  | false => rfl

theorem bothKeys_readsAlike : bothKeys.ReadsAlike (S := positionTrees) sampleKeys :=
  ⟨fun _ ↦ (), fun _ ↦ (), fun _ _ _ _ ↦ ⟨(), rfl, rfl, rfl⟩⟩

theorem derived_bare_sample :
    ∃ full s' out out', deriveKeys bothKeys "abandon" 0 .testNetwork none = .ok full ∧
      deriveKeysWithOptions bothKeys "abandon" 0 .testNetwork none ⟨false⟩ =
        .ok { full with ufvk := s' } ∧
      runSyncInner bothCrypto sampleRuntime sampleServer
        ((sampleParams 1 2).withKey s' false) = .ok out ∧
      runSyncInner bothCrypto sampleRuntime sampleServer
        ((sampleParams 1 2).withKey full.ufvk true) = .ok out' ∧
      out.result.Same out'.result.withoutSapling := by
  obtain ⟨full, hfull⟩ := exists_ok_of_isOk
    (show (deriveKeys bothKeys "abandon" 0 .testNetwork none).isOk = true by decide)
  obtain ⟨s', hbare, hstands⟩ := derived_bare bothKeys_lawful
    (BatchDecryption.triesEach_ofKey _) bothCrypto_decryptsByPool bothKeys_readsAlike hfull
  have htext : full.ufvk = "uviewtest1so" := by
    cases hfull
    rfl
  have hrun : ∃ out', runSyncInner bothCrypto sampleRuntime sampleServer
      ((sampleParams 1 2).withKey full.ufvk true) = .ok out' := by
    rw [htext]
    exact exists_ok_of_isOk (by decide +kernel)
  obtain ⟨out', hout'⟩ := hrun
  obtain ⟨out, hout⟩ := (hstands.scans sampleServer (sampleParams 1 2) false sampleRuntime
    sampleRuntime).mpr ⟨out', hout'⟩
  have hblocks : sampleServer.getBlockRange 1 2 = .ok (sampleBlocks.map .ok) := by decide +kernel
  exact ⟨full, s', out, out', hfull, hbare, hout, hout', hstands.results hblocks
    (by unfold UniqueTxids; decide +kernel) hout hout'⟩

end Sample

end LedgerZcash
