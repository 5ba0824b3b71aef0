import LedgerZcash.Ffi.Build
import LedgerZcash.Sync.Details

/-!
# The fee a caller is told

JavaScript asks for the details of transactions and hands over, as texts, the value of every
transparent output that each of them spends.  The values are collected into a map, a later one
in place of an earlier one, and the fee comes back as a text.  It is the fee that was paid when
every spent output was supplied under the display text of its transaction, whatever else was
supplied and in whatever order the fetches complete; it is null when one of them was not
(`details_told`).  A transaction without transparent inputs needs none, and its fee is the one
that a scan reports.
-/

namespace LedgerZcash

open Hex Collect Decimal

/-! ## Requests and results -/

namespace Napi

/-- A transparent output being spent, and its value. -/
structure TransparentPrevout where
  /-- Display order. -/
  txid : String
  index : UInt32
  value : String

structure TransactionDetailsRequest where
  txid : String
  height : UInt32
  prevouts : List TransparentPrevout

structure TransactionDetailsResult where
  txid : String
  fee : Option String
  payees : List String
deriving DecidableEq, Repr

end Napi

def prevoutEntry (p : Napi.TransparentPrevout) : Except Failure ((String × UInt32) × Nat) := do
  let value ← (parseChecked u64Size p.value.toList).mapError fun e ↦
    Failure.error ("prevout value " ++ p.value ++ ": " ++ e.toString)
  pure ((p.txid, p.index), value)

/-- The entries as a map: a later entry replaces an earlier one. -/
def collectPrevouts (entries : List ((String × UInt32) × Nat)) : PrevoutValues :=
  entries.foldl (fun m entry ↦ m.insert entry.1 entry.2) ∅

def detailsRequest (r : Napi.TransactionDetailsRequest) : Except Failure DetailsRequest := do
  let entries ← r.prevouts.mapM prevoutEntry
  pure { txid := r.txid, height := r.height.toNat, prevouts := collectPrevouts entries }

def detailsResultToNapi (r : DetailsResult) : Napi.TransactionDetailsResult where
  txid := r.txid
  fee := r.fee.map Nat.repr
  payees := r.payees

/-- What is checked before anything is fetched. -/
def detailsRequests (network : Option String) (requests : List Napi.TransactionDetailsRequest) :
    Except Failure (Network × List DetailsRequest) := do
  let network ← orFail (parseNetwork network) Error.toString
  let requests ← requests.mapM detailsRequest
  pure (network, requests)

/-- The outcomes of a call: it is refused, or the fetches run. -/
inductive Napi.TransactionDetails (D : DetailsCrypto) (connect : Except String Unit)
    (answers : Nat → TxAnswer) (requests : List TransactionDetailsRequest)
    (network ufvk : Option String) : Except Failure (List TransactionDetailsResult) → Prop
  | refused {e : Failure} (h : detailsRequests network requests = .error e) :
      TransactionDetails D connect answers requests network ufvk (.error e)
  | ran {parsed : Network × List DetailsRequest} {out : Except Failure (List DetailsResult)}
      (h : detailsRequests network requests = .ok parsed)
      (hrun : LedgerZcash.TransactionDetails D parsed.1 ufvk connect answers parsed.2 out) :
      TransactionDetails D connect answers requests network ufvk
        (out.map (List.map detailsResultToNapi))

/-! ## What was supplied -/

theorem prevoutEntry_eq_ok {p : Napi.TransparentPrevout} {entry : (String × UInt32) × Nat} :
    prevoutEntry p = .ok entry ↔
      parseUnsigned u64Size p.value.toList = some entry.2 ∧ entry.1 = (p.txid, p.index) := by
  rw [prevoutEntry, bind_eq_ok]
  simp only [mapError_eq_ok, parseChecked_eq_ok (show 0 < u64Size by decide), pure_eq_ok]
  constructor
  · rintro ⟨value, hvalue, rfl⟩
    exact ⟨hvalue, rfl⟩
  · rintro ⟨hvalue, hkey⟩
    exact ⟨entry.2, hvalue, by rw [← hkey]⟩

/-- The map has the last entry of each key. -/
theorem lookup_collectPrevouts (entries : List ((String × UInt32) × Nat)) (key : String × UInt32) :
    (collectPrevouts entries).lookup key =
      (entries.reverse.find? fun entry ↦ entry.1 = key).map Prod.snd := by
  induction entries using List.reverseRecOn with
  | nil => rfl
  | append_singleton entries entry ih =>
      rw [List.reverse_append, List.reverse_singleton, List.singleton_append, List.find?_cons,
        collectPrevouts, List.foldl_append]
      show (AList.insert entry.1 entry.2 (collectPrevouts entries)).lookup key = _
      by_cases hkey : entry.1 = key
      · subst hkey
        rw [AList.lookup_insert]
        simp
      · rw [AList.lookup_insert_ne (Ne.symm hkey), ih]
        simp [hkey]

/-- The value that a request supplies for a spent output: the last one under the display text
of its transaction, and its index. -/
def Napi.TransactionDetailsRequest.supplied (r : TransactionDetailsRequest) (o : OutPoint) :
    Option Nat :=
  (r.prevouts.reverse.find? fun p ↦ (p.txid, p.index) = (displayTxid o.hash, o.n)).bind fun p ↦
    parseUnsigned u64Size p.value.toList

theorem find?_entries {prevouts : List Napi.TransparentPrevout}
    {entries : List ((String × UInt32) × Nat)}
    (h : List.Forall₂ (fun p entry ↦ prevoutEntry p = .ok entry) prevouts entries)
    (key : String × UInt32) :
    (entries.find? fun entry ↦ entry.1 = key).map Prod.snd =
      (prevouts.find? fun p ↦ (p.txid, p.index) = key).bind fun p ↦
        parseUnsigned u64Size p.value.toList := by
  induction h with
  | nil => rfl
  | cons hentry _ ih =>
      obtain ⟨hvalue, hkey⟩ := prevoutEntry_eq_ok.mp hentry
      rw [List.find?_cons, List.find?_cons, ← hkey]
      split
      · exact hvalue.symm
      · exact ih

/-- A request that is read keeps what it was given to read, and supplies what it was given. -/
theorem detailsRequest_eq_ok {r : Napi.TransactionDetailsRequest} {request : DetailsRequest}
    (h : detailsRequest r = .ok request) : request.txid = r.txid ∧
      request.height = r.height.toNat ∧
      ∀ o : OutPoint, request.prevouts.lookup (displayTxid o.hash, o.n) = r.supplied o := by
  obtain ⟨entries, hentries, h⟩ := bind_eq_ok.mp h
  cases pure_eq_ok.mp h
  refine ⟨rfl, rfl, fun o ↦ ?_⟩
  rw [lookup_collectPrevouts, Napi.TransactionDetailsRequest.supplied]
  exact find?_entries (List.rel_reverse (mapM_eq_ok_iff.mp hentries)) _

/-! ## The fee -/

/-- `fee_paid` asks for the value of each transparent output that a transaction spends, returns
no fee unless it gets them all, and computes the fee from their sum. -/
structure DetailsCrypto.FeeLaw (D : DetailsCrypto) where
  /-- None for a coinbase. -/
  spends : D.Transaction → List OutPoint
  /-- None when the balances of the pools do not add up to an amount. -/
  fee : D.Transaction → Nat → Option Nat
  feePaidWith {tx : D.Transaction} {prevout : OutPoint → Except BalanceError (Option Nat)}
    {n : Nat} : D.feePaidWith tx prevout = .ok (some n) ↔
      ∃ value : OutPoint → Nat, (∀ o ∈ spends tx, prevout o = .ok (some (value o))) ∧
        fee tx ((spends tx).map value).sum = some n
  /-- A scan knows no previous output. -/
  feePaid (tx : D.Transaction) :
    D.feePaid tx = (D.feePaidWith tx fun _ ↦ .ok none).toOption.join

section Told

variable {D : DetailsCrypto} (law : D.FeeLaw)

/-- Every output that the transaction spends is supplied, and their values make a fee. -/
def Napi.TransactionDetailsRequest.Pays (r : TransactionDetailsRequest) (tx : D.Transaction)
    (n : Nat) : Prop :=
  ∃ value : OutPoint → Nat,
    (∀ o ∈ law.spends tx, r.supplied o = some (value o) ∧ value o ≤ maxMoney) ∧
      law.fee tx ((law.spends tx).map value).sum = some n

/-- The server answers a request with the bytes of the transaction. -/
def Napi.TransactionDetailsRequest.Fetches (r : TransactionDetailsRequest) (D : DetailsCrypto)
    (network : Network) (answer : TxAnswer) (raw : List UInt8) (tx : D.Transaction) : Prop :=
  ∃ id, Hex.decode r.txid = .ok id ∧ answer id.reverse = .ok raw ∧
    D.readTransaction network r.height.toNat raw = .ok tx

theorem prevoutValue_eq_some {prevouts : PrevoutValues} {o : OutPoint} {n : Nat} :
    prevoutValue prevouts o = .ok (some n) ↔
      prevouts.lookup (displayTxid o.hash, o.n) = some n ∧ n ≤ maxMoney := by
  rw [prevoutValue]
  cases hlookup : prevouts.lookup (displayTxid o.hash, o.n) with
  | none => simp
  | some value =>
      simp only [zatoshisFromU64]
      split
      · rename_i hle
        simp only [Except.map, Except.ok.injEq, Option.some.injEq]
        exact ⟨fun h ↦ ⟨h, h ▸ hle⟩, And.left⟩
      · rename_i hlt
        simp only [Except.map, reduceCtorEq, Option.some.injEq, false_iff, not_and]
        exact fun h hle ↦ hlt (h ▸ hle)

variable {network : Network} {ufvk : Option String} {answer : TxAnswer}
  {r : Napi.TransactionDetailsRequest} {request : DetailsRequest}

theorem details_fee_eq {n : Nat} : (details D network ufvk answer request).fee = some n ↔
    ∃ payees, fetchAndRead D network ufvk answer request = .ok (some n, payees) := by
  rw [details, detailsResult]
  cases fetchAndRead D network ufvk answer request with
  | error e => simp [Except.toOption]
  | ok read =>
      obtain ⟨fee, payees⟩ := read
      simp [Except.toOption]

/-- The fee of a request is that of the transaction, from the supplied values. -/
theorem details_fee (hread : detailsRequest r = .ok request) {n : Nat} :
    (details D network ufvk answer request).fee = some n ↔
      ∃ raw tx, r.Fetches D network answer raw tx ∧ r.Pays law tx n := by
  obtain ⟨htxid, hheight, hsupplied⟩ := detailsRequest_eq_ok hread
  have hprevout : ∀ o v, prevoutValue request.prevouts o = .ok (some v) ↔
      r.supplied o = some v ∧ v ≤ maxMoney := by
    intro o v
    rw [prevoutValue_eq_some, hsupplied]
  have hfee : ∀ raw, transactionFee D (Hex.encode raw) request.height network request.prevouts =
      .ok (some n) ↔ ∃ tx, D.readTransaction network r.height.toNat raw = .ok tx ∧
        r.Pays law tx n := by
    intro raw
    rw [transactionFee, decode_encode, hheight]
    simp only [bind_eq_ok, mapError_eq_ok, law.feePaidWith, hprevout, Except.ok.injEq,
      exists_eq_left']
    rfl
  rw [details_fee_eq, fetchAndRead, htxid]
  constructor
  · rintro ⟨payees, h⟩
    obtain ⟨id, hid, h⟩ := bind_eq_ok.mp h
    obtain ⟨raw, hraw, h⟩ := bind_eq_ok.mp h
    obtain ⟨fee, htold, h⟩ := bind_eq_ok.mp h
    cases pure_eq_ok.mp h
    obtain ⟨tx, htx, hpays⟩ := (hfee raw).mp (orFail_eq_ok.mp htold)
    exact ⟨raw, tx, ⟨id, orFail_eq_ok.mp hid, orFail_eq_ok.mp hraw, htx⟩, hpays⟩
  · rintro ⟨raw, tx, ⟨id, hid, hraw, htx⟩, hpays⟩
    exact ⟨_, bind_eq_ok.mpr ⟨id, orFail_eq_ok.mpr hid, bind_eq_ok.mpr ⟨raw, orFail_eq_ok.mpr hraw,
      bind_eq_ok.mpr ⟨_, orFail_eq_ok.mpr ((hfee raw).mpr ⟨tx, htx, hpays⟩), rfl⟩⟩⟩⟩

/-- The fee that a scan finds: none for a transaction with transparent inputs. -/
theorem feePaid_eq (tx : D.Transaction) :
    D.feePaid tx = if law.spends tx = [] then law.fee tx 0 else none := by
  ext n
  rw [law.feePaid, Option.join_eq_some_iff, toOption_eq_some, law.feePaidWith]
  constructor
  · rintro ⟨value, hall, hfee⟩
    have hnil : law.spends tx = [] := by
      refine List.eq_nil_iff_forall_not_mem.mpr fun o ho ↦ ?_
      cases hall o ho
    rw [if_pos hnil]
    rwa [hnil] at hfee
  · intro h
    split at h
    · rename_i hnil
      refine ⟨fun _ ↦ 0, fun o ho ↦ ?_, ?_⟩
      · rw [hnil] at ho
        exact absurd ho List.not_mem_nil
      · rwa [hnil]
    · cases h

theorem feeZatoshis_eq {raw : List UInt8} {tx : D.Transaction} {key : D.Ufvk} {height : Nat}
    {d : DecryptedTx} (hread : D.readTransaction network height raw = .ok tx)
    (h : fullDecryptTxWithUfvk D.toNoteCrypto (Hex.encode raw) key height network = .ok d) :
    d.feeZatoshis = if law.spends tx = [] then (law.fee tx 0).getD 0 else 0 := by
  rw [fullDecryptTxWithUfvk, decode_encode] at h
  obtain ⟨bytes, hbytes, h⟩ := bind_eq_ok.mp h
  cases hbytes
  obtain ⟨tx', htx', h⟩ := bind_eq_ok.mp h
  cases hread.symm.trans (mapError_eq_ok.mp htx')
  cases pure_eq_ok.mp h
  show (D.feePaid tx).getD 0 = _
  rw [feePaid_eq law]
  split <;> rfl

/-- What a caller is told of a transaction it asked for. -/
structure Napi.TransactionDetailsResult.Tells (t : TransactionDetailsResult)
    (network : Network) (answer : TxAnswer) (r : TransactionDetailsRequest) : Prop where
  txid : t.txid = r.txid
  /-- The fee that was paid, or nothing. -/
  fee {text : String} : t.fee = some text ↔ ∃ raw tx n,
    r.Fetches D network answer raw tx ∧ r.Pays law tx n ∧ text = n.repr
  /-- A scan reports the same fee when there are no transparent inputs, and zero when there are. -/
  scanned {raw : List UInt8} {tx : D.Transaction} {key : D.Ufvk} {d : DecryptedTx} :
    r.Fetches D network answer raw tx →
    fullDecryptTxWithUfvk D.toNoteCrypto (Hex.encode raw) key r.height.toNat network = .ok d →
    (law.spends tx = [] → ∀ text, t.fee = some text → text = d.feeZatoshis.repr) ∧
      (law.spends tx ≠ [] → d.feeZatoshis = 0)

theorem tells_details (hread : detailsRequest r = .ok request) :
    (detailsResultToNapi (details D network ufvk answer request)).Tells law network answer r := by
  have hfee : ∀ text, (detailsResultToNapi (details D network ufvk answer request)).fee =
      some text ↔ ∃ raw tx n, r.Fetches D network answer raw tx ∧ r.Pays law tx n ∧
        text = n.repr := by
    intro text
    show (details D network ufvk answer request).fee.map Nat.repr = some text ↔ _
    rw [Option.map_eq_some_iff]
    constructor
    · rintro ⟨n, hn, rfl⟩
      obtain ⟨raw, tx, hfetches, hpays⟩ := (details_fee law hread).mp hn
      exact ⟨raw, tx, n, hfetches, hpays, rfl⟩
    · rintro ⟨raw, tx, n, hfetches, hpays, rfl⟩
      exact ⟨n, (details_fee law hread).mpr ⟨raw, tx, hfetches, hpays⟩, rfl⟩
  refine ⟨(detailsRequest_eq_ok hread).1, hfee _, fun {raw tx key d} hfetches hd ↦ ?_⟩
  obtain ⟨id, hid, hraw, htx⟩ := hfetches
  have hzat := feeZatoshis_eq law htx hd
  refine ⟨fun hnil text htext ↦ ?_, fun hne ↦ ?_⟩
  · obtain ⟨raw', tx', n, ⟨id', hid', hraw', htx'⟩, ⟨value, -, hn⟩, rfl⟩ := (hfee text).mp htext
    cases hid.symm.trans hid'
    cases hraw.symm.trans hraw'
    cases htx.symm.trans htx'
    rw [hnil] at hn
    have hn : law.fee tx 0 = some n := hn
    rw [hzat, if_pos hnil, hn, Option.getD_some]
  · rw [hzat, if_neg hne]

end Told

/-- A call that returns has one result a request, in its place, and each tells of its own
transaction: the fee that was paid, exactly when every output it spends was supplied under the
display text of the transaction that made it. -/
theorem details_told {D : DetailsCrypto} (law : D.FeeLaw) {connect : Except String Unit}
    {answers : Nat → TxAnswer} {requests : List Napi.TransactionDetailsRequest}
    {network ufvk : Option String} {results : List Napi.TransactionDetailsResult}
    (h : Napi.TransactionDetails D connect answers requests network ufvk (.ok results)) :
    ∃ net, parseNetwork network = .ok net ∧ results.length = requests.length ∧
      ∀ (i : Nat) (r : Napi.TransactionDetailsRequest), requests[i]? = some r →
        ∃ t, results[i]? = some t ∧ t.Tells law net (answers i) r := by
  generalize hout : Except.ok results = out at h
  cases h with
  | refused h => cases hout
  | ran hparsed hrun =>
      obtain ⟨inner, rfl, rfl⟩ := map_eq_ok.mp hout.symm
      obtain ⟨net, hnet, hparsed⟩ := bind_eq_ok.mp hparsed
      obtain ⟨parsed, hparse, hparsed⟩ := bind_eq_ok.mp hparsed
      cases pure_eq_ok.mp hparsed
      have hpairs := mapM_eq_ok_iff.mp hparse
      refine ⟨net, orFail_eq_ok.mp hnet, ?_, fun i r hr ↦ ?_⟩
      · rw [List.length_map, length_transactionDetails hrun, hpairs.length_eq]
      · obtain ⟨request, hrequest, hread⟩ := exists_getElem?_of_forall₂ hpairs hr
        refine ⟨detailsResultToNapi (details D net ufvk (answers i) request), ?_,
          tells_details law hread⟩
        rw [List.getElem?_map, getElem?_transactionDetails hrun, hrequest]
        rfl

/-! A transaction that leaves the whole of its one input to the fee. -/

section Sample

/-- The first byte of a transaction is that of the txid that it spends from. -/
def oneSpend : List UInt8 → List OutPoint
  | [] => []
  | b :: _ => [⟨fill 32 b, 0⟩]

def oneSpendFee (raw : List UInt8) (prevout : OutPoint → Except BalanceError (Option Nat)) :
    Except BalanceError (Option Nat) :=
  match oneSpend raw with
  | [] => .ok (some 0)
  | o :: _ => prevout o

def oneSpendDetails : DetailsCrypto where
  toNoteCrypto := { sampleCrypto with
    feePaid := fun raw ↦ (oneSpendFee raw fun _ ↦ .ok none).toOption.join }
  feePaidWith := oneSpendFee
  encodeOrchard _ _ := none
  encodeSapling _ _ := none

def oneSpendLaw : oneSpendDetails.FeeLaw where
  spends := oneSpend
  fee _ n := some n
  feePaidWith {tx prevout n} := by
    show oneSpendFee tx prevout = .ok (some n) ↔ _
    cases tx with
    | nil => simp [oneSpendFee, oneSpend]
    | cons b _ =>
        simp only [oneSpendFee, oneSpend, List.mem_singleton, forall_eq, List.map_cons,
          List.map_nil, List.sum_cons, List.sum_nil, Nat.add_zero, Option.some.injEq]
        constructor
        · intro h
          exact ⟨fun _ ↦ n, h, rfl⟩
        · rintro ⟨value, h, rfl⟩
          exact h
  feePaid _ := rfl

/-- The first value was a mistake, and the last one counts. -/
def oneSpendRequest : Napi.TransactionDetailsRequest where
  txid := "ab"
  height := 5
  prevouts := [⟨displayTxid (fill 32 7), 0, "1"⟩, ⟨displayTxid (fill 32 7), 0, "20000"⟩]

def oneSpendAnswers : Nat → TxAnswer := fun _ hash ↦
  if hash = [0xab] then .ok [7] else .error "not found"

theorem oneSpend_ran : ∃ results, Napi.TransactionDetails oneSpendDetails (.ok ())
    oneSpendAnswers [oneSpendRequest] none none (.ok results) := by
  obtain ⟨parsed, hparsed⟩ := exists_ok_of_isOk
    (show (detailsRequests none [oneSpendRequest]).isOk = true by decide +kernel)
  obtain ⟨results, hrun⟩ := exists_transactionDetails oneSpendAnswers parsed.2
  exact ⟨_, .ran hparsed hrun⟩

theorem details_told_oneSpend : ∃ results t, Napi.TransactionDetails oneSpendDetails (.ok ())
    oneSpendAnswers [oneSpendRequest] none none (.ok results) ∧ results[0]? = some t ∧
    t.fee = some "20000" := by
  obtain ⟨results, hran⟩ := oneSpend_ran
  obtain ⟨net, hnet, -, htells⟩ := details_told oneSpendLaw hran
  cases hnet
  obtain ⟨t, ht, htold⟩ := htells 0 oneSpendRequest rfl
  have hsupplied : oneSpendRequest.supplied ⟨fill 32 7, 0⟩ = some 20000 := by decide +kernel
  refine ⟨results, t, hran, ht, htold.fee.mpr ⟨[7], [7], 20000, ⟨[0xab], ?_, ?_, rfl⟩,
    ⟨fun _ ↦ 20000, ?_, rfl⟩, by decide +kernel⟩⟩
  · decide +kernel
  · decide +kernel
  · intro o ho
    cases List.mem_singleton.mp ho
    exact ⟨hsupplied, by decide⟩

end Sample

end LedgerZcash
