import LedgerZcash.Crypto.Builder
import LedgerZcash.Lib.Pipeline
import LedgerZcash.Sync.Outcome
import Mathlib.Data.List.AList

/-!
# Transaction details

What only the raw bytes of a transaction hold: the fee it paid (`transactionFee`) and whom its
shielded outputs paid (`outgoingPayees`).  `transaction_details` fetches the transactions of a
whole history through a pipeline of eight, whose fetches complete in any order.  The requests
are the jobs of a `Pipeline`, each with its position, and `TransactionDetails` relates them to
the outcomes of its finished runs: each request has its own answer in its own place, whatever
happened to the others (`details_paired`).
-/

namespace LedgerZcash

open Hex Trace

/-! ## Fees -/

/-- Value of a transparent output being spent, keyed by `(txid in display hex, output index)`. -/
abbrev PrevoutValues := AList fun _ : String × UInt32 ↦ Nat

structure OutPoint where
  hash : Bytes32
  n : UInt32
deriving DecidableEq

/-- `zcash_protocol::value::BalanceError`. -/
inductive BalanceError where
  | overflow
  | underflow
deriving DecidableEq, Repr

/-- `{:?}`. -/
def BalanceError.debug : BalanceError → String
  | .overflow => "Overflow"
  | .underflow => "Underflow"

/-- `Zatoshis::from_u64`. -/
def zatoshisFromU64 (value : Nat) : Except BalanceError Nat :=
  if value ≤ maxMoney then .ok value else .error .overflow

/-- What reading the details of a transaction calls upstream. -/
structure DetailsCrypto extends NoteCrypto where
  /-- `fee_paid`, given the previous outputs; `none` when one of them is unknown. -/
  feePaidWith : Transaction → (OutPoint → Except BalanceError (Option Nat)) →
    Except BalanceError (Option Nat)
  /-- The unified address of a raw Orchard receiver. -/
  encodeOrchard : Network → Arr 43 → Option String
  /-- The address of a raw Sapling receiver. -/
  encodeSapling : Network → Arr 43 → Option String

variable (U : DetailsCrypto)

/-- Outpoints carry the txid in internal byte order. -/
def displayTxid (internal : Bytes32) : String := Hex.encode internal.1.reverse

/-- The value of a previous output, when it was supplied. -/
def prevoutValue (prevouts : PrevoutValues) (outpoint : OutPoint) :
    Except BalanceError (Option Nat) :=
  match prevouts.lookup (displayTxid outpoint.hash, outpoint.n) with
  | some value => (zatoshisFromU64 value).map some
  | none => .ok none

def transactionFee (txHex : String) (height : Nat) (network : Network)
    (prevouts : PrevoutValues) : Except Error (Option Nat) := do
  let txBytes ← (Hex.decode txHex).mapError fun e ↦
    Error.decrypt ("hex decode failed: " ++ e.debug)
  let tx ← (U.readTransaction network height txBytes).mapError fun e ↦
    Error.decrypt ("TX parse failed: " ++ e)
  (U.feePaidWith tx (prevoutValue prevouts)).mapError fun e ↦
    Error.decrypt ("fee computation failed: " ++ e.debug)

/-! ## Payees -/

/-- Full decryption under a viewing key given as text. -/
def fullDecryptTx (txHex viewingKey : String) (height : Nat) (network : Network) :
    Except Error DecryptedTx := do
  let ufvk ← (U.decodeUfvk viewingKey).mapError Error.decrypt
  fullDecryptTxWithUfvk U.toNoteCrypto txHex ufvk height network

/-- The recipients of the outputs the account paid, encoded; one that has no address is left
out. -/
def recipients (encode : Arr 43 → Option String) (outputs : List DecryptedOutput) :
    List String :=
  ((outputs.filter fun output ↦ output.transferType = .outgoing).filterMap
    DecryptedOutput.recipient).filterMap encode

/-- Addresses paid by the shielded outputs the account created. -/
def outgoingPayees (txHex ufvk : String) (height : Nat) (network : Network) :
    Except Error (List String) := do
  let decrypted ← fullDecryptTx U txHex ufvk height network
  let orchard := recipients (U.encodeOrchard network)
    (decrypted.orchardOutputs ++ decrypted.ironwoodOutputs)
  let sapling := recipients (U.encodeSapling network) decrypted.saplingOutputs
  pure (orchard ++ sapling)

/-! ## The pipeline -/

/-- A transaction to be read, with the value of each transparent output it spends. -/
structure DetailsRequest where
  txid : String
  height : Nat
  prevouts : PrevoutValues

structure DetailsResult where
  txid : String
  fee : Option Nat
  payees : List String
deriving DecidableEq, Repr

/-- The answer to `GetTransaction` for a hash in internal byte order. -/
abbrev TxAnswer := List UInt8 → Except String (List UInt8)

variable (network : Network) (ufvk : Option String)

def fetchAndRead (getTransaction : TxAnswer) (request : DetailsRequest) :
    Except Failure (Option Nat × List String) := do
  let txidBytes ← orFail (Hex.decode request.txid) fun e ↦
    "invalid txid " ++ request.txid ++ ": " ++ e.toString
  let rawTx ← orFail (getTransaction txidBytes.reverse) fun e ↦ "GetTransaction failed: " ++ e
  let txHex := Hex.encode rawTx
  let fee ← orFail (transactionFee U txHex request.height network request.prevouts) Error.toString
  -- A transaction that does not decrypt has no payees.
  let payees := match ufvk with
    | some ufvk => (outgoingPayees U txHex ufvk request.height network).toOption.getD []
    | none => []
  pure (fee, payees)

/-- A request whose transaction could not be read has no details. -/
def detailsResult (request : DetailsRequest) (read : Except Failure (Option Nat × List String)) :
    DetailsResult :=
  let (fee, payees) := read.toOption.getD (none, [])
  ⟨request.txid, fee, payees⟩

/-- The details of one request, by itself. -/
def details (getTransaction : TxAnswer) (request : DetailsRequest) : DetailsResult :=
  detailsResult request (fetchAndRead U network ufvk getTransaction request)

/-- `DETAILS_PIPELINE_DEPTH`. -/
def detailsPipelineDepth : Nat := 8

/-- One fetch of the pipeline: the server answers the request at each position as it likes. -/
def detailsJob (answers : Nat → TxAnswer) (job : DetailsRequest × Nat) : Nat × DetailsResult :=
  (job.2, details U network ufvk (answers job.2) job.1)

/-- The fetches in flight and completed, step by step. -/
abbrev DetailsStep (answers : Nat → TxAnswer) :=
  Pipeline.Step detailsPipelineDepth (detailsJob U network ufvk answers)

/-- The outcomes of `transaction_details`: the connection fails, or all fetches complete in some
order and their results are sorted by position. -/
inductive TransactionDetails (connect : Except String Unit) (answers : Nat → TxAnswer)
    (requests : List DetailsRequest) : Except Failure (List DetailsResult) → Prop
  | refused {e : String} (hconnect : connect = .error e) :
      TransactionDetails connect answers requests (.error (.error e))
  | collected {tr : List (Pipeline.Event (DetailsRequest × Nat))}
      {s : Pipeline.State (DetailsRequest × Nat) (Nat × DetailsResult)}
      (hconnect : connect = .ok ())
      (hrun : Run (DetailsStep U network ufvk answers) (.init requests.zipIdx) tr s)
      (hfinished : s.Finished) :
      TransactionDetails connect answers requests (.ok (Pipeline.inOrder s.done))

/-! ## Results in their places -/

section Runs

variable {U} {network} {ufvk} {connect : Except String Unit} {answers answers' : Nat → TxAnswer}
  {requests : List DetailsRequest} {results results' : List DetailsResult}

/-- The details of each request, from the answer at its own position. -/
theorem transactionDetails_eq_ok
    (h : TransactionDetails U network ufvk connect answers requests (.ok results)) :
    results = requests.zipIdx.map fun job ↦ details U network ufvk (answers job.2) job.1 := by
  cases h with
  | collected _ hrun hfinished =>
      exact Pipeline.inOrder_of_finished hrun hfinished

/-- Once connected, the fetches can always be completed. -/
theorem exists_transactionDetails (answers : Nat → TxAnswer) (requests : List DetailsRequest) :
    ∃ results, TransactionDetails U network ufvk (.ok ()) answers requests (.ok results) := by
  obtain ⟨tr, s, hrun, hfinished⟩ := Pipeline.exists_finished
    (show 0 < detailsPipelineDepth by decide) (detailsJob U network ufvk answers)
    (.init requests.zipIdx)
  exact ⟨_, .collected rfl hrun hfinished⟩

/-- The result at a position is that of its request and its answer, and of nothing else. -/
theorem getElem?_transactionDetails
    (h : TransactionDetails U network ufvk connect answers requests (.ok results)) (i : Nat) :
    results[i]? = requests[i]?.map fun request ↦
      detailsResult request (fetchAndRead U network ufvk (answers i) request) := by
  rw [transactionDetails_eq_ok h, List.getElem?_map, List.getElem?_zipIdx, Option.map_map,
    Nat.zero_add]
  rfl

theorem length_transactionDetails
    (h : TransactionDetails U network ufvk connect answers requests (.ok results)) :
    results.length = requests.length := by
  rw [transactionDetails_eq_ok h, List.length_map, List.length_zipIdx]

end Runs

section Sample

end Sample

end LedgerZcash
