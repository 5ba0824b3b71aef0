import LedgerZcash.Lib.Channel
import LedgerZcash.Lib.Trace
import LedgerZcash.Sync.Scan

/-!
# The transaction stream of the Node binding

`startSync` spawns the scan as a task of its own and hands out a `TransactionStream`.  The
task emits transactions into an unbounded channel and reports its result through a channel
for one value; the caller receives them through `next()` and `stats()`, and `cancel()`
aborts the task and closes the receiver.  `Step` is one step of either side.  The scan
decides when it emits, waits, returns or panics, the caller when it calls what: a run is any
interleaving of these.
-/

namespace LedgerZcash

open Channel Trace

/-! ## Values that cross to JavaScript -/

/-- `n as f64`. -/
def asF64 (n : Nat) : Float := (UInt64.ofNat n).toFloat

namespace Napi

/-- A note as JavaScript sees it: a position is a decimal string. -/
structure ShieldedNote where
  amount : Float
  transferType : TransferType
  memo : String
  pool : ShieldedPool
  nullifier : Option String
  rho : Option String
  rseed : Option String
  cmx : Option String
  position : Option String
  recipient : Option String
  isSpent : Bool

structure ShieldedTransaction where
  txid : String
  hex : String
  blockHeight : Nat
  blockHash : String
  blockTime : Nat
  fee : Float
  transparentOut : Float
  hasTransparentInputs : Bool
  saplingNotes : List ShieldedNote
  orchardNotes : List ShieldedNote
  ironwoodNotes : List ShieldedNote

/-- Scan statistics returned once the stream is exhausted. -/
structure SyncStats where
  blocksScanned : Nat
  elapsedMs : Float
  spentKnownNullifiers : List String

end Napi

/-- The spending fields of a Sapling note are not forwarded. -/
def saplingNoteToNapi (n : ShieldedNote) : Napi.ShieldedNote where
  amount := asF64 n.amount
  transferType := n.transferType
  memo := n.memo
  pool := n.pool
  nullifier := none
  rho := none
  rseed := none
  cmx := none
  position := none
  recipient := none
  isSpent := false

def orchardNoteToNapi (n : ShieldedNote) : Napi.ShieldedNote where
  amount := asF64 n.amount
  transferType := n.transferType
  memo := n.memo
  pool := n.pool
  nullifier := n.nullifier
  rho := n.rho
  rseed := n.rseed
  cmx := n.cmx
  position := n.position.map Nat.repr
  recipient := n.recipient
  isSpent := n.isSpent

def grpcTxToNapi (tx : ShieldedTransaction) : Napi.ShieldedTransaction where
  txid := tx.txid
  hex := tx.hex
  blockHeight := tx.blockHeight
  blockHash := tx.blockHash
  blockTime := tx.blockTime
  fee := asF64 tx.feeZatoshis
  transparentOut := asF64 tx.transparentOutZatoshis
  hasTransparentInputs := tx.hasTransparentInputs
  saplingNotes := tx.saplingNotes.map saplingNoteToNapi
  orchardNotes := tx.orchardNotes.map orchardNoteToNapi
  ironwoodNotes := tx.ironwoodNotes.map orchardNoteToNapi

/-- The result of `run_sync`, with the time it took. -/
structure GrpcSyncResult extends SyncResult where
  elapsedMs : Nat

def GrpcSyncResult.stats (r : GrpcSyncResult) : Napi.SyncStats where
  blocksScanned := r.blocksScanned
  elapsedMs := asF64 r.elapsedMs
  spentKnownNullifiers := r.spentKnownNullifiers

/-! ## The stream and its task -/

/-- Where the spawned task is. -/
inductive ScanTask where
  /-- Between two polls, or before the first. -/
  | parked
  /-- In a poll, inside `run_sync`. -/
  | running
  /-- In the poll in which `run_sync` has returned, before the result is sent. -/
  | returned (result : Except String GrpcSyncResult)
  | finished

/-- The stream, its task and the calls that wait. -/
structure TransactionStream where
  rx : Mpsc ShieldedTransaction
  result : Oneshot (Except String GrpcSyncResult)
  /-- `result_rx` has not been taken. -/
  resultRx : Bool
  /-- `task_handle` has not been taken. -/
  taskHandle : Bool
  task : ScanTask
  /-- The task has been aborted: it is not polled again. -/
  aborted : Bool
  /-- The calls of `next()` that have not returned. -/
  waitingNext : Nat
  /-- The call of `stats()` that has taken `result_rx` has not returned. -/
  waitingStats : Bool

def startSync : TransactionStream where
  rx := .new
  result := .new
  resultRx := true
  taskHandle := true
  task := .parked
  aborted := false
  waitingNext := 0
  waitingStats := false

namespace TransactionStream

variable (s : TransactionStream)

/-- A send error is ignored. -/
def onTransaction (tx : ShieldedTransaction) : TransactionStream :=
  { s with rx := s.rx.send tx }

/-- `run_sync` returns, and drops its parameters and the sender with them. -/
def runSyncReturns (result : Except String GrpcSyncResult) : TransactionStream :=
  { s with rx := s.rx.dropSender, task := .returned result }

def sendResult (result : Except String GrpcSyncResult) : TransactionStream :=
  { s with result := s.result.send result, task := .finished }

/-- The task is dropped before its end, with all it holds. -/
def dropTask : TransactionStream :=
  { s with rx := s.rx.dropSender, result := s.result.dropSender, task := .finished }

/-- What a waiting call of `next()` is answered. -/
def pollNext : Poll (Option Napi.ShieldedTransaction × TransactionStream) :=
  match s.rx.recv with
  | .pending => .pending
  | .ready (tx, rx) =>
      .ready (tx.map grpcTxToNapi, { s with rx, waitingNext := s.waitingNext - 1 })

def cancel : TransactionStream :=
  { s with aborted := s.aborted || s.taskHandle, taskHandle := false, rx := s.rx.close }

/-- What the waiting call of `stats()` is answered. -/
def pollStats : Poll (Except String Napi.SyncStats × TransactionStream) :=
  match s.result.recv with
  | .pending => .pending
  | .ready none =>
      .ready (.error "sync task was dropped before completing", { s with waitingStats := false })
  | .ready (some result) =>
      .ready (result.map GrpcSyncResult.stats, { s with waitingStats := false })

end TransactionStream

/-- What happens to a stream: on the side of the task, then on the caller's. -/
inductive StreamEvent where
  | polled
  | yields
  | emits (tx : ShieldedTransaction)
  | returns (result : Except String GrpcSyncResult)
  | reports
  | panics
  | dropped
  | callsNext
  | nextReturns (tx : Option Napi.ShieldedTransaction)
  | callsStats
  | statsReturns (stats : Except String Napi.SyncStats)
  | refusesStats (reason : String)
  | cancels

open TransactionStream in
/-- One step of the task or of the caller.  An aborted task is dropped when it is between two
polls; a poll under way goes on. -/
inductive StreamStep : TransactionStream → StreamEvent → TransactionStream → Prop
  | polled {s} (htask : s.task = .parked) (hlive : s.aborted = false) :
      StreamStep s .polled { s with task := .running }
  | yields {s} (htask : s.task = .running) : StreamStep s .yields { s with task := .parked }
  | emits {s} (htask : s.task = .running) (tx : ShieldedTransaction) :
      StreamStep s (.emits tx) (s.onTransaction tx)
  | returns {s} (htask : s.task = .running) (result : Except String GrpcSyncResult) :
      StreamStep s (.returns result) (s.runSyncReturns result)
  | reports {s result} (htask : s.task = .returned result) :
      StreamStep s .reports (s.sendResult result)
  | panics {s} (htask : s.task = .running) : StreamStep s .panics s.dropTask
  | dropped {s} (htask : s.task = .parked) (haborted : s.aborted = true) :
      StreamStep s .dropped s.dropTask
  | callsNext {s} : StreamStep s .callsNext { s with waitingNext := s.waitingNext + 1 }
  | nextReturns {s s' tx} (hwaits : 0 < s.waitingNext) (h : s.pollNext = .ready (tx, s')) :
      StreamStep s (.nextReturns tx) s'
  | callsStats {s} (hrx : s.resultRx = true) :
      StreamStep s .callsStats { s with resultRx := false, waitingStats := true }
  | statsReturns {s s' stats} (hwaits : s.waitingStats = true)
      (h : s.pollStats = .ready (stats, s')) : StreamStep s (.statsReturns stats) s'
  | refusesStats {s} (hrx : s.resultRx = false) :
      StreamStep s (.refusesStats "stats() called more than once") s
  | cancels {s} : StreamStep s .cancels s.cancel

/-- The runs of a stream from a state of it. -/
abbrev StreamRun (s : TransactionStream) (events : List StreamEvent) (s' : TransactionStream) :
    Prop :=
  Run StreamStep s events s'

end LedgerZcash
