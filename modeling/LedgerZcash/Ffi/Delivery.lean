import Mathlib.Data.List.TakeWhile
import LedgerZcash.Ffi.Stream

/-!
# What a stream delivers

In every run the values that `next()` returns are those emitted before the first cancel, in
order, as far as they have been received (`Delivery`); once `next()` has returned null
nothing is left and nothing can come.  `stats()` returns once at most.  That it fails after
a cancel is not so: the task may have sent its result before, or send it in a poll that the
abort cannot interrupt (`mayReport`), and a result that was sent is still received.
-/

namespace LedgerZcash

open Channel Trace

/-! ## What the events of a run say -/

namespace StreamEvent

def emitted? : StreamEvent → Option ShieldedTransaction
  | .emits tx => some tx
  | _ => none

def delivered? : StreamEvent → Option Napi.ShieldedTransaction
  | .nextReturns tx => tx
  | _ => none

def isCancel : StreamEvent → Bool
  | .cancels => true
  | _ => false

/-- An answer to a call of `stats()` that has taken the receiver. -/
def isStats : StreamEvent → Bool
  | .statsReturns _ => true
  | _ => false

/-- A call of `next()`, or a transaction that one returns. -/
def isNext : StreamEvent → Bool
  | .callsNext => true
  | .nextReturns (some _) => true
  | _ => false

theorem isCancel_iff {e : StreamEvent} : e.isCancel = true ↔ e = .cancels := by
  cases e <;> simp [isCancel]

end StreamEvent

/-- The values emitted in a run, whether they were sent or not. -/
def emitted (events : List StreamEvent) : List ShieldedTransaction :=
  events.filterMap StreamEvent.emitted?

/-- The values that `next()` returned, in the order of the returns. -/
def delivered (events : List StreamEvent) : List Napi.ShieldedTransaction :=
  events.filterMap StreamEvent.delivered?

/-- The values emitted before the first cancel. -/
def sent (events : List StreamEvent) : List ShieldedTransaction :=
  emitted (events.takeWhile fun e ↦ !e.isCancel)

section Events

variable {events pre post : List StreamEvent} {e : StreamEvent}

theorem delivered_append : delivered (pre ++ post) = delivered pre ++ delivered post :=
  List.filterMap_append

theorem delivered_snoc_of_none (h : e.delivered? = none) :
    delivered (events ++ [e]) = delivered events := by
  have hnone : delivered [e] = [] := List.filterMap_cons_none h
  rw [delivered_append, hnone, List.append_nil]

theorem delivered_snoc_some (tx : Napi.ShieldedTransaction) :
    delivered (events ++ [.nextReturns (some tx)]) = delivered events ++ [tx] :=
  delivered_append

theorem takeWhile_of_notMem (h : .cancels ∉ events) :
    events.takeWhile (fun e ↦ !e.isCancel) = events := by
  rw [List.takeWhile_eq_self_iff]
  intro e he
  rw [Bool.not_eq_true', ← Bool.not_eq_true, StreamEvent.isCancel_iff]
  rintro rfl
  exact h he

theorem sent_of_notMem (h : .cancels ∉ events) : sent events = emitted events := by
  rw [sent, takeWhile_of_notMem h]

/-- Up to the first cancel. -/
theorem sent_of_cancel (h : .cancels ∉ pre) : sent (pre ++ .cancels :: post) = emitted pre := by
  rw [sent, List.takeWhile_append_of_pos]
  · rw [List.takeWhile_cons_of_neg (by decide), List.append_nil]
  · exact List.takeWhile_eq_self_iff.mp (takeWhile_of_notMem h)

theorem isPrefix_sent (events : List StreamEvent) : sent events <+: emitted events :=
  (List.takeWhile_prefix _).filterMap _

theorem sent_snoc_of_mem (h : .cancels ∈ events) : sent (events ++ [e]) = sent events := by
  obtain ⟨pre, post, rfl, hpre⟩ := List.eq_append_cons_of_mem h
  rw [List.append_assoc, List.cons_append, sent_of_cancel hpre, sent_of_cancel hpre]

/-- An event that emits nothing. -/
theorem sent_snoc_of_none (h : e.emitted? = none) : sent (events ++ [e]) = sent events := by
  by_cases hmem : .cancels ∈ events
  · exact sent_snoc_of_mem hmem
  · rw [sent, List.takeWhile_append_of_pos
      (List.takeWhile_eq_self_iff.mp (takeWhile_of_notMem hmem)), sent_of_notMem hmem, emitted,
      List.filterMap_append]
    cases hcancel : e.isCancel with
    | true => simp [hcancel, emitted]
    | false => simp [hcancel, emitted, h]

theorem sent_snoc_emits (h : .cancels ∉ events) (tx : ShieldedTransaction) :
    sent (events ++ [.emits tx]) = sent events ++ [tx] := by
  have hmem : .cancels ∉ events ++ [.emits tx] := by
    rw [List.mem_append, List.mem_singleton]
    rintro (hcancel | hcancel)
    · exact h hcancel
    · cases hcancel
  rw [sent_of_notMem hmem, sent_of_notMem h]
  exact List.filterMap_append

end Events

/-! ## What the two futures answer -/

section Answers

variable {s s' : TransactionStream}

theorem pollNext_eq {tx : Option Napi.ShieldedTransaction} (h : s.pollNext = .ready (tx, s')) :
    ∃ value rx, s.rx.recv = .ready (value, rx) ∧ tx = value.map grpcTxToNapi ∧
      s' = { s with rx, waitingNext := s.waitingNext - 1 } := by
  unfold TransactionStream.pollNext at h
  split at h
  · cases h
  · rename_i value rx hrecv
    cases h
    exact ⟨value, rx, hrecv, rfl, rfl⟩

/-- Only a result that was sent is answered with statistics. -/
theorem pollStats_eq {stats : Except String Napi.SyncStats}
    (h : s.pollStats = .ready (stats, s')) :
    s' = { s with waitingStats := false } ∧
      ∀ st, stats = .ok st → ∃ r, s.result.value = some (.ok r) := by
  unfold TransactionStream.pollStats at h
  split at h
  · cases h
  · cases h
    exact ⟨rfl, nofun⟩
  · rename_i result hrecv
    cases h
    refine ⟨rfl, fun st hst ↦ ?_⟩
    have hvalue : s.result.value = some result := by
      unfold Oneshot.recv at hrecv
      split at hrecv
      · rename_i value hvalue
        cases hrecv
        exact hvalue
      · split at hrecv <;> cases hrecv
    cases result with
    | error e => cases hst
    | ok r => exact ⟨r, hvalue⟩

end Answers

/-! ## The values -/

/-- What was sent was delivered or waits in the channel; and once `next()` has returned null,
nothing waits and nothing can come. -/
structure Delivery (events : List StreamEvent) (s : TransactionStream) : Prop where
  values : (sent events).map grpcTxToNapi = delivered events ++ s.rx.buffer.map grpcTxToNapi
  closed : s.rx.closed = true ↔ .cancels ∈ events
  sender : s.rx.hasSender = true ↔ s.task = .parked ∨ s.task = .running
  null : .nextReturns none ∈ events →
    s.rx.buffer = [] ∧ (s.rx.closed = true ∨ s.rx.hasSender = false)

namespace Delivery

variable {events : List StreamEvent} {s s' : TransactionStream} {e : StreamEvent}

theorem start : Delivery [] startSync where
  values := rfl
  closed := ⟨nofun, nofun⟩
  sender := ⟨fun _ ↦ .inl rfl, fun _ ↦ rfl⟩
  null := nofun

/-- A step that moves no value and does not cancel. -/
theorem quiet (h : Delivery events s) (hemitted : e.emitted? = none)
    (hdelivered : e.delivered? = none) (hnull : e ≠ .nextReturns none) (hcancel : e ≠ .cancels)
    (hbuffer : s'.rx.buffer = s.rx.buffer) (hclosed : s'.rx.closed = s.rx.closed)
    (hsender : s'.rx.hasSender = true ↔ s'.task = .parked ∨ s'.task = .running)
    (hdropped : s.rx.hasSender = false → s'.rx.hasSender = false) :
    Delivery (events ++ [e]) s' where
  values := by
    rw [sent_snoc_of_none hemitted, delivered_snoc_of_none hdelivered, hbuffer]
    exact h.values
  closed := by
    rw [hclosed, h.closed, List.mem_append, List.mem_singleton, or_iff_left hcancel.symm]
  sender := hsender
  null hmem := by
    rcases List.mem_append.mp hmem with hmem | hmem
    · obtain ⟨hempty, hend⟩ := h.null hmem
      exact ⟨hbuffer.trans hempty, hend.imp hclosed.trans hdropped⟩
    · exact absurd (List.mem_singleton.mp hmem).symm hnull

/-- A value is sent, or dropped when the receiver is closed. -/
theorem emits (h : Delivery events s) (htask : s.task = .running) (tx : ShieldedTransaction) :
    Delivery (events ++ [.emits tx]) (s.onTransaction tx) := by
  have hsender : s.rx.hasSender = true := h.sender.mpr (.inr htask)
  have hdelivered : delivered (events ++ [.emits tx]) = delivered events :=
    delivered_snoc_of_none rfl
  have hmem : ∀ {x : StreamEvent}, x ≠ .emits tx → (x ∈ events ++ [.emits tx] ↔ x ∈ events) := by
    intro x hx
    rw [List.mem_append, List.mem_singleton, or_iff_left hx]
  cases hclosed : s.rx.closed with
  | true =>
      have hsame : s.rx.send tx = s.rx := if_pos hclosed
      refine ⟨?_, ?_, ?_, ?_⟩ <;>
        simp only [TransactionStream.onTransaction, hsame, hmem (x := .cancels) nofun,
          hmem (x := .nextReturns none) nofun]
      · rw [sent_snoc_of_mem (h.closed.mp hclosed), hdelivered, h.values]
      · exact h.closed
      · exact h.sender
      · exact h.null
  | false =>
      have hopen : .cancels ∉ events := mt h.closed.mpr (by rw [hclosed]; nofun)
      have hsend : s.rx.send tx = { s.rx with buffer := s.rx.buffer ++ [tx] } :=
        if_neg (by rw [hclosed]; nofun)
      refine ⟨?_, ?_, ?_, ?_⟩ <;>
        simp only [TransactionStream.onTransaction, hsend, hmem (x := .cancels) nofun,
          hmem (x := .nextReturns none) nofun]
      · rw [sent_snoc_emits hopen, hdelivered, List.map_append, h.values, List.map_append,
          List.append_assoc]
      · exact h.closed
      · exact h.sender
      · intro hnull
        -- null while the receiver is open means that the sender is gone
        rcases (h.null hnull).2 with hc | hs
        · exact absurd hc (by rw [hclosed]; nofun)
        · exact absurd hsender (by rw [hs]; nofun)

/-- `next()` takes the oldest value, or null when nothing is left. -/
theorem nextReturns (h : Delivery events s) {tx : Option Napi.ShieldedTransaction}
    (hpoll : s.pollNext = .ready (tx, s')) : Delivery (events ++ [.nextReturns tx]) s' := by
  obtain ⟨value, rx, hrecv, rfl, rfl⟩ := pollNext_eq hpoll
  have hsent : ∀ x, sent (events ++ [.nextReturns x]) = sent events :=
    fun _ ↦ sent_snoc_of_none rfl
  have hcancel : ∀ x, (.cancels ∈ events ++ [.nextReturns x] ↔ .cancels ∈ events) := by
    intro x
    rw [List.mem_append, List.mem_singleton, or_iff_left nofun]
  cases value with
  | some v =>
      obtain ⟨hbuffer, hclosed, hsender⟩ := Mpsc.recv_eq_some.mp hrecv
      refine ⟨?_, ?_, ?_, fun hmem ↦ ?_⟩
      · rw [hsent, h.values, hbuffer, Option.map_some, delivered_snoc_some, List.map_cons,
          List.append_assoc]
        rfl
      · rw [hcancel, ← h.closed, hclosed]
      · rw [hsender]
        exact h.sender
      · -- after null the buffer is empty: there is no value to return
        rcases List.mem_append.mp hmem with hmem | hmem
        · exact absurd ((h.null hmem).1.symm.trans hbuffer) nofun
        · cases List.mem_singleton.mp hmem
  | none =>
      obtain ⟨rfl, hempty, hend⟩ := Mpsc.recv_eq_none.mp hrecv
      refine ⟨?_, ?_, h.sender, fun _ ↦ ⟨hempty, hend⟩⟩
      · rw [hsent, h.values, Option.map_none, delivered_snoc_of_none rfl]
      · rw [hcancel]
        exact h.closed

theorem cancels (h : Delivery events s) : Delivery (events ++ [.cancels]) s.cancel where
  values := by
    rw [sent_snoc_of_none rfl, delivered_snoc_of_none rfl]
    exact h.values
  closed := ⟨fun _ ↦ List.mem_append_right _ (List.mem_singleton.mpr rfl), fun _ ↦ rfl⟩
  sender := h.sender
  null hmem := by
    rcases List.mem_append.mp hmem with hmem | hmem
    · exact ⟨(h.null hmem).1, .inl rfl⟩
    · cases List.mem_singleton.mp hmem

/-- Every step keeps it. -/
theorem step (h : Delivery events s) (hstep : StreamStep s e s') :
    Delivery (events ++ [e]) s' := by
  cases hstep with
  | polled htask _ =>
      exact h.quiet rfl rfl nofun nofun rfl rfl
        ⟨fun _ ↦ .inr rfl, fun _ ↦ h.sender.mpr (.inl htask)⟩ id
  | yields htask =>
      exact h.quiet rfl rfl nofun nofun rfl rfl
        ⟨fun _ ↦ .inl rfl, fun _ ↦ h.sender.mpr (.inr htask)⟩ id
  | emits htask tx => exact h.emits htask tx
  | returns _ _ => exact h.quiet rfl rfl nofun nofun rfl rfl ⟨nofun, nofun⟩ fun _ ↦ rfl
  | reports htask =>
      have hgone : s.rx.hasSender ≠ true := fun hs ↦ by
        rcases h.sender.mp hs with hp | hr
        · cases htask.symm.trans hp
        · cases htask.symm.trans hr
      exact h.quiet rfl rfl nofun nofun rfl rfl ⟨fun hs ↦ absurd hs hgone, nofun⟩ id
  | panics _ => exact h.quiet rfl rfl nofun nofun rfl rfl ⟨nofun, nofun⟩ fun _ ↦ rfl
  | dropped _ _ => exact h.quiet rfl rfl nofun nofun rfl rfl ⟨nofun, nofun⟩ fun _ ↦ rfl
  | callsNext => exact h.quiet rfl rfl nofun nofun rfl rfl h.sender id
  | nextReturns _ hpoll => exact h.nextReturns hpoll
  | callsStats _ => exact h.quiet rfl rfl nofun nofun rfl rfl h.sender id
  | statsReturns _ hpoll =>
      obtain ⟨rfl, -⟩ := pollStats_eq hpoll
      exact h.quiet rfl rfl nofun nofun rfl rfl h.sender id
  | refusesStats _ => exact h.quiet rfl rfl nofun nofun rfl rfl h.sender id
  | cancels => exact h.cancels

/-- Every run of a new stream has it. -/
theorem of_run (h : StreamRun startSync events s) : Delivery events s :=
  h.invariant start fun _ _ _ _ _ hi hstep ↦ hi.step hstep

/-- What is left in the channel is received by calls of `next()` alone. -/
theorem exists_drain (s : TransactionStream) : ∃ events s', StreamRun s events s' ∧
    (∀ e ∈ events, e.isNext = true) ∧ delivered events = s.rx.buffer.map grpcTxToNapi := by
  generalize hbuffer : s.rx.buffer = buffer
  induction buffer generalizing s with
  | nil => exact ⟨[], s, .nil, nofun, rfl⟩
  | cons v rest ih =>
      have hrecv : s.rx.recv = .ready (some v, { s.rx with buffer := rest }) :=
        Mpsc.recv_eq_some.mpr ⟨hbuffer, rfl, rfl⟩
      have hpoll : ({ s with waitingNext := s.waitingNext + 1 } : TransactionStream).pollNext =
          .ready (some (grpcTxToNapi v), { s with rx := { s.rx with buffer := rest } }) := by
        unfold TransactionStream.pollNext
        rw [hrecv]
        rfl
      obtain ⟨events, s', hrun, hnext, hdelivered⟩ :=
        ih { s with rx := { s.rx with buffer := rest } } rfl
      refine ⟨.callsNext :: .nextReturns (some (grpcTxToNapi v)) :: events, s',
        .cons .callsNext (.cons (.nextReturns (Nat.succ_pos _) hpoll) hrun), ?_, ?_⟩
      · rintro e (_ | ⟨_, _ | ⟨_, he⟩⟩)
        · rfl
        · rfl
        · exact hnext e he
      · rw [List.map_cons, ← hdelivered]
        rfl

end Delivery

/-! ## Statistics -/

/-- The receiver of the result is with the stream, with a waiting call, or used up; and a
stream without a task handle has been aborted. -/
structure StatsOnce (events : List StreamEvent) (s : TransactionStream) : Prop where
  once : events.countP StreamEvent.isStats + s.resultRx.toNat + s.waitingStats.toNat ≤ 1
  handle : s.taskHandle = true ∨ s.aborted = true

namespace StatsOnce

variable {events : List StreamEvent} {s s' : TransactionStream} {e : StreamEvent}

/-- A step that neither calls `stats()` nor answers it, and leaves the handle. -/
theorem quiet (h : StatsOnce events s) (he : e.isStats = false) (hrx : s'.resultRx = s.resultRx)
    (hwaits : s'.waitingStats = s.waitingStats) (hhandle : s'.taskHandle = s.taskHandle)
    (haborted : s'.aborted = s.aborted) : StatsOnce (events ++ [e]) s' where
  once := by
    rw [List.countP_append, List.countP_singleton, he, hrx, hwaits]
    exact h.once
  handle := by
    rw [hhandle, haborted]
    exact h.handle

theorem step (h : StatsOnce events s) (hstep : StreamStep s e s') :
    StatsOnce (events ++ [e]) s' := by
  cases hstep with
  | polled _ _ => exact h.quiet rfl rfl rfl rfl rfl
  | yields _ => exact h.quiet rfl rfl rfl rfl rfl
  | emits _ _ => exact h.quiet rfl rfl rfl rfl rfl
  | returns _ _ => exact h.quiet rfl rfl rfl rfl rfl
  | reports _ => exact h.quiet rfl rfl rfl rfl rfl
  | panics _ => exact h.quiet rfl rfl rfl rfl rfl
  | dropped _ _ => exact h.quiet rfl rfl rfl rfl rfl
  | callsNext => exact h.quiet rfl rfl rfl rfl rfl
  | nextReturns _ hpoll =>
      obtain ⟨value, rx, -, -, rfl⟩ := pollNext_eq hpoll
      exact h.quiet rfl rfl rfl rfl rfl
  | callsStats hrx =>
      have honce := h.once
      rw [hrx] at honce
      refine ⟨?_, h.handle⟩
      rw [List.countP_append, List.countP_singleton]
      show _ + 0 + 0 + 1 ≤ 1
      exact (Nat.le_add_right _ _).trans honce
  | statsReturns hwaits hpoll =>
      obtain ⟨rfl, -⟩ := pollStats_eq hpoll
      have honce := h.once
      rw [hwaits] at honce
      refine ⟨?_, h.handle⟩
      rw [List.countP_append, List.countP_singleton]
      show _ + 1 + s.resultRx.toNat ≤ 1
      rw [Nat.add_right_comm]
      exact honce
  | refusesStats _ => exact h.quiet rfl rfl rfl rfl rfl
  | cancels =>
      refine ⟨?_, .inr ?_⟩
      · rw [List.countP_append]
        exact h.once
      · rcases h.handle with hhandle | haborted
        · exact Bool.or_eq_true_iff.mpr (.inr hhandle)
        · exact Bool.or_eq_true_iff.mpr (.inl haborted)

theorem of_run (h : StreamRun startSync events s) : StatsOnce events s :=
  h.invariant ⟨le_rfl, .inl rfl⟩ fun _ _ _ _ _ hi hstep ↦ hi.step hstep

end StatsOnce

/-! ## After a cancel -/

namespace TransactionStream

/-- The task has sent statistics, or may send them in the poll that it is in. -/
def mayReport (s : TransactionStream) : Prop :=
  (∃ r, s.result.value = some (.ok r)) ∨ s.task = .running ∨ ∃ r, s.task = .returned (.ok r)

/-- No call of `stats()` can return any more: one has returned. -/
def statsSpent (s : TransactionStream) : Prop := s.resultRx = false ∧ s.waitingStats = false

/-- There are no statistics, and the task will not be polled to make some. -/
def barred (s : TransactionStream) : Prop :=
  ¬s.mayReport ∧ (s.task = .parked → s.aborted = true)

variable {s s' : TransactionStream} {e : StreamEvent}

theorem barred_cancel (h : ¬s.mayReport) (hhandle : s.taskHandle = true ∨ s.aborted = true) :
    s.cancel.barred :=
  ⟨h, fun _ ↦ Bool.or_eq_true_iff.mpr hhandle.symm⟩

/-- Nothing that a barred stream does returns statistics. -/
theorem barred_step (h : s.barred) (hstep : StreamStep s e s') :
    s'.barred ∧ ∀ stats, e ≠ .statsReturns (.ok stats) := by
  obtain ⟨hno, hparked⟩ := h
  have hrunning : s.task ≠ .running := fun htask ↦ hno (.inr (.inl htask))
  have hvalue : ∀ r, s.result.value ≠ some (.ok r) := fun r hr ↦ hno (.inl ⟨r, hr⟩)
  cases hstep with
  | polled htask hlive => exact absurd (hparked htask) (by rw [hlive]; nofun)
  | yields htask => exact absurd htask hrunning
  | emits htask _ => exact absurd htask hrunning
  | returns htask _ => exact absurd htask hrunning
  | @reports result htask =>
      refine ⟨⟨?_, nofun⟩, nofun⟩
      rintro (⟨r, hr⟩ | hr | ⟨r, hr⟩)
      · cases hr
        exact hno (.inr (.inr ⟨r, htask⟩))
      · cases hr
      · cases hr
  | panics htask => exact absurd htask hrunning
  | dropped _ _ =>
      refine ⟨⟨?_, nofun⟩, nofun⟩
      rintro (⟨r, hr⟩ | hr | ⟨r, hr⟩)
      · exact hvalue r hr
      · cases hr
      · cases hr
  | callsNext => exact ⟨⟨hno, hparked⟩, nofun⟩
  | nextReturns _ hpoll =>
      obtain ⟨value, rx, -, -, rfl⟩ := pollNext_eq hpoll
      exact ⟨⟨hno, hparked⟩, nofun⟩
  | callsStats _ => exact ⟨⟨hno, hparked⟩, nofun⟩
  | statsReturns _ hpoll =>
      obtain ⟨rfl, hok⟩ := pollStats_eq hpoll
      refine ⟨⟨hno, hparked⟩, ?_⟩
      rintro stats heq
      cases heq
      obtain ⟨r, hr⟩ := hok stats rfl
      exact hvalue r hr
  | refusesStats _ => exact ⟨⟨hno, hparked⟩, nofun⟩
  | cancels => exact ⟨⟨hno, fun htask ↦ Bool.or_eq_true_iff.mpr (.inl (hparked htask))⟩, nofun⟩

/-- Nor does anything once `stats()` has returned. -/
theorem statsSpent_step (h : s.statsSpent) (hstep : StreamStep s e s') :
    s'.statsSpent ∧ ∀ stats, e ≠ .statsReturns (.ok stats) := by
  cases hstep with
  | nextReturns _ hpoll =>
      obtain ⟨value, rx, -, -, rfl⟩ := pollNext_eq hpoll
      exact ⟨h, nofun⟩
  | callsStats hrx => exact absurd hrx (by rw [h.1]; nofun)
  | statsReturns hwaits _ => exact absurd hwaits (by rw [h.2]; nofun)
  | _ => exact ⟨h, nofun⟩

theorem no_stats_of_run {I : TransactionStream → Prop}
    (hstep : ∀ {s e s'}, I s → StreamStep s e s' →
      I s' ∧ ∀ stats, e ≠ .statsReturns (.ok stats))
    (h : I s) {events : List StreamEvent} (hrun : StreamRun s events s') (stats : Napi.SyncStats) :
    .statsReturns (.ok stats) ∉ events := by
  have key : I s' ∧ ∀ stats, .statsReturns (.ok stats) ∉ events := by
    refine hrun.invariant (I := fun events s ↦ I s ∧ ∀ stats, .statsReturns (.ok stats) ∉ events)
      ⟨h, fun _ ↦ nofun⟩ ?_
    rintro tr t e t' - ⟨ht, hnot⟩ hone
    obtain ⟨ht', hne⟩ := hstep ht hone
    refine ⟨ht', fun stats hmem ↦ ?_⟩
    rcases List.mem_append.mp hmem with hmem | hmem
    · exact hnot stats hmem
    · exact hne stats (List.mem_singleton.mp hmem).symm
  exact key.2 stats

/-- A result that was sent is still received. -/
theorem exists_stats_of_value {r : GrpcSyncResult} (hvalue : s.result.value = some (.ok r))
    (hwaits : s.waitingStats = true) : ∃ s', StreamStep s (.statsReturns (.ok r.stats)) s' := by
  refine ⟨{ s with waitingStats := false }, .statsReturns hwaits ?_⟩
  unfold pollStats Oneshot.recv
  rw [hvalue]
  rfl

/-- Statistics that may be reported may reach a waiting call. -/
theorem exists_stats_of_waiting (h : s.mayReport) (hwaits : s.waitingStats = true) :
    ∃ events s' stats, StreamRun s events s' ∧ .statsReturns (.ok stats) ∈ events := by
  have report : ∀ {t : TransactionStream} {r}, t.task = .returned (.ok r) →
      t.waitingStats = true →
      ∃ events s' stats, StreamRun t events s' ∧ .statsReturns (.ok stats) ∈ events := by
    intro t r htask hwaits
    obtain ⟨s', hs'⟩ := exists_stats_of_value (s := t.sendResult (.ok r)) rfl hwaits
    exact ⟨_, s', r.stats, .cons (.reports htask) (.single hs'),
      List.mem_cons_of_mem _ List.mem_cons_self⟩
  rcases h with ⟨r, hvalue⟩ | htask | ⟨r, htask⟩
  · obtain ⟨s', hs'⟩ := exists_stats_of_value hvalue hwaits
    exact ⟨_, s', r.stats, .single hs', List.mem_singleton.mpr rfl⟩
  · obtain ⟨events, s', stats, hrun, hmem⟩ :=
      report (t := s.runSyncReturns (.ok ⟨⟨[], 0, []⟩, 0⟩)) rfl hwaits
    exact ⟨_, s', stats, .cons (.returns htask _) hrun, List.mem_cons_of_mem _ hmem⟩
  · exact report htask hwaits

/-- They may reach a call that is still to come. -/
theorem exists_stats_of_call (h : s.mayReport) (hrx : s.resultRx = true) :
    ∃ events s' stats, StreamRun s (.callsStats :: events) s' ∧
      .statsReturns (.ok stats) ∈ events := by
  obtain ⟨events, s', stats, hrun, hmem⟩ := exists_stats_of_waiting
    (s := { s with resultRx := false, waitingStats := true }) h rfl
  exact ⟨events, s', stats, .cons (.callsStats hrx) hrun, hmem⟩

/-- After a cancel no call of `stats()` returns statistics exactly when one has returned before
or the task has none to report. -/
theorem cancel_silences_iff (hhandle : s.taskHandle = true ∨ s.aborted = true) :
    (∀ post s', StreamRun s.cancel post s' → ∀ stats, .statsReturns (.ok stats) ∉ post) ↔
      s.statsSpent ∨ ¬s.mayReport := by
  constructor
  · intro hall
    by_contra hnot
    obtain ⟨hspent, hmay⟩ := not_or.mp hnot
    have hmay : s.cancel.mayReport := of_not_not hmay
    cases hwaits : s.waitingStats with
    | true =>
        obtain ⟨events, s', stats, hrun, hmem⟩ := exists_stats_of_waiting hmay hwaits
        exact hall events s' hrun stats hmem
    | false =>
        have hrx : s.resultRx = true := by
          by_contra hrx
          exact hspent ⟨Bool.eq_false_of_not_eq_true hrx, hwaits⟩
        obtain ⟨events, s', stats, hrun, hmem⟩ := exists_stats_of_call hmay hrx
        exact hall _ s' hrun stats (List.mem_cons_of_mem _ hmem)
  · rintro (hspent | hmay) post s' hrun
    · exact no_stats_of_run statsSpent_step (show s.cancel.statsSpent from hspent) hrun
    · exact no_stats_of_run barred_step (barred_cancel hmay hhandle) hrun

/-- The same of the calls that are made after the cancel: none is answered with statistics
exactly when the receiver has been taken before, or the task has none to report. -/
theorem cancel_refuses_iff (hhandle : s.taskHandle = true ∨ s.aborted = true) :
    (∀ post s', StreamRun s.cancel post s' → .callsStats ∈ post →
      ∀ stats, .statsReturns (.ok stats) ∉ post) ↔ s.resultRx = false ∨ ¬s.mayReport := by
  constructor
  · intro hall
    by_contra hnot
    obtain ⟨hrx, hmay⟩ := not_or.mp hnot
    obtain ⟨events, s', stats, hrun, hmem⟩ := exists_stats_of_call
      (show s.cancel.mayReport from of_not_not hmay) (Bool.eq_true_of_not_eq_false hrx)
    exact hall _ s' hrun List.mem_cons_self stats (List.mem_cons_of_mem _ hmem)
  · rintro (hrx | hmay) post s' hrun hcall
    · -- the receiver is gone: the call cannot be made
      have key : s'.resultRx = false ∧ .callsStats ∉ post := by
        refine hrun.invariant (I := fun events t ↦ t.resultRx = false ∧ .callsStats ∉ events)
          ⟨hrx, nofun⟩ ?_
        rintro tr t e t' - ⟨ht, hnot⟩ hone
        have hmem : e ≠ .callsStats → .callsStats ∉ tr ++ [e] := by
          intro hne hmem
          rcases List.mem_append.mp hmem with hmem | hmem
          · exact hnot hmem
          · exact hne (List.mem_singleton.mp hmem).symm
        cases hone with
        | nextReturns _ hpoll =>
            obtain ⟨value, rx, -, -, rfl⟩ := pollNext_eq hpoll
            exact ⟨ht, hmem nofun⟩
        | callsStats htrue => exact absurd htrue (by rw [ht]; nofun)
        | statsReturns _ hpoll =>
            obtain ⟨rfl, -⟩ := pollStats_eq hpoll
            exact ⟨ht, hmem nofun⟩
        | _ => exact ⟨ht, hmem nofun⟩
      exact absurd hcall key.2
    · exact no_stats_of_run barred_step (barred_cancel hmay hhandle) hrun

end TransactionStream

/-! ## Every run -/

/-- What a run of a new stream guarantees. -/
structure StreamGuarantees (events : List StreamEvent) (s : TransactionStream) : Prop where
  /-- The values are returned in the order in which they were emitted. -/
  isPrefix : delivered events <+: (emitted events).map grpcTxToNapi
  /-- When `next()` returns null, all that was emitted before a cancel has been returned. -/
  complete : .nextReturns none ∈ events → delivered events = (sent events).map grpcTxToNapi
  /-- Until then, calls of `next()` return the rest. -/
  drains : ∃ more s', StreamRun s more s' ∧ (∀ e ∈ more, e.isNext = true) ∧
    delivered (events ++ more) = (sent events).map grpcTxToNapi
  /-- Nothing is returned after null. -/
  nullFinal : ∀ pre post, events = pre ++ .nextReturns none :: post →
    ∀ tx, .nextReturns (some tx) ∉ post
  statsOnce : events.countP StreamEvent.isStats ≤ 1

theorem StreamGuarantees.of_run {events : List StreamEvent} {s : TransactionStream}
    (h : StreamRun startSync events s) : StreamGuarantees events s := by
  have hd := Delivery.of_run h
  refine ⟨?_, fun hnull ↦ ?_, ?_, ?_, ?_⟩
  · refine List.IsPrefix.trans ⟨_, hd.values.symm⟩ ?_
    exact (isPrefix_sent events).map grpcTxToNapi
  · rw [hd.values, (hd.null hnull).1, List.map_nil, List.append_nil]
  · obtain ⟨more, s', hrun, hnext, hmore⟩ := Delivery.exists_drain s
    exact ⟨more, s', hrun, hnext, by rw [delivered_append, hmore, hd.values]⟩
  · rintro pre post rfl tx hmem
    -- the state in which the value is returned comes after null: its buffer is empty
    obtain ⟨before, after, rfl⟩ := List.append_of_mem hmem
    have hsplit : pre ++ .nextReturns none :: (before ++ .nextReturns (some tx) :: after) =
        (pre ++ .nextReturns none :: before) ++ ([.nextReturns (some tx)] ++ after) := by
      simp
    rw [hsplit] at h
    obtain ⟨t, ht, hrest⟩ := h.split
    obtain ⟨t', hone, -⟩ := hrest.uncons
    have hempty := ((Delivery.of_run ht).null
      (List.mem_append_right _ List.mem_cons_self)).1
    cases hone with
    | nextReturns _ hpoll =>
        obtain ⟨value, rx, hrecv, hvalue, -⟩ := pollNext_eq hpoll
        cases value with
        | none => cases hvalue
        | some v => exact absurd (hempty.symm.trans (Mpsc.recv_eq_some.mp hrecv).1) nofun
  · exact (Nat.le_add_right _ _).trans ((Nat.le_add_right _ _).trans (StatsOnce.of_run h).once)

/-- Every interleaving delivers what was emitted before the first cancel, in order, and then
null for ever; `stats()` succeeds at most once.  After a cancel in its last state, `stats()` is
certain to fail exactly when it has returned before or the task has no statistics to report; so
it is in every run whose cancels all come then. -/
theorem stream_delivers {events : List StreamEvent} {s : TransactionStream}
    (h : StreamRun startSync events s) :
    StreamGuarantees events s ∧
      ((∀ post s', StreamRun s.cancel post s' → ∀ stats, .statsReturns (.ok stats) ∉ post) ↔
        s.statsSpent ∨ ¬s.mayReport) ∧
      ((∀ post s', StreamRun s.cancel post s' → .callsStats ∈ post →
        ∀ stats, .statsReturns (.ok stats) ∉ post) ↔ s.resultRx = false ∨ ¬s.mayReport) ∧
      ((∀ pre post t, events = pre ++ .cancels :: post → StreamRun startSync pre t →
          t.statsSpent ∨ ¬t.mayReport) →
        ∀ pre post, events = pre ++ .cancels :: post →
          ∀ stats, .statsReturns (.ok stats) ∉ post) := by
  have hhandle := (StatsOnce.of_run h).handle
  refine ⟨.of_run h, TransactionStream.cancel_silences_iff hhandle,
    TransactionStream.cancel_refuses_iff hhandle, ?_⟩
  rintro hclean pre post rfl
  obtain ⟨t, ht, hrest⟩ := h.split
  obtain ⟨t', hone, hpost⟩ := hrest.uncons
  cases hone with
  | cancels =>
      exact (TransactionStream.cancel_silences_iff (StatsOnce.of_run ht).handle).mpr
        (hclean pre post t rfl ht) post s hpost

/-- A transaction without notes. -/
def notelessTx : ShieldedTransaction where
  txid := "a"
  hex := ""
  blockHeight := 1
  blockHash := ""
  blockTime := 0
  feeZatoshis := 0
  transparentOutZatoshis := 0
  hasTransparentInputs := false
  saplingNotes := []
  orchardNotes := []
  ironwoodNotes := []

/-- A transaction is emitted before the task waits: a cancel then leaves it to be returned, and
no statistics. -/
theorem stream_delivers_cancelled : ∃ s,
    StreamGuarantees [.polled, .emits notelessTx, .yields] s ∧
      ∀ post s', StreamRun s.cancel post s' → ∀ stats, .statsReturns (.ok stats) ∉ post := by
  have hrun : StreamRun startSync [.polled, .emits notelessTx, .yields]
      { startSync with rx := startSync.rx.send notelessTx } :=
    .cons (.polled rfl rfl) (.cons (.emits rfl _) (.single (.yields rfl)))
  refine ⟨_, (stream_delivers hrun).1, (stream_delivers hrun).2.1.mpr (.inr ?_)⟩
  rintro (⟨r, hr⟩ | hr | ⟨r, hr⟩) <;> cases hr

/-- The scan completes, the caller cancels and asks for statistics: they are returned. -/
theorem stats_after_cancel : ∃ r s, StreamRun startSync
    [.polled, .returns (.ok r), .reports, .cancels, .callsStats, .statsReturns (.ok r.stats)] s :=
  ⟨⟨⟨[], 5, []⟩, 20⟩, _, .cons (.polled rfl rfl) <| .cons (.returns rfl _) <|
    .cons (.reports rfl) <| .cons .cancels <| .cons (.callsStats rfl) <|
    .single (.statsReturns rfl rfl)⟩

end LedgerZcash
