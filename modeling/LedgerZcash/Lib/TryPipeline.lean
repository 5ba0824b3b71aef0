import LedgerZcash.Lib.Trace
import Mathlib.Tactic

/-!
# Pipelines over a stream that can break off

The jobs of a pipeline arrive on a stream.  While fewer than `width` of them are in flight the
next item of the stream is taken: a job is started, and an error ends the pipeline and drops
what is in flight.  Any job in flight may complete next.  What is taken is either answered once
or still in flight (`Accounts.of_run`), so that a pipeline that ends well has answered the whole
stream, and one that fails has left out less than `width` of the jobs before the first error.
-/

namespace LedgerZcash.TryPipeline

open Trace

universe u v w

variable {ε : Type u} {α : Type v} {β : Type w}

structure State (ε : Type u) (α : Type v) (β : Type w) where
  /-- Items of the stream not taken yet. -/
  waiting : List (Except ε α)
  /-- Jobs in flight. -/
  running : List α
  /-- Answers, in the order of completion. -/
  done : List β
  /-- The error that ended the pipeline. -/
  failed : Option ε

/-- The whole stream waits. -/
def State.init (stream : List (Except ε α)) : State ε α β := ⟨stream, [], [], none⟩

/-- The pipeline has failed, or no job is left. -/
def State.Ended (s : State ε α β) : Prop := s.failed ≠ none ∨ s.waiting = [] ∧ s.running = []

/-- A bound on the steps still to be made: an item of the stream takes two, a job in flight
one. -/
def State.stepsLeft (s : State ε α β) : Nat :=
  match s.failed with
  | none => 2 * s.waiting.length + s.running.length
  | some _ => 0

inductive Event (ε : Type u) (α : Type v) where
  | start (job : α)
  | complete (job : α)
  | fail (error : ε)

/-- The next item of the stream is taken when there is room; any job in flight completes. -/
inductive Step (width : Nat) (f : α → β) : State ε α β → Event ε α → State ε α β → Prop
  | start {job : α} {waiting : List (Except ε α)} {running : List α} {done : List β}
      (hroom : running.length < width) :
      Step width f ⟨.ok job :: waiting, running, done, none⟩ (.start job)
        ⟨waiting, running ++ [job], done, none⟩
  | complete (before : List α) {job : α} {waiting : List (Except ε α)} {after : List α}
      {done : List β} :
      Step width f ⟨waiting, before ++ job :: after, done, none⟩ (.complete job)
        ⟨waiting, before ++ after, done ++ [f job], none⟩
  | fail {e : ε} {waiting : List (Except ε α)} {running : List α} {done : List β}
      (hroom : running.length < width) :
      Step width f ⟨.error e :: waiting, running, done, none⟩ (.fail e)
        ⟨waiting, [], done, some e⟩

variable {width : Nat} {f : α → β} {stream : List (Except ε α)} {s s' : State ε α β}
  {a : Event ε α} {tr : List (Event ε α)}

/-! ## What a step keeps -/

/-- The jobs taken from the stream: each is answered, in flight, or dropped by the error. -/
inductive Accounts (width : Nat) (f : α → β) (stream : List (Except ε α)) : State ε α β → Prop
  | pending {waiting : List (Except ε α)} {running : List α} {done : List β} (taken : List α)
      (hstream : stream = taken.map .ok ++ waiting) (hroom : running.length ≤ width)
      (hperm : (done ++ running.map f).Perm (taken.map f)) :
      Accounts width f stream ⟨waiting, running, done, none⟩
  | broken {e : ε} {waiting : List (Except ε α)} {running : List α} {done : List β}
      (taken dropped : List α) (hrunning : running = [])
      (hstream : stream = taken.map .ok ++ .error e :: waiting) (hroom : dropped.length < width)
      (hperm : (done ++ dropped.map f).Perm (taken.map f)) :
      Accounts width f stream ⟨waiting, running, done, some e⟩

theorem Accounts.init (width : Nat) (f : α → β) (stream : List (Except ε α)) :
    Accounts width f stream (.init stream) :=
  .pending [] rfl (Nat.zero_le _) (.refl _)

theorem Accounts.step (h : Accounts width f stream s) (hstep : Step width f s a s') :
    Accounts width f stream s' := by
  cases hstep with
  | @start job waiting running done hroom =>
      cases h with
      | pending taken hstream _ hperm =>
          refine .pending (taken ++ [job]) ?_ ?_ ?_
          · rw [hstream, List.map_append, List.append_assoc]
            rfl
          · rw [List.length_append]
            exact hroom
          · rw [List.map_append, List.map_append, ← List.append_assoc]
            exact hperm.append_right _
  | @complete before job waiting after done =>
      cases h with
      | pending taken hstream hroom hperm =>
          refine .pending taken hstream ?_ ?_
          · rw [List.length_append, List.length_cons] at hroom
            rw [List.length_append]
            exact Nat.le_of_succ_le hroom
          · refine List.Perm.trans ?_ hperm
            rw [List.map_append, List.map_append, List.map_cons, List.append_assoc,
              List.singleton_append]
            exact List.Perm.append_left _ List.perm_middle.symm
  | fail hroom =>
      cases h with
      | pending taken hstream _ hperm => exact .broken taken _ rfl hstream hroom hperm

/-- Each step uses up at least one of the steps left. -/
theorem Step.stepsLeft_lt (h : Step width f s a s') : s'.stepsLeft < s.stepsLeft := by
  cases h with
  | start =>
      simp only [State.stepsLeft, List.length_append, List.length_cons, List.length_nil]
      omega
  | complete =>
      simp only [State.stepsLeft, List.length_append, List.length_cons]
      omega
  | fail =>
      simp only [State.stepsLeft, List.length_cons]
      omega

/-- A pipeline with room for one job does not get stuck before it ends. -/
theorem exists_step (hwidth : 0 < width) (f : α → β) (h : ¬s.Ended) :
    ∃ a s', Step width f s a s' := by
  obtain ⟨waiting, running, done, failed⟩ := s
  cases failed with
  | some e => exact absurd (.inl (Option.some_ne_none e)) h
  | none =>
      cases running with
      | cons job after => exact ⟨_, _, .complete []⟩
      | nil =>
          cases waiting with
          | nil => exact absurd (.inr ⟨rfl, rfl⟩) h
          | cons item waiting =>
              cases item with
              | ok job => exact ⟨_, _, .start hwidth⟩
              | error e => exact ⟨_, _, .fail hwidth⟩

/-! ## What a run keeps -/

theorem Accounts.of_run (h : Run (Step width f) (.init stream) tr s) :
    Accounts width f stream s :=
  h.invariant (I := fun _ s ↦ Accounts width f stream s) (.init width f stream)
    fun _ _ _ _ _ hs hstep ↦ hs.step hstep

/-- No more than `width` jobs are in flight. -/
theorem running_le (h : Run (Step width f) (.init stream) tr s) : s.running.length ≤ width := by
  cases Accounts.of_run h with
  | pending _ _ hroom _ => exact hroom
  | broken _ _ hrunning =>
      rw [hrunning]
      exact Nat.zero_le _

theorem length_run_le (h : Run (Step width f) (.init stream) tr s) :
    tr.length + s.stepsLeft ≤ 2 * stream.length := by
  refine h.invariant (I := fun tr s ↦ tr.length + s.stepsLeft ≤ 2 * stream.length) ?_ ?_
  · simp only [State.stepsLeft, State.init, List.length_nil, Nat.zero_add, Nat.add_zero, le_refl]
  · intro tr s a s' _ hlen hstep
    have hlt := hstep.stepsLeft_lt
    rw [List.length_append, List.length_singleton]
    omega

/-- Whatever the steps made so far, the run can be brought to its end. -/
theorem exists_ended (hwidth : 0 < width) (f : α → β) (s : State ε α β) :
    ∃ tr s', Run (Step width f) s tr s' ∧ s'.Ended := by
  generalize hn : s.stepsLeft = n
  induction n using Nat.strongRecOn generalizing s with
  | ind n ih =>
      by_cases hs : s.Ended
      · exact ⟨[], s, .nil, hs⟩
      · obtain ⟨a, s', hstep⟩ := exists_step hwidth f hs
        obtain ⟨tr, s'', hrun, hended⟩ := ih _ (hn ▸ hstep.stepsLeft_lt) s' rfl
        exact ⟨a :: tr, s'', hrun.cons hstep, hended⟩

/-- A pipeline that ends without an error has answered the whole stream. -/
theorem perm_of_ended (h : Run (Step width f) (.init stream) tr s) (hs : s.Ended)
    (hok : s.failed = none) :
    ∃ jobs : List α, stream = jobs.map .ok ∧ s.done.Perm (jobs.map f) := by
  cases Accounts.of_run h with
  | broken => cases hok
  | pending taken hstream _ hperm =>
      obtain ⟨rfl, rfl⟩ := hs.resolve_left (absurd hok)
      rw [List.append_nil] at hstream
      rw [List.map_nil, List.append_nil] at hperm
      exact ⟨taken, hstream, hperm⟩

/-- A pipeline that fails does so at the first error of its stream, and has answered all but
less than `width` of the jobs before it. -/
theorem answered_of_failed {e : ε} (h : Run (Step width f) (.init stream) tr s)
    (hfailed : s.failed = some e) :
    ∃ (jobs : List α) (rest : List (Except ε α)), stream = jobs.map .ok ++ .error e :: rest ∧
      s.done.Subperm (jobs.map f) ∧ jobs.length < s.done.length + width := by
  cases Accounts.of_run h with
  | pending => cases hfailed
  | broken taken dropped _ hstream hroom hperm =>
      obtain rfl := Option.some.inj hfailed
      refine ⟨taken, _, hstream, ?_, ?_⟩
      · exact (List.sublist_append_left _ _).subperm.trans hperm.subperm
      · have hlen := hperm.length_eq
        rw [List.length_append, List.length_map, List.length_map] at hlen
        rw [← hlen]
        exact Nat.add_lt_add_left hroom _

/-- What has been taken is ahead of the answers by no more than `width` jobs. -/
theorem exists_taken (h : Run (Step width f) (.init stream) tr s) :
    ∃ taken : List α, stream = taken.map .ok ++ (s.failed.map .error).toList ++ s.waiting ∧
      s.done.Subperm (taken.map f) ∧ taken.length ≤ s.done.length + width := by
  cases Accounts.of_run h with
  | pending taken hstream hroom hperm =>
      refine ⟨taken, ?_, ?_, ?_⟩
      · rw [hstream, Option.map_none, Option.toList_none, List.append_nil]
      · exact (List.sublist_append_left _ _).subperm.trans hperm.subperm
      · have hlen := hperm.length_eq
        rw [List.length_append, List.length_map, List.length_map] at hlen
        exact hlen ▸ Nat.add_le_add_left hroom _
  | broken taken dropped _ hstream hroom hperm =>
      refine ⟨taken, ?_, ?_, ?_⟩
      · rw [hstream, Option.map_some, Option.toList_some, List.append_assoc,
          List.singleton_append]
      · exact (List.sublist_append_left _ _).subperm.trans hperm.subperm
      · have hlen := hperm.length_eq
        rw [List.length_append, List.length_map, List.length_map] at hlen
        exact hlen ▸ Nat.add_le_add_left hroom.le _

end LedgerZcash.TryPipeline
