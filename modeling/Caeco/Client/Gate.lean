import Caeco.Client.System

/-!
# The accelerator is not fed while busy

`caeco_rdy` is one flag that the handler may set at any moment. What makes it a gate is
that there is never more than one completion to wait for, and none at all from the moment
the callback may pass its test to the moment its own transfer starts a job.
-/

namespace Caeco.Client

open Payload Runs

/-- The next thing to happen to the accelerator is the job of a callback: the one running,
or the next one, which will find `caeco_rdy` set. -/
def System.MayStart (s : System) : Prop :=
  match s.program.pc with
  | .idle | .filled => s.program.caecoRdy = true
  | .ready | .counted => True
  | .transferring => s.delivered = false
  | .returned ok => ok = false

/-- A callback is on its way to a transfer, or the next one will be. -/
def Program.Passing (s : Program) : Prop :=
  match s.pc with
  | .idle | .filled => s.caecoRdy = true
  | .ready | .counted => True
  | .transferring | .returned _ => False

/-- The invariant behind the gate: at most one completion is outstanding, none where a transfer may
start, and no more buffers have been handed over than completions handled, but for the last. -/
structure Gate (s : System) : Prop where
  one : s.outstanding ≤ 1
  quiet : s.MayStart → s.outstanding = 0
  balance : s.started = s.program.handled + s.outstanding
  count : s.program.handed.length ≤ s.program.handled + 1
  passing : s.program.Passing → s.program.handed.length ≤ s.program.handled

theorem gate_init (txBuf : Vector (BitVec 32) 330) : Gate (.init txBuf) where
  one := Nat.zero_le 1
  quiet := fun _ => rfl
  balance := rfl
  count := Nat.zero_le 1
  passing := fun _ => Nat.le_refl 0

/-- A step of the client thread that leaves the accelerator and the counters alone keeps
the gate, as long as it opens it only where it was open. -/
theorem Gate.of_frame {s s' : System} (hs : Gate s)
    (hout : s'.outstanding = s.outstanding) (hstarted : s'.started = s.started)
    (hhandled : s'.program.handled = s.program.handled)
    (hhanded : s'.program.handed = s.program.handed)
    (hstart : s'.MayStart → s.MayStart) (hpass : s'.program.Passing → s.program.Passing) :
    Gate s' where
  one := by rw [hout]; exact hs.one
  quiet := fun h => by rw [hout]; exact hs.quiet (hstart h)
  balance := by rw [hout, hstarted, hhandled]; exact hs.balance
  count := by rw [hhanded, hhandled]; exact hs.count
  passing := fun h => by rw [hhanded, hhandled]; exact hs.passing (hpass h)

theorem gate_step {malloc : Malloc} {s s' : System} {e : Event} (hs : Gate s)
    (h : s.step malloc e = some s') : Gate s' := by
  cases System.steps_of_step h with
  | client a p hallows hp =>
      cases hp with
      | publish published junk hpc =>
          refine hs.of_frame rfl rfl rfl rfl ?_ ?_
          · intro h
            simp only [System.MayStart, hpc]
            exact h
          · intro h
            simp only [Program.Passing, hpc]
            exact h
      | test hpc =>
          refine hs.of_frame rfl rfl rfl rfl ?_ ?_
          · intro h
            simp only [System.MayStart, hpc]
            by_contra hrdy
            simp [System.MayStart, System.after, Program.test, hrdy] at h
          · intro h
            simp only [Program.Passing, hpc]
            by_contra hrdy
            simp [Program.Passing, System.after, Program.test, hrdy] at h
      | count hpc =>
          refine hs.of_frame rfl rfl rfl rfl ?_ ?_
          · intro _; simp only [System.MayStart, hpc]
          · intro _; simp only [Program.Passing, hpc]
      | transfer hpc =>
          have hquiet := hs.quiet (by simp only [System.MayStart, hpc])
          have hpassing := hs.passing (by simp only [Program.Passing, hpc])
          refine ⟨hs.one, fun _ => hquiet, hs.balance, ?_, fun h => h.elim⟩
          show (s.program.handed ++ [s.program.txBuf]).length ≤ s.program.handled + 1
          rw [List.length_append, List.length_singleton]
          exact Nat.succ_le_succ hpassing
      | returns ok hpc =>
          refine hs.of_frame rfl rfl rfl rfl ?_ ?_
          · intro h
            simp only [System.MayStart, hpc]
            exact Eq.trans hallows h
          · intro h; exact h.elim
      | reset ok hpc =>
          refine hs.of_frame rfl rfl rfl rfl ?_ ?_
          · intro h; cases h
          · intro h; cases h
      | signal =>
          -- the one completion is settled, so the gate may open at any program point
          have hout := System.outstanding_signal hallows s.program.signalCaeco
          have hone := hs.one
          have hbalance := hs.balance
          have hcount := hs.count
          refine ⟨by omega, fun _ => by omega, ?_, Nat.le_succ_of_le hcount, fun _ => hcount⟩
          show s.started = s.program.handled + 1 + _
          omega
  | deliver hpc hnew =>
      -- the new job is the only one: the gate was open up to here
      have hquiet : s.outstanding = 0 := hs.quiet (by simp only [System.MayStart, hpc, hnew])
      have hout := s.outstanding_deliver
      refine ⟨by omega, ?_, ?_, hs.count, hs.passing⟩
      · intro h
        simp only [System.MayStart, System.deliver, hpc] at h
        cases h
      · show s.started + 1 = s.program.handled + _
        have hbalance := hs.balance
        omega
  | finish hjobs =>
      exact hs.of_frame (System.outstanding_finish hjobs hs.one) rfl rfl rfl id id

theorem gate_run {malloc : Malloc} {txBuf : Vector (BitVec 32) 330} {es : List Event}
    {s : System} (h : run (System.step malloc) (.init txBuf) es = some s) : Gate s :=
  run_invariant (fun _ _ _ => gate_step) (gate_init txBuf) h

/-- **The gate**: in every run, with failing transfers, coalesced signals and signals
between any two statements, a transfer is called only when every job started before has
completed and its signal was handled, and there was never more than one transfer more than
signals handled. -/
theorem transfer_when_idle (malloc : Malloc) (txBuf : Vector (BitVec 32) 330)
    {es : List Event} {s : System}
    (h : run (System.step malloc) (.init txBuf) es = some s) :
    s.program.handed.length ≤ s.program.handled + 1 ∧
      ∀ s', s.step malloc (.client .transfer) = some s' →
        s.jobs = 0 ∧ s.pending = false ∧ s.started = s.program.handled := by
  have hgate : Gate s := gate_run h
  refine ⟨hgate.count, fun s' hs' => ?_⟩
  cases System.steps_of_step hs' with
  | client a p hallows hp =>
      cases hp with
      | transfer hpc =>
          have hquiet := hgate.quiet (by simp only [System.MayStart, hpc])
          obtain ⟨hjobs, hpending⟩ := System.eq_zero_of_outstanding hquiet
          refine ⟨hjobs, hpending, ?_⟩
          rw [hgate.balance, hquiet, Nat.add_zero]

/-- One message, its transfer, its job and the signal for it. -/
def servedMessage (published : ResponsePublish) : List Event :=
  [.client (.publish published (.replicate 330 0, ⟨0, []⟩)), .client .test, .client .count,
    .client .transfer, .deliver, .client (.returns true), .client .reset, .finish,
    .client .signal]

/-- Before the second transfer. -/
theorem transfer_when_idle_second :
    ∃ s, run (System.step fun _ _ => some []) (.init (.replicate 330 0))
        (servedMessage fullMessage ++ (servedMessage fullMessage).take 3) = some s ∧
      s.program.handed.length = 1 ∧ s.started = 1 ∧ s.jobs = 0 ∧ s.pending = false ∧
      s.program.handled = 1 := by
  obtain ⟨_, hidle⟩ := transfer_when_idle (fun _ _ => some []) (.replicate 330 0)
    (show run _ _ (servedMessage fullMessage ++ (servedMessage fullMessage).take 3) = some _
      from rfl)
  obtain ⟨hjobs, hpending, hstarted⟩ := hidle _ rfl
  exact ⟨_, rfl, rfl, rfl, hjobs, hpending, hstarted.symm⟩

end Caeco.Client
