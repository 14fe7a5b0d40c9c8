import Caeco.Client.Program

/-!
# The program with its accelerator

The closed system: one process uses the accelerator, and the driver forwards every
completion interrupt to it. A transfer that succeeds has delivered its data, which starts a
job; a transfer that fails has started none. Finishing a job raises `caeco_irq`, which
sends the signal. A signal that is already pending is not queued a second time.
-/

namespace Caeco.Client

open Payload Runs

/-- `delivered` is about the transfer being made. `started` is history: the jobs started
so far. -/
structure System where
  program : Program
  delivered : Bool
  jobs : Nat
  pending : Bool
  started : Nat
deriving Repr, DecidableEq

/-- The program at its start, with an accelerator that has no job. -/
def System.init (txBuf : Vector (BitVec 32) 330) : System where
  program := .init txBuf
  delivered := false
  jobs := 0
  pending := false
  started := 0

/-- A step of the program, the arrival of a transfer's data, or the end of a job. Each comes
when the environment lets it. -/
inductive Event where
  | client (a : Action)
  | deliver
  | finish
deriving DecidableEq

/-- What the environment lets the program do: the handler runs for a pending signal, and a
transfer returns zero exactly if the data was delivered. -/
def System.Allows (s : System) : Action → Prop
  | .signal => s.pending = true
  | .returns ok => s.delivered = ok
  | _ => True

instance (s : System) : ∀ a, Decidable (s.Allows a)
  | .signal => inferInstanceAs (Decidable (s.pending = true))
  | .returns ok => inferInstanceAs (Decidable (s.delivered = ok))
  | .publish _ _ | .test | .count | .transfer | .reset => isTrue trivial

/-- The system after the program has moved on to `p`. -/
def System.after (s : System) (a : Action) (p : Program) : System :=
  match a with
  | .transfer => { s with program := p, delivered := false }
  | .signal => { s with program := p, pending := false }
  | _ => { s with program := p }

/-- The data of the transfer being made reaches the accelerator. -/
def System.deliver (s : System) : System :=
  { s with delivered := true, jobs := s.jobs + 1, started := s.started + 1 }

/-- A job completes and `caeco_irq` sends the signal. -/
def System.finish (s : System) : System := { s with jobs := s.jobs - 1, pending := true }

/-- The program together with the accelerator and the driver behind it. Data arrives at most once
for a transfer, and signals that are pending at the same time are one. -/
def System.step (malloc : Malloc) (s : System) : Event → Option System
  | .client a => if s.Allows a then (s.program.step malloc a).map (s.after a) else none
  | .deliver =>
      if s.program.pc = .transferring ∧ s.delivered = false then some s.deliver else none
  | .finish => if 0 < s.jobs then some s.finish else none

/-- What a step can do. -/
inductive System.Steps (malloc : Malloc) (s : System) : Event → System → Prop where
  | client (a : Action) (p : Program) (hallows : s.Allows a)
      (hp : s.program.Steps malloc a p) : Steps malloc s (.client a) (s.after a p)
  | deliver (hpc : s.program.pc = .transferring) (hnew : s.delivered = false) :
      Steps malloc s .deliver s.deliver
  | finish (hjobs : 0 < s.jobs) : Steps malloc s .finish s.finish

theorem System.steps_of_step {malloc : Malloc} {s s' : System} {e : Event}
    (h : s.step malloc e = some s') : s.Steps malloc e s' := by
  cases e with
  | client a =>
      simp only [System.step] at h
      split at h
      · rename_i hallows
        obtain ⟨p, hp, rfl⟩ := Option.map_eq_some_iff.mp h
        exact .client a p hallows (Program.steps_of_step hp)
      · cases h
  | deliver =>
      simp only [System.step] at h
      split at h
      · rename_i hnew
        cases h
        exact .deliver hnew.1 hnew.2
      · cases h
  | finish =>
      simp only [System.step] at h
      split at h
      · rename_i hjobs
        cases h
        exact .finish hjobs
      · cases h

/-- The completions still to be handled: running jobs and the pending signal. -/
def System.outstanding (s : System) : Nat := s.jobs + if s.pending then 1 else 0

theorem System.outstanding_deliver (s : System) :
    s.deliver.outstanding = s.outstanding + 1 := Nat.add_right_comm _ _ _

/-- Finishing a job does not settle it, unless its signal meets a pending one. -/
theorem System.outstanding_finish {s : System} (hjobs : 0 < s.jobs)
    (hone : s.outstanding ≤ 1) : s.finish.outstanding = s.outstanding := by
  have hpending : s.pending = false := by
    cases h : s.pending with
    | false => rfl
    | true => simp only [outstanding, h, if_true] at hone; omega
  simp only [outstanding, finish, hpending, if_true, Bool.false_eq_true, if_false]
  omega

theorem System.outstanding_signal {s : System} (hpending : s.pending = true) (p : Program) :
    (s.after .signal p).outstanding + 1 = s.outstanding := by
  simp [outstanding, after, hpending]

theorem System.outstanding_eq_zero {s : System} (hjobs : s.jobs = 0)
    (hpending : s.pending = false) : s.outstanding = 0 := by
  simp [outstanding, hjobs, hpending]

theorem System.eq_zero_of_outstanding {s : System} (h : s.outstanding = 0) :
    s.jobs = 0 ∧ s.pending = false := by
  simp only [outstanding] at h
  cases hp : s.pending with
  | false => exact ⟨by omega, rfl⟩
  | true => simp only [hp, if_true] at h; omega

theorem System.pending_eq_false {s : System} (h : s.outstanding = 0) : s.pending ≠ true := by
  rw [(eq_zero_of_outstanding h).2]
  exact Bool.false_ne_true

end Caeco.Client
