import Caeco.Client.Gate

/-!
# When a completion is lost

The callback resets `caeco_rdy` after the transfer has returned. If the accelerator answers
within the transfer, or right after it, the handler may set the flag before the callback
clears it. Then no job is left whose signal could set it again.
-/

namespace Caeco.Client

open Payload Runs

/-- The handler runs outside the callback's test, transfer and reset. -/
def HandledOutside (s : System) (e : Event) : Prop :=
  e = .client .signal → s.program.pc = .idle ∨ s.program.pc = .filled

/-- The transfer call does not fail. -/
def TransferOk (e : Event) : Prop := e ≠ .client (.returns false)

/-- How many completions the program counts on. -/
def System.expected (s : System) : Nat :=
  match s.program.pc with
  | .idle | .filled => if s.program.caecoRdy then 0 else 1
  | .ready | .counted => 0
  | .transferring => if s.delivered then 1 else 0
  | .returned _ => 1

/-- Whatever the program waits for is still to come. -/
def Served (s : System) : Prop := s.outstanding = s.expected

/-- The program waits, or will wait, for a completion that has been handled already. -/
structure Stalled (s : System) : Prop where
  quiet : s.outstanding = 0
  waits : match s.program.pc with
    | .idle | .filled => s.program.caecoRdy = false
    | .ready | .counted => False
    | .transferring => s.delivered = true
    | .returned _ => True

theorem System.expected_le_one (s : System) : s.expected ≤ 1 := by
  unfold expected
  split
  · split
    · exact Nat.zero_le 1
    · exact Nat.le_refl 1
  · split
    · exact Nat.zero_le 1
    · exact Nat.le_refl 1
  · exact Nat.zero_le 1
  · exact Nat.zero_le 1
  · split
    · exact Nat.le_refl 1
    · exact Nat.zero_le 1
  · exact Nat.le_refl 1

theorem served_step {malloc : Malloc} {s s' : System} {e : Event} (hs : Served s)
    (hok : TransferOk e) (h : s.step malloc e = some s') (hout : HandledOutside s e) :
    Served s' := by
  have hexp := s.expected_le_one
  unfold Served at hs
  cases System.steps_of_step h with
  | client a p hallows hp =>
      cases hp with
      | publish published junk hpc =>
          show s.outstanding = if s.program.caecoRdy then 0 else 1
          simpa only [System.expected, hpc] using hs
      | test hpc =>
          simp only [System.expected, hpc] at hs
          show s.outstanding = _
          by_cases hrdy : s.program.caecoRdy
          · simpa [System.expected, System.after, Program.test, hrdy] using hs
          · simpa [System.expected, System.after, Program.test, hrdy] using hs
      | count hpc =>
          show s.outstanding = 0
          simpa only [System.expected, hpc] using hs
      | transfer hpc =>
          show s.outstanding = 0
          simpa only [System.expected, hpc] using hs
      | returns ok hpc =>
          -- a transfer that succeeds has started its job
          have hdelivered : s.delivered = true := by
            cases ok with
            | true => exact hallows
            | false => exact absurd rfl hok
          show s.outstanding = 1
          simpa [System.expected, hpc, hdelivered] using hs
      | reset ok hpc =>
          show s.outstanding = 1
          simpa only [System.expected, hpc] using hs
      | signal =>
          have hsignal := System.outstanding_signal hallows s.program.signalCaeco
          have hzero : (s.after .signal s.program.signalCaeco).outstanding = 0 := by omega
          rw [Served, hzero]
          rcases hout rfl with hpc | hpc
          · simp [System.expected, System.after, Program.signalCaeco, hpc]
          · simp [System.expected, System.after, Program.signalCaeco, hpc]
  | deliver hpc hnew =>
      have hzero : s.outstanding = 0 := by simpa [System.expected, hpc, hnew] using hs
      rw [Served, System.outstanding_deliver, hzero]
      simp [System.expected, System.deliver, hpc]
  | finish hjobs =>
      rw [Served, System.outstanding_finish hjobs (by omega)]
      exact hs

/-- A handler that runs within the callback takes the only completion there is. -/
theorem stalled_of_early {malloc : Malloc} {s s' : System} {e : Event} (hs : Served s)
    (h : s.step malloc e = some s') (hout : ¬ HandledOutside s e) : Stalled s' := by
  have hexp := s.expected_le_one
  unfold Served at hs
  unfold HandledOutside at hout
  push Not at hout
  obtain ⟨rfl, hidle, hfilled⟩ := hout
  cases System.steps_of_step h with
  | client a p hallows hp =>
      cases hp with
      | signal =>
          have hsignal := System.outstanding_signal hallows s.program.signalCaeco
          refine ⟨by omega, ?_⟩
          show match s.program.pc with
            | .idle | .filled => true = false
            | .ready | .counted => False
            | .transferring => s.delivered = true
            | .returned _ => True
          -- up to the delivery nothing is outstanding, so there was no signal to handle
          cases hpc : s.program.pc with
          | idle => exact absurd hpc hidle
          | filled => exact absurd hpc hfilled
          | ready => simp only [System.expected, hpc] at hs; omega
          | counted => simp only [System.expected, hpc] at hs; omega
          | transferring =>
              by_contra hnew
              simp [System.expected, hpc, hnew] at hs
              omega
          | returned ok => trivial

theorem stalled_step {malloc : Malloc} {s s' : System} {e : Event} (hs : Stalled s)
    (h : s.step malloc e = some s') : Stalled s' := by
  obtain ⟨hquiet, hwaits⟩ := hs
  cases System.steps_of_step h with
  | client a p hallows hp =>
      cases hp with
      | publish published junk hpc =>
          simp only [hpc] at hwaits
          exact ⟨hquiet, hwaits⟩
      | test hpc =>
          simp only [hpc] at hwaits
          refine ⟨hquiet, ?_⟩
          simp [System.after, Program.test, hwaits]
      | count hpc => simp only [hpc] at hwaits
      | transfer hpc => simp only [hpc] at hwaits
      | returns ok hpc => exact ⟨hquiet, trivial⟩
      | reset ok hpc => exact ⟨hquiet, rfl⟩
      | signal => exact absurd hallows (System.pending_eq_false hquiet)
  | deliver hpc hnew =>
      simp only [hpc] at hwaits
      rw [hwaits] at hnew
      cases hnew
  | finish hjobs =>
      have hjobs' := (System.eq_zero_of_outstanding hquiet).1
      omega

/-- With `caeco_rdy` set, the next message is transferred. -/
theorem Program.transfers_of_ready (malloc : Malloc) {s : Program} (hpc : s.pc = .idle)
    (hrdy : s.caecoRdy = true) (published : ResponsePublish) (junk : Junk) :
    ∃ t, run (Program.step malloc) s [.publish published junk, .test, .count, .transfer]
        = some t ∧ t.handed = s.handed ++ [t.txBuf] := by
  refine ⟨((s.publish malloc published junk).test.count).transfer, ?_, rfl⟩
  simp [run, Program.step, hpc, Program.publish, Program.test, Program.count, hrdy]

/-- **When no completion is lost**: in a run whose transfers all succeed, wait until no
callback runs, no job is in the accelerator and no signal is pending. `caeco_rdy` is true
then exactly if every signal so far was handled outside the callback's test, transfer and
reset. If one was handled within, the flag stays false for good. -/
theorem caecoRdy_iff_handled_outside (malloc : Malloc) (txBuf : Vector (BitVec 32) 330)
    {es : List Event} {s : System}
    (h : run (System.step malloc) (.init txBuf) es = some s) (hok : ∀ e ∈ es, TransferOk e)
    (hidle : s.program.pc = .idle) (hjobs : s.jobs = 0) (hpending : s.pending = false) :
    s.program.caecoRdy = true ↔
      Meets (System.step malloc) HandledOutside (.init txBuf) es := by
  have hsplit := run_split (fun _ _ _ => served_step)
    (fun _ _ _ hs _ => stalled_of_early hs) (fun _ _ _ hs _ => stalled_step hs)
    (show Served (.init txBuf) from rfl) hok h
  have hquiet := System.outstanding_eq_zero hjobs hpending
  rcases hsplit with ⟨hmeets, hserved⟩ | ⟨hmeets, hstalled⟩
  · refine ⟨fun _ => hmeets, fun _ => ?_⟩
    rw [Served, hquiet, System.expected, hidle] at hserved
    by_contra hrdy
    simp [hrdy] at hserved
  · refine ⟨fun hrdy => ?_, fun hall => absurd hall hmeets⟩
    have hwaits := hstalled.waits
    rw [hidle] at hwaits
    rw [hrdy] at hwaits
    cases hwaits

/-- The signal comes after the reset. -/
theorem caecoRdy_served_message :
    ∃ s, run (System.step fun _ _ => some []) (.init (.replicate 330 0))
        (servedMessage fullMessage) = some s ∧
      (s.program.caecoRdy = true ↔
        Meets (System.step fun _ _ => some []) HandledOutside (.init (.replicate 330 0))
          (servedMessage fullMessage)) :=
  ⟨_, rfl, caecoRdy_iff_handled_outside _ _ rfl (by simp [servedMessage, TransferOk]) rfl rfl
    rfl⟩

/-- The accelerator answers before the transfer call has returned. -/
def earlyAnswer (published : ResponsePublish) : List Event :=
  [.client (.publish published (.replicate 330 0, ⟨0, []⟩)), .client .test, .client .count,
    .client .transfer, .deliver, .finish, .client .signal, .client (.returns true),
    .client .reset]

theorem earlyAnswer_lost :
    ¬ ∀ (malloc : Malloc) (txBuf : Vector (BitVec 32) 330) (es : List Event) (s : System),
      run (System.step malloc) (.init txBuf) es = some s → (∀ e ∈ es, TransferOk e) →
      s.program.pc = .idle → s.jobs = 0 → s.pending = false → s.program.caecoRdy = true := by
  intro h
  have hrdy := h (fun _ _ => some []) (.replicate 330 0) (earlyAnswer fullMessage) _ rfl
    (by simp [earlyAnswer, TransferOk]) rfl rfl rfl
  cases hrdy

end Caeco.Client
