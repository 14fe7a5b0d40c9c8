import Caeco.Client.Gate

/-!
# What a failed transfer leaves behind

`cnt++` comes before the transfer and `caeco_rdy = false` after it, and neither depends on
its result. A failed transfer has started no job, so no signal will set the flag again.
-/

namespace Caeco.Client

open Payload Runs

/-- No transfer has failed so far. -/
structure NoneFailed (s : System) : Prop where
  pc : s.program.pc ≠ .returned false
  cnt : s.program.cnt = BitVec.ofNat 32 (s.program.succeeded +
    if s.program.pc = .counted ∨ s.program.pc = .transferring then 1 else 0)

/-- A transfer has failed: its callback is about to reset the flag, or has done so. -/
structure Failed (s : System) : Prop where
  quiet : s.outstanding = 0
  waits : match s.program.pc with
    | .idle | .filled => s.program.caecoRdy = false
    | .ready | .counted | .transferring => False
    | .returned ok => ok = false
  cnt : s.program.cnt = BitVec.ofNat 32 (s.program.succeeded + 1)

theorem noneFailed_init (txBuf : Vector (BitVec 32) 330) : NoneFailed (.init txBuf) :=
  ⟨by simp [System.init, Program.init], rfl⟩

theorem noneFailed_step {malloc : Malloc} {s s' : System} {e : Event} (hs : NoneFailed s)
    (h : s.step malloc e = some s') (hok : e ≠ .client (.returns false)) : NoneFailed s' := by
  obtain ⟨hreturned, hcnt⟩ := hs
  cases System.steps_of_step h with
  | client a p hallows hp =>
      cases hp with
      | publish published junk hpc =>
          refine ⟨by simp [System.after, Program.publish], ?_⟩
          simpa [System.after, Program.publish, hpc] using hcnt
      | test hpc =>
          by_cases hrdy : s.program.caecoRdy
          · refine ⟨by simp [System.after, Program.test, hrdy], ?_⟩
            simpa [System.after, Program.test, hrdy, hpc] using hcnt
          · refine ⟨by simp [System.after, Program.test, hrdy], ?_⟩
            simpa [System.after, Program.test, hrdy, hpc] using hcnt
      | count hpc =>
          -- `cnt` runs one ahead of the successes until the transfer returns
          refine ⟨by simp [System.after, Program.count], ?_⟩
          simp only [hpc, reduceCtorEq, or_self, if_false, Nat.add_zero] at hcnt
          show s.program.cnt + 1 = BitVec.ofNat 32 (s.program.succeeded + 1)
          rw [hcnt, BitVec.ofNat_add]
          rfl
      | transfer hpc =>
          refine ⟨by simp [System.after, Program.transfer], ?_⟩
          simpa [System.after, Program.transfer, hpc] using hcnt
      | returns ok hpc =>
          cases ok with
          | false => exact absurd rfl hok
          | true =>
              refine ⟨by simp [System.after, Program.returns], ?_⟩
              simpa [System.after, Program.returns, hpc] using hcnt
      | reset ok hpc =>
          refine ⟨by simp [System.after, Program.reset], ?_⟩
          simpa [System.after, Program.reset, hpc] using hcnt
      | signal => exact ⟨hreturned, hcnt⟩
  | deliver hpc hnew => exact ⟨hreturned, hcnt⟩
  | finish hjobs => exact ⟨hreturned, hcnt⟩

theorem failed_of_returns {malloc : Malloc} {s s' : System} (hgate : Gate s)
    (hs : NoneFailed s) (h : s.step malloc (.client (.returns false)) = some s') :
    Failed s' := by
  cases System.steps_of_step h with
  | client a p hallows hp =>
      cases hp with
      | returns ok hpc =>
          have hquiet : s.outstanding = 0 := by
            refine hgate.quiet ?_
            simp only [System.MayStart, hpc]
            exact hallows
          refine ⟨hquiet, rfl, ?_⟩
          simpa [System.after, Program.returns, hpc] using hs.cnt

theorem failed_step {malloc : Malloc} {s s' : System} {e : Event} (hs : Failed s)
    (h : s.step malloc e = some s') : Failed s' := by
  obtain ⟨hquiet, hwaits, hcnt⟩ := hs
  cases System.steps_of_step h with
  | client a p hallows hp =>
      cases hp with
      | publish published junk hpc =>
          simp only [hpc] at hwaits
          exact ⟨hquiet, hwaits, hcnt⟩
      | test hpc =>
          simp only [hpc] at hwaits
          refine ⟨hquiet, ?_, hcnt⟩
          simp [System.after, Program.test, hwaits]
      | count hpc => simp only [hpc] at hwaits
      | transfer hpc => simp only [hpc] at hwaits
      | returns ok hpc => simp only [hpc] at hwaits
      | reset ok hpc => exact ⟨hquiet, rfl, hcnt⟩
      | signal => exact absurd hallows (System.pending_eq_false hquiet)
  | deliver hpc hnew => simp only [hpc] at hwaits
  | finish hjobs =>
      have hjobs' := (System.eq_zero_of_outstanding hquiet).1
      omega

theorem run_failed {malloc : Malloc} {txBuf : Vector (BitVec 32) 330} {es : List Event}
    {s : System} (h : run (System.step malloc) (.init txBuf) es = some s) :
    (.client (.returns false) ∉ es ∧ NoneFailed s) ∨
      (.client (.returns false) ∈ es ∧ Failed s) := by
  have hsplit := run_split (C := fun _ e => e ≠ .client (.returns false))
    (q := fun _ => True) (I := fun s => Gate s ∧ NoneFailed s)
    (fun _ _ _ hs _ h hok => ⟨gate_step hs.1 h, noneFailed_step hs.2 h hok⟩)
    (fun _ _ _ hs _ h hfail => failed_of_returns hs.1 hs.2 (not_not.mp hfail ▸ h))
    (fun _ _ _ hs _ h => failed_step hs h)
    ⟨gate_init txBuf, noneFailed_init txBuf⟩ (fun _ _ => trivial) h
  rcases hsplit with ⟨hmeets, _, hs⟩ | ⟨hmeets, hs⟩
  · refine .inl ⟨fun hmem => ?_, hs⟩
    exact forall_of_meets h hmeets _ hmem rfl
  · refine .inr ⟨?_, hs⟩
    by_contra hmem
    exact hmeets (meets_of_forall fun e he heq => hmem (heq ▸ he))

/-- `caeco_rdy` is true again after every callback of the run whose transfer failed. -/
def Recovers (malloc : Malloc) (txBuf : Vector (BitVec 32) 330) (es : List Event) : Prop :=
  ∀ pre post s s', es = pre ++ .client .reset :: post →
    run (System.step malloc) (.init txBuf) pre = some s → s.program.pc = .returned false →
    s.step malloc (.client .reset) = some s' → s'.program.caecoRdy = true

/-- **When a failure does not stall the program**: between callbacks, the flag was restored
after every failed transfer and `cnt` is the number of transfers that succeeded exactly if
no transfer has failed at all. -/
theorem recovers_iff_none_failed (malloc : Malloc) (txBuf : Vector (BitVec 32) 330)
    {es : List Event} {s : System}
    (h : run (System.step malloc) (.init txBuf) es = some s) (hidle : s.program.pc = .idle) :
    (Recovers malloc txBuf es ∧ s.program.cnt = BitVec.ofNat 32 s.program.succeeded) ↔
      .client (.returns false) ∉ es := by
  constructor
  · rintro ⟨_, hcnt⟩
    rcases run_failed h with ⟨hmem, _⟩ | ⟨_, hfailed⟩
    · exact hmem
    · -- the failed transfer was counted
      have hsame := hfailed.cnt.symm.trans hcnt
      rw [BitVec.ofNat_add] at hsame
      exact absurd (BitVec.add_right_eq_self.mp hsame) (by decide)
  · intro hmem
    have hnone : NoneFailed s := by
      rcases run_failed h with ⟨_, hs⟩ | ⟨hmem', _⟩
      · exact hs
      · exact absurd hmem' hmem
    refine ⟨?_, ?_⟩
    · intro pre post t t' hes hpre hreturned _
      rcases run_failed hpre with ⟨_, ht⟩ | ⟨hpremem, _⟩
      · exact absurd hreturned ht.pc
      · exact absurd (hes ▸ List.mem_append_left _ hpremem) hmem
    · simpa [hidle] using hnone.cnt

theorem recovers_served_message :
    ∃ s, run (System.step fun _ _ => some []) (.init (.replicate 330 0))
        (servedMessage fullMessage) = some s ∧
      ((Recovers (fun _ _ => some []) (.replicate 330 0) (servedMessage fullMessage) ∧
          s.program.cnt = BitVec.ofNat 32 s.program.succeeded) ↔
        .client (.returns false) ∉ servedMessage fullMessage) :=
  ⟨_, rfl, recovers_iff_none_failed _ _ rfl rfl⟩

/-- A callback whose transfer fails. -/
def failedTransfer (published : ResponsePublish) : List Event :=
  [.client (.publish published (.replicate 330 0, ⟨0, []⟩)), .client .test, .client .count,
    .client .transfer, .client (.returns false), .client .reset]

theorem failedTransfer_stalls :
    ¬ ∀ (malloc : Malloc) (txBuf : Vector (BitVec 32) 330) (es : List Event) (s : System),
      run (System.step malloc) (.init txBuf) es = some s → s.program.pc = .idle →
      Recovers malloc txBuf es ∧ s.program.cnt = BitVec.ofNat 32 s.program.succeeded := by
  intro h
  obtain ⟨hrecovers, _⟩ := h (fun _ _ => some []) (.replicate 330 0)
    (failedTransfer fullMessage) _ rfl rfl
  have hrdy := hrecovers ((failedTransfer fullMessage).take 5) [] _ _ rfl rfl rfl rfl
  cases hrdy

end Caeco.Client
