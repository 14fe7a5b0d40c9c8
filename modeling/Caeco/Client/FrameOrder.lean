import Caeco.Client.Program

/-!
# Which frames are transferred

Signals may come at any point here and transfers may fail. What is fixed is the client
thread: it overwrites the buffer with each message, tests, and hands the buffer over before
it looks at the next message.
-/

namespace Caeco.Client

open Payload Runs

/-- All lookups of the fill succeed, and so does `malloc`. -/
def FillsWell (malloc : Malloc) (s : Program) : Action → Prop
  | .publish published _ =>
      (frameValues malloc s.heap.calls published.applicationMessage).length = 330
  | _ => True

/-- The frame parsed from a message. -/
def parse (malloc : Malloc) (t : Tested) : List (BitVec 32) :=
  frameValues malloc t.calls t.message

/-- The frames of the messages whose callback saw `caeco_rdy` true, in order. -/
def Program.kept (malloc : Malloc) (s : Program) : List (List (BitVec 32)) :=
  (s.tested.filter (·.ready)).map (parse malloc)

/-- The frame of a callback that has passed its test and not called the transfer yet. -/
def Program.awaiting (s : Program) : List (List (BitVec 32)) :=
  if s.pc = .ready ∨ s.pc = .counted then [s.txBuf] else []

/-- The messages that have arrived: the tested ones, and the one just filled in. -/
def Program.arrived (s : Program) : List (List UInt8) :=
  s.tested.map (·.message) ++ if s.pc = .filled then [s.message] else []

/-- The message that an action brings in, for the callback to parse. -/
def Action.message : Action → Option (List UInt8)
  | .publish published _ => some published.applicationMessage
  | _ => none

/-! ## The fill -/

/-- A fill whose lookups succeed replaces the whole buffer by the message's values. -/
theorem filledWith_eq {malloc : Malloc} {published : ResponsePublish} (junk : Junk)
    {s : Program} (hlen : s.txBuf.length = 330)
    (h : (frameValues malloc s.heap.calls published.applicationMessage).length = 330) :
    (filledWith malloc published junk s).1
      = frameValues malloc s.heap.calls published.applicationMessage := by
  obtain ⟨_, hbuf, hok⟩ := fillFrame_spec malloc published s.txBuf s.heap
  obtain ⟨f, hf⟩ := hok.mpr h
  have hwhole := storeAll_eq (frameValues malloc s.heap.calls published.applicationMessage)
    s.txBuf 0 (by omega)
  rw [hf] at hbuf
  rw [filledWith, hf]
  show f.txBuffer = _
  rw [show f.txBuffer = _ from hbuf, hwhole, List.take_zero, List.nil_append]
  simp [hlen, h]

/-! ## What every step keeps -/

/-- The invariant. `current` is what makes a handed buffer the frame of the very message
being handled. -/
structure InOrder (malloc : Malloc) (s : Program) : Prop where
  length : s.txBuf.length = 330
  current : s.pc ≠ .idle → s.txBuf = frameValues malloc s.calls s.message
  order : s.kept malloc = s.handed ++ s.awaiting
  whole : ∀ frame ∈ s.handed, frame.length = 330
  cnt : s.cnt = BitVec.ofNat 32 (s.handed.length + if s.pc = .counted then 1 else 0)

theorem inOrder_init (malloc : Malloc) (txBuf : Vector (BitVec 32) 330) :
    InOrder malloc (.init txBuf) where
  length := txBuf.size_toArray
  current := fun h => absurd rfl h
  order := rfl
  whole := fun _ h => by cases h
  cnt := rfl

theorem kept_test (malloc : Malloc) (s : Program) :
    s.test.kept malloc = s.kept malloc ++
      if s.caecoRdy then [frameValues malloc s.calls s.message] else [] := by
  by_cases h : s.caecoRdy
  · simp [Program.kept, Program.test, h, parse]
  · simp [Program.kept, Program.test, h]

theorem inOrder_step {malloc : Malloc} {s s' : Program} {a : Action}
    (hs : InOrder malloc s) (hfill : FillsWell malloc s a) (h : s.step malloc a = some s') :
    InOrder malloc s' := by
  cases Program.steps_of_step h with
  | publish published junk hpc =>
      have hbuf := filledWith_eq junk hs.length hfill
      have hnone : s.awaiting = [] := by simp [Program.awaiting, hpc]
      refine ⟨?_, fun _ => hbuf, ?_, hs.whole, ?_⟩
      · show (filledWith malloc published junk s).1.length = 330
        rw [hbuf]
        exact hfill
      · have horder := hs.order
        rw [hnone] at horder
        exact horder
      · simpa [Program.publish, hpc] using hs.cnt
  | test hpc =>
      have hcurrent := hs.current (by simp [hpc])
      have horder := hs.order
      rw [show s.awaiting = [] by simp [Program.awaiting, hpc], List.append_nil] at horder
      refine ⟨hs.length, fun _ => hcurrent, ?_, hs.whole, ?_⟩
      · -- the frame joins `kept` and `awaiting` together, or neither
        rw [kept_test, horder]
        show s.handed ++ _ = s.handed ++ s.test.awaiting
        by_cases hrdy : s.caecoRdy
        · simp [Program.awaiting, Program.test, hrdy, hcurrent]
        · simp [Program.awaiting, Program.test, hrdy]
      · have hcnt := hs.cnt
        by_cases hrdy : s.caecoRdy
        · simpa [Program.test, hrdy, hpc] using hcnt
        · simpa [Program.test, hrdy, hpc] using hcnt
  | count hpc =>
      have hcurrent := hs.current (by simp [hpc])
      have horder := hs.order
      rw [show s.awaiting = [s.txBuf] by simp [Program.awaiting, hpc]] at horder
      refine ⟨hs.length, fun _ => hcurrent, horder, hs.whole, ?_⟩
      have hcnt := hs.cnt
      simp only [hpc, reduceCtorEq, if_false, Nat.add_zero] at hcnt
      show s.cnt + 1 = BitVec.ofNat 32 (s.handed.length + 1)
      rw [hcnt, BitVec.ofNat_add]
      rfl
  | transfer hpc =>
      have hcurrent := hs.current (by simp [hpc])
      have horder := hs.order
      rw [show s.awaiting = [s.txBuf] by simp [Program.awaiting, hpc]] at horder
      refine ⟨hs.length, fun _ => hcurrent, ?_, ?_, ?_⟩
      · -- what was awaiting is handed over
        show s.kept malloc = (s.handed ++ [s.txBuf]) ++ []
        rw [horder, List.append_nil]
      · intro frame hframe
        rcases List.mem_append.mp hframe with hframe | hframe
        · exact hs.whole frame hframe
        · rw [List.mem_singleton.mp hframe]
          exact hs.length
      · simpa [Program.transfer, hpc] using hs.cnt
  | returns ok hpc =>
      have hcurrent := hs.current (by simp [hpc])
      have horder := hs.order
      rw [show s.awaiting = [] by simp [Program.awaiting, hpc]] at horder
      refine ⟨hs.length, fun _ => hcurrent, horder, hs.whole, ?_⟩
      simpa [Program.returns, hpc] using hs.cnt
  | reset ok hpc =>
      have horder := hs.order
      rw [show s.awaiting = [] by simp [Program.awaiting, hpc]] at horder
      refine ⟨hs.length, fun h => absurd rfl h, horder, hs.whole, ?_⟩
      simpa [Program.reset, hpc] using hs.cnt
  | signal => exact ⟨hs.length, hs.current, hs.order, hs.whole, hs.cnt⟩

/-- A step lets a message arrive exactly if it publishes one. -/
theorem arrived_step {malloc : Malloc} {s s' : Program} {a : Action}
    (h : s.step malloc a = some s') : s'.arrived = s.arrived ++ a.message.toList := by
  cases Program.steps_of_step h with
  | publish published junk hpc =>
      simp [Program.arrived, Program.publish, Action.message, hpc]
  | test hpc =>
      by_cases hrdy : s.caecoRdy
      · simp [Program.arrived, Program.test, Action.message, hpc, hrdy]
      · simp [Program.arrived, Program.test, Action.message, hpc, hrdy]
  | count hpc => simp [Program.arrived, Program.count, Action.message, hpc]
  | transfer hpc => simp [Program.arrived, Program.transfer, Action.message, hpc]
  | returns ok hpc => simp [Program.arrived, Program.returns, Action.message, hpc]
  | reset ok hpc => simp [Program.arrived, Program.reset, Action.message, hpc]
  | signal => exact (List.append_nil _).symm

theorem arrived_run {malloc : Malloc} {as : List Action} :
    ∀ {s t : Program}, run (Program.step malloc) s as = some t →
      t.arrived = s.arrived ++ as.filterMap Action.message := by
  induction as with
  | nil =>
      intro s t h
      cases h
      simp
  | cons a as ih =>
      intro s t h
      obtain ⟨s', hs', h⟩ := run_cons_eq_some.mp h
      rw [ih h, arrived_step hs']
      cases ha : a.message with
      | none => simp [ha]
      | some message => simp [ha]

/-! ## The transferred frames -/

/-- **Whole, in order and at most once**: whenever signals come, the buffers handed to the
transfer are the frames of exactly the messages that were tested while `caeco_rdy` was set,
in the order in which the messages arrived, and `cnt` counts them. -/
theorem frames_in_order (malloc : Malloc) (txBuf : Vector (BitVec 32) 330)
    {as : List Action} {s : Program}
    (h : run (Program.step malloc) (.init txBuf) as = some s)
    (hfill : Meets (Program.step malloc) (FillsWell malloc) (.init txBuf) as) :
    s.arrived = as.filterMap Action.message ∧
      (s.tested.filter (·.ready)).map (parse malloc) = s.handed ++ s.awaiting ∧
      (∀ frame ∈ s.handed, frame.length = 330) ∧
      (s.pc = .idle → s.awaiting = []) ∧
      (s.pc ≠ .counted → s.handed.length < 2 ^ 31 → s.cnt.toInt = s.handed.length) := by
  have hinv : InOrder malloc s :=
    run_invariant_of_meets (fun _ _ _ => inOrder_step) (inOrder_init malloc txBuf) hfill h
  refine ⟨arrived_run h, hinv.order, hinv.whole, fun hpc => ?_, fun hpc hlt => ?_⟩
  · simp [Program.awaiting, hpc]
  · have hcnt := hinv.cnt
    rw [if_neg hpc, Nat.add_zero] at hcnt
    rw [hcnt, BitVec.toInt_eq_toNat_of_lt (by rw [BitVec.toNat_ofNat]; omega),
      BitVec.toNat_ofNat, Nat.mod_eq_of_lt (by omega)]

/-- The actions of one callback that transfers the message. -/
def transferActions (published : ResponsePublish) : List Action :=
  [.publish published (.replicate 330 0, ⟨0, []⟩), .test, .count, .transfer, .returns true,
    .reset]

/-- The lookups of a full message succeed, whatever the state. -/
theorem fillsWell_fullMessage (s : Program) :
    Meets (Program.step fun _ _ => some []) (FillsWell fun _ _ => some []) s
      (transferActions fullMessage) := by
  intro s hs
  refine ⟨?_, fun _ _ => ⟨trivial, fun _ _ => ⟨trivial, fun _ _ => ⟨trivial, fun _ _ =>
    ⟨trivial, fun _ _ => ⟨trivial, trivial⟩⟩⟩⟩⟩⟩
  exact frameValues_prepend_fullFrame List.not_mem_nil (fun _ _ => ⟨[], rfl⟩) _

/-- The same message with a blank in front. -/
def laterMessage : ResponsePublish :=
  { fullMessage with
    applicationMessage := 0x20 :: fullFrame, applicationMessageSize := fullFrame.length + 1 }

/-- A message is transferred; one that comes before the answer is passed over; one that comes
after it is transferred. -/
def passedOver : List Action :=
  transferActions fullMessage ++
    [.publish laterMessage (.replicate 330 0, ⟨0, []⟩), .test, .signal] ++
    transferActions fullMessage

theorem fillsWell_passedOver (s : Program) :
    Meets (Program.step fun _ _ => some []) (FillsWell fun _ _ => some []) s passedOver := by
  have hfull : ∀ calls, (frameValues (fun _ _ => some []) calls fullFrame).length = 330 :=
    fun calls => frameValues_prepend_fullFrame List.not_mem_nil (fun _ _ => ⟨[], rfl⟩) calls
  have hlater : ∀ calls, (frameValues (fun _ _ => some []) calls (0x20 :: fullFrame)).length = 330 :=
    fun calls => frameValues_prepend_fullFrame (m := [0x20]) (by decide) (fun _ _ => ⟨[], rfl⟩) calls
  refine (meets_of_forall (p := fun a => ∀ s, FillsWell (fun _ _ => some []) s a) ?_).mono
    fun s a h => h s
  simp only [passedOver, transferActions, List.cons_append, List.nil_append,
    List.forall_mem_cons]
  exact ⟨fun _ => hfull _, fun _ => trivial, fun _ => trivial, fun _ => trivial, fun _ => trivial,
    fun _ => trivial, fun _ => hlater _, fun _ => trivial, fun _ => trivial, fun _ => hfull _,
    fun _ => trivial, fun _ => trivial, fun _ => trivial, fun _ => trivial, fun _ => trivial,
    List.forall_mem_nil _⟩

theorem frames_in_order_passed_over :
    ∃ s, run (Program.step fun _ _ => some []) (.init (.replicate 330 0)) passedOver = some s ∧
      s.tested.map (·.ready) = [true, false, true] ∧ s.handed.length = 2 ∧
      s.arrived = [fullFrame, 0x20 :: fullFrame, fullFrame] ∧
      (s.tested.filter (·.ready)).map (parse fun _ _ => some []) = s.handed ++ s.awaiting := by
  obtain ⟨harrived, horder, _⟩ := frames_in_order (fun _ _ => some []) (.replicate 330 0) rfl
    (fillsWell_passedOver _)
  exact ⟨_, rfl, rfl, rfl, harrived, horder⟩

end Caeco.Client
