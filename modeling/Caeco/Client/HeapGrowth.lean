import Mathlib.Data.Finset.Card
import Caeco.Client.FrameOrder

/-!
# The heap over many messages

`extract_val` hands out a block for every value, and `fill_tx_buffer` drops the pointer once
`atoi` has read it. Nothing in the program frees a block, so each message leaves 330 behind.
-/

namespace Caeco.Payload

open Search CInt

/-- The live blocks. -/
def Heap.live (h : Heap) : Finset Nat := (h.blocks.map Block.id).toFinset

/-- An assignment that comes through leaves a new block behind. -/
theorem assign_live {malloc : Malloc} {key : List UInt8} {s s' : State} {u : Unit}
    (h : (assign malloc key).run s = .ok u s') :
    s'.heap.calls = s.heap.calls + 1 ∧
      s'.heap.live = insert s.heap.calls s.heap.live := by
  obtain ⟨text, token, rest, bytes, _, _, rfl⟩ := assign_ok h
  refine ⟨rfl, ?_⟩
  simp only [Heap.live, State.assigned, List.map_cons, List.toFinset_cons]

theorem assigns_live {malloc : Malloc} :
    ∀ (ks : List (List UInt8)) {s s' : State} {u : Unit},
      (assigns malloc ks).run s = .ok u s' → s.heap.live = Finset.range s.heap.calls →
        s'.heap.calls = s.heap.calls + ks.length ∧
          s'.heap.live = Finset.range s'.heap.calls := by
  intro ks
  induction ks with
  | nil =>
      intro s s' u h hlive
      cases h
      exact ⟨rfl, hlive⟩
  | cons key rest ih =>
      intro s s' u h hlive
      obtain ⟨s₁, hrun, h⟩ := exists_of_assigns_cons h
      obtain ⟨hcalls, hnew⟩ := assign_live hrun
      have hlive₁ : s₁.heap.live = Finset.range s₁.heap.calls := by
        rw [hnew, hcalls, hlive, Finset.range_add_one]
      obtain ⟨hcalls', hlive'⟩ := ih h hlive₁
      refine ⟨?_, hlive'⟩
      rw [hcalls', hcalls, List.length_cons]
      omega

end Caeco.Payload

namespace Caeco.Client

open Payload Runs

/-- The messages published by some actions. -/
def messages (as : List Action) : Nat := (as.filterMap Action.message).length

theorem messages_append (as bs : List Action) :
    messages (as ++ bs) = messages as + messages bs := by
  simp [messages]

theorem messages_cons (a : Action) (as : List Action) :
    messages (a :: as) = messages [a] + messages as :=
  messages_append [a] as

/-- The blocks that are live are the ones handed out so far, and a message brings 330. -/
theorem live_step {malloc : Malloc} {s s' : Program} {a : Action}
    (hlive : s.heap.live = Finset.range s.heap.calls) (hfill : FillsWell malloc s a)
    (h : s.step malloc a = some s') :
    s'.heap.calls = s.heap.calls + 330 * messages [a] ∧
      s'.heap.live = Finset.range s'.heap.calls := by
  cases Program.steps_of_step h with
  | publish published junk hpc =>
      obtain ⟨_, _, hok⟩ := fillFrame_spec malloc published s.txBuf s.heap
      obtain ⟨f, hf⟩ := hok.mpr hfill
      have hheap : (s.publish malloc published junk).heap = f.heap := by
        simp only [Program.publish, filledWith, hf]
      rw [fillFrame, fillTxBuffer_unrolled] at hf
      obtain ⟨hcalls, hrange⟩ := assigns_live _ hf hlive
      rw [hheap]
      refine ⟨?_, hrange⟩
      rw [hcalls]
      exact congrArg (s.heap.calls + ·) length_frameKeys
  | test hpc => exact ⟨rfl, hlive⟩
  | count hpc => exact ⟨rfl, hlive⟩
  | transfer hpc => exact ⟨rfl, hlive⟩
  | returns ok hpc => exact ⟨rfl, hlive⟩
  | reset ok hpc => exact ⟨rfl, hlive⟩
  | signal => exact ⟨rfl, hlive⟩

theorem live_run {malloc : Malloc} {as : List Action} :
    ∀ {s t : Program}, s.heap.live = Finset.range s.heap.calls →
      Meets (Program.step malloc) (FillsWell malloc) s as →
      run (Program.step malloc) s as = some t →
        t.heap.calls = s.heap.calls + 330 * messages as ∧
          t.heap.live = Finset.range t.heap.calls := by
  induction as with
  | nil =>
      intro s t hlive _ h
      cases h
      exact ⟨rfl, hlive⟩
  | cons a as ih =>
      intro s t hlive hmeets h
      obtain ⟨s', hs', h⟩ := run_cons_eq_some.mp h
      obtain ⟨hfill, hmeets⟩ := hmeets s' hs'
      obtain ⟨hcalls, hlive'⟩ := live_step hlive hfill hs'
      obtain ⟨hcallst, hlivet⟩ := ih hlive' hmeets h
      refine ⟨?_, hlivet⟩
      rw [hcallst, hcalls, messages_cons a as]
      omega

/-! ## What a callback leaves behind -/

/-- The actions of one callback, with signals in between; it has returned when the client
thread is idle after them. -/
def IsCallback : List Action → Prop
  | .publish _ _ :: rest => messages rest = 0
  | _ => False

/-- Each callback of the run that returns leaves the live blocks as they were. -/
def CallbacksKeepLive (malloc : Malloc) (s : Program) (as : List Action) : Prop :=
  ∀ before callback behind s₁ s₂, as = before ++ callback ++ behind → IsCallback callback →
    run (Program.step malloc) s before = some s₁ →
    run (Program.step malloc) s₁ callback = some s₂ → s₂.pc = .idle →
      s₂.heap.live = s₁.heap.live

theorem IsCallback.messages_eq {callback : List Action} (h : IsCallback callback) :
    messages callback = 1 := by
  cases callback with
  | nil => cases h
  | cons a rest =>
      cases a with
      | publish published junk =>
          rw [messages_cons, show messages rest = 0 from h]
          rfl
      | _ => cases h

/-- The actions from the last message on. -/
theorem exists_last_callback :
    ∀ as : List Action, messages as ≠ 0 →
      ∃ before callback, as = before ++ callback ∧ IsCallback callback := by
  intro as
  induction as with
  | nil => intro h; exact absurd rfl h
  | cons a as ih =>
      intro h
      by_cases hlater : messages as = 0
      · cases a with
        | publish published junk => exact ⟨[], _, rfl, hlater⟩
        | _ => exact absurd hlater h
      · obtain ⟨before, callback, rfl, hcallback⟩ := ih hlater
        exact ⟨a :: before, callback, rfl, hcallback⟩

/-- **The heap grows by 330 blocks per message**: in a run whose lookups all succeed the live
blocks are kept over the callbacks exactly if there are none, and at its end there are 330
of them for each message. -/
theorem callbacks_keep_live_iff (malloc : Malloc) (txBuf : Vector (BitVec 32) 330)
    {as : List Action} {s : Program}
    (h : run (Program.step malloc) (.init txBuf) as = some s)
    (hfill : Meets (Program.step malloc) (FillsWell malloc) (.init txBuf) as)
    (hidle : s.pc = .idle) :
    (CallbacksKeepLive malloc (.init txBuf) as ↔ messages as = 0) ∧
      s.heap.live.card = 330 * messages as := by
  have hinit : (Program.init txBuf).heap.live = Finset.range (Program.init txBuf).heap.calls :=
    rfl
  constructor
  · constructor
    · intro hkeep
      by_contra hmessage
      obtain ⟨before, callback, rfl, hcallback⟩ := exists_last_callback as hmessage
      obtain ⟨s₁, hbefore, hrun⟩ := run_append_eq_some.mp h
      obtain ⟨hfill₁, hfill₂⟩ := hfill.append hbefore
      obtain ⟨_, hlive₁⟩ := live_run hinit hfill₁ hbefore
      obtain ⟨hcalls, hlive₂⟩ := live_run hlive₁ hfill₂ hrun
      have hsame := hkeep before callback [] s₁ s (by simp) hcallback hbefore hrun hidle
      rw [hlive₁, hlive₂] at hsame
      have hcard := congrArg Finset.card hsame
      rw [Finset.card_range, Finset.card_range, hcalls, hcallback.messages_eq] at hcard
      omega
    · intro hnone before callback behind s₁ s₂ has hcallback _ _ _
      have hone := hcallback.messages_eq
      rw [has, messages_append, messages_append] at hnone
      omega
  · obtain ⟨hcalls, hlive⟩ := live_run hinit hfill h
    rw [hlive, Finset.card_range, hcalls]
    exact Nat.zero_add _

/-- One message of 330 values, up to the end of its callback. -/
theorem run_fullMessage :
    ∃ s, run (Program.step fun _ _ => some []) (.init (.replicate 330 0))
        (transferActions fullMessage) = some s ∧ s.pc = .idle :=
  ⟨_, rfl, rfl⟩

theorem callbacks_keep_live_iff_one_message :
    ∃ s, run (Program.step fun _ _ => some []) (.init (.replicate 330 0))
        (transferActions fullMessage) = some s ∧ s.heap.live.card = 330 := by
  obtain ⟨s, hs, hidle⟩ := run_fullMessage
  obtain ⟨_, hcard⟩ := callbacks_keep_live_iff _ _ hs (fillsWell_fullMessage _) hidle
  exact ⟨s, hs, hcard⟩

/-- After one message there are 330 blocks more than before it. -/
theorem full_message_leaks :
    ¬ ∀ (malloc : Malloc) (txBuf : Vector (BitVec 32) 330) (as : List Action),
        Meets (Program.step malloc) (FillsWell malloc) (.init txBuf) as →
          CallbacksKeepLive malloc (.init txBuf) as := by
  intro h
  have hfill := fillsWell_fullMessage (.init (.replicate 330 0))
  have hkeep := h (fun _ _ => some []) (.replicate 330 0) (transferActions fullMessage) hfill
  obtain ⟨s, hs, hidle⟩ := run_fullMessage
  obtain ⟨hcalls, hlive⟩ := live_run rfl hfill hs
  have hsame := hkeep [] (transferActions fullMessage) [] _ s rfl rfl rfl hs hidle
  rw [hlive, hcalls] at hsame
  have hmem : 0 ∈ (Program.init (.replicate 330 0)).heap.live := by
    rw [← hsame]
    exact Finset.mem_range.mpr (by decide)
  cases hmem

end Caeco.Client
