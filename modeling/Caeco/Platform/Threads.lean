import Caeco.Kit.Runs
import Caeco.Platform.Probe

/-!
# Devices at the same time

The probes and removes of any number of devices, call by call in any order, and `caeco_irq`
between any two calls while its interrupt is registered. The handler runs in one step: it
makes one access, and `free_irq` waits until it has returned.
-/

namespace Caeco.Platform

open Calls Runs

/-- Where a device is. -/
inductive Thread where
  | unbound
  | probing (rest : Code Int)
  | bound
  | removing (rest : Code Int)

/-- The kernel, and for each device how far its probe or its remove has come. -/
structure System where
  kernel : Kernel
  threads : Nat → Thread

/-- No device is bound. -/
def System.init (mem : Ptr → CaecoLocal) : System where
  kernel := .init mem
  threads _ := .unbound

/-- A device is bound or unbound by the platform, call by call, with the outcome of each call left
open; and an interrupt arrives. -/
inductive Action where
  | probe (pdev : Nat)
  | remove (pdev : Nat)
  | call (pdev : Nat) (o : Outcomes)
  | returns (pdev : Nat)
  | interrupt (irq : BitVec 32) (pdev n : Nat) (o : Outcomes)
deriving DecidableEq

def System.setThread (pdev : Nat) (t : Thread) (s : System) : System :=
  { s with threads := Function.update s.threads pdev t }

/-- The device makes its next call. -/
def System.perform (pdev : Nat) (o : Outcomes) (op : KernelCall)
    (next : op.Answer → Thread) (s : System) : System :=
  { kernel := (Platform.perform pdev o op s.kernel).2
    threads := Function.update s.threads pdev
      (next (Platform.perform pdev o op s.kernel).1) }

/-- The handler of the interrupt registered with the block `devId`. -/
def Kernel.interrupt (pdev : Nat) (devId : Ptr) (o : Outcomes) (k : Kernel) : Kernel :=
  (exec (perform pdev o) (caecoIrq devId) k).2

/-- A device makes its next call, or returns when there is none left. An interrupt runs the
handler if it is registered. Nothing is assumed about the order. -/
def System.step (s : System) : Action → Option System
  | .probe pdev =>
      match s.threads pdev with
      | .unbound => some (s.setThread pdev (.probing caecoProbe))
      | _ => none
  | .remove pdev =>
      match s.threads pdev with
      | .bound => some (s.setThread pdev (.removing caecoRemove))
      | _ => none
  | .call pdev o =>
      match s.threads pdev with
      | .probing (.call op next) => some (s.perform pdev o op fun ans => .probing (next ans))
      | .removing (.call op next) => some (s.perform pdev o op fun ans => .removing (next ans))
      | _ => none
  | .returns pdev =>
      match s.threads pdev with
      | .probing (.pure rc) => some (s.setThread pdev (if rc = 0 then .bound else .unbound))
      | .removing (.pure _) => some (s.setThread pdev .unbound)
      | _ => none
  | .interrupt irq pdev n o =>
      if .irq irq (.made pdev n) ∈ s.kernel.held then
        some { s with kernel := s.kernel.interrupt pdev (.made pdev n) o }
      else none

/-- What a step can do. -/
inductive System.Steps (s : System) : Action → System → Prop where
  | probe (pdev : Nat) (ht : s.threads pdev = .unbound) :
      Steps s (.probe pdev) (s.setThread pdev (.probing caecoProbe))
  | remove (pdev : Nat) (ht : s.threads pdev = .bound) :
      Steps s (.remove pdev) (s.setThread pdev (.removing caecoRemove))
  | callProbing (pdev : Nat) (o : Outcomes) (op : KernelCall) (next : op.Answer → Code Int)
      (ht : s.threads pdev = .probing (.call op next)) :
      Steps s (.call pdev o) (s.perform pdev o op fun ans => .probing (next ans))
  | callRemoving (pdev : Nat) (o : Outcomes) (op : KernelCall) (next : op.Answer → Code Int)
      (ht : s.threads pdev = .removing (.call op next)) :
      Steps s (.call pdev o) (s.perform pdev o op fun ans => .removing (next ans))
  | probed (pdev : Nat) (rc : Int) (ht : s.threads pdev = .probing (.pure rc)) :
      Steps s (.returns pdev) (s.setThread pdev (if rc = 0 then .bound else .unbound))
  | removed (pdev : Nat) (rc : Int) (ht : s.threads pdev = .removing (.pure rc)) :
      Steps s (.returns pdev) (s.setThread pdev .unbound)
  | interrupt (irq : BitVec 32) (pdev n : Nat) (o : Outcomes)
      (hirq : .irq irq (.made pdev n) ∈ s.kernel.held) :
      Steps s (.interrupt irq pdev n o)
        { s with kernel := s.kernel.interrupt pdev (.made pdev n) o }

theorem System.steps_of_step {s s' : System} {a : Action} (h : s.step a = some s') :
    s.Steps a s' := by
  cases a with
  | probe pdev =>
      cases ht : s.threads pdev <;> simp only [System.step, ht] at h <;> cases h
      exact .probe pdev ht
  | remove pdev =>
      cases ht : s.threads pdev <;> simp only [System.step, ht] at h <;> cases h
      exact .remove pdev ht
  | call pdev o =>
      cases ht : s.threads pdev with
      | unbound => simp only [System.step, ht] at h; cases h
      | bound => simp only [System.step, ht] at h; cases h
      | probing rest =>
          cases rest with
          | pure rc => simp only [System.step, ht] at h; cases h
          | call op next =>
              simp only [System.step, ht] at h
              cases h
              exact .callProbing pdev o op next ht
      | removing rest =>
          cases rest with
          | pure rc => simp only [System.step, ht] at h; cases h
          | call op next =>
              simp only [System.step, ht] at h
              cases h
              exact .callRemoving pdev o op next ht
  | returns pdev =>
      cases ht : s.threads pdev with
      | unbound => simp only [System.step, ht] at h; cases h
      | bound => simp only [System.step, ht] at h; cases h
      | probing rest =>
          cases rest with
          | call op next => simp only [System.step, ht] at h; cases h
          | pure rc =>
              simp only [System.step, ht] at h
              cases h
              exact .probed pdev rc ht
      | removing rest =>
          cases rest with
          | call op next => simp only [System.step, ht] at h; cases h
          | pure rc =>
              simp only [System.step, ht] at h
              cases h
              exact .removed pdev rc ht
  | interrupt irq pdev n o =>
      rw [System.step] at h
      by_cases hirq : .irq irq (.made pdev n) ∈ s.kernel.held
      · rw [if_pos hirq] at h
        cases h
        exact .interrupt irq pdev n o hirq
      · rw [if_neg hirq] at h
        cases h

/-- While no one else moves, the calls of a device add up to its program run alone. -/
theorem System.run_alone {pdev : Nat} {o : Outcomes} {wrap : Code Int → Thread}
    (hwrap : wrap = .probing ∨ wrap = .removing) (p : Code Int) :
    ∀ s : System, s.threads pdev = wrap p →
      ∃ n, run System.step s (List.replicate n (.call pdev o)) = some
        { kernel := (exec (Platform.perform pdev o) p s.kernel).2
          threads := Function.update s.threads pdev
            (wrap (.pure (exec (Platform.perform pdev o) p s.kernel).1)) } := by
  induction p with
  | pure rc =>
      intro s ht
      refine ⟨0, ?_⟩
      have hsame : Function.update s.threads pdev (wrap (.pure rc)) = s.threads := by
        rw [← ht, Function.update_eq_self]
      exact congrArg (fun threads => some { s with threads }) hsame.symm
  | call op next ih =>
      intro s ht
      have hstep : s.step (.call pdev o)
          = some (s.perform pdev o op fun ans => wrap (next ans)) := by
        rcases hwrap with rfl | rfl <;> simp only [System.step, ht]
      obtain ⟨n, hrun⟩ := ih (Platform.perform pdev o op s.kernel).1
        (s.perform pdev o op fun ans => wrap (next ans)) (Function.update_self ..)
      refine ⟨n + 1, run_cons_eq_some.mpr ⟨_, hstep, hrun.trans ?_⟩⟩
      simp [System.perform, exec]

/-! ## What a device sees -/

/-- The kernel has not changed for the device. -/
structure SameView (pdev : Nat) (k k' : Kernel) : Prop where
  mem : ∀ p, p.pdev? = some pdev → k'.mem p = k.mem p
  drvdata : k'.drvdata pdev = k.drvdata pdev
  held : ∀ r, r.pdev? = some pdev → k'.held.count r = k.held.count r
  enabled : pdev ∈ k'.enabled ↔ pdev ∈ k.enabled

theorem SameView.refl (pdev : Nat) (k : Kernel) : SameView pdev k k where
  mem _ _ := rfl
  drvdata := rfl
  held _ _ := rfl
  enabled := Iff.rfl

theorem SameView.trans {pdev : Nat} {k k' k'' : Kernel} (h : SameView pdev k k')
    (h' : SameView pdev k' k'') : SameView pdev k k'' where
  mem p hp := (h'.mem p hp).trans (h.mem p hp)
  drvdata := h'.drvdata.trans h.drvdata
  held r hr := (h'.held r hr).trans (h.held r hr)
  enabled := h'.enabled.trans h.enabled

theorem SameView.mem_held {pdev : Nat} {k k' : Kernel} (h : SameView pdev k k') {r : Resource}
    (hr : r.pdev? = some pdev) : r ∈ k'.held ↔ r ∈ k.held := by
  rw [← Multiset.count_pos, ← Multiset.count_pos, h.held r hr]

/-- The names that the call changes something about are the device's. -/
def KernelCall.Own (pdev : Nat) : KernelCall → Prop
  | store lp _ | kfree lp => lp.pdev? = some pdev
  | requestIrq _ devId | freeIrq _ devId => devId.pdev? = some pdev
  | iounmap base => base.pdev? = some pdev
  | clkPrepareEnable plClk | clkDisableUnprepare plClk => plClk.pdev = pdev
  | _ => True

section

variable {pdev d : Nat} {k : Kernel}

theorem SameView.acquire {r : Resource} (h : r.pdev? ≠ some d) :
    SameView d k (k.acquire r) where
  mem _ _ := rfl
  drvdata := rfl
  held r' hr' := by
    have hne : r' ≠ r := by
      rintro rfl
      exact h hr'
    exact Multiset.count_cons_of_ne hne k.held
  enabled := Iff.rfl

theorem SameView.release {r : Resource} (h : r.pdev? ≠ some d) :
    SameView d k (k.release r) := by
  by_cases hr : r ∈ k.held
  · rw [Kernel.release, if_pos hr]
    refine ⟨fun _ _ => rfl, rfl, ?_, Iff.rfl⟩
    intro r' hr'
    have hne : r' ≠ r := by
      rintro rfl
      exact h hr'
    exact Multiset.count_erase_of_ne hne k.held
  · rw [Kernel.release, if_neg hr]
    exact ⟨fun _ _ => rfl, rfl, fun _ _ => rfl, Iff.rfl⟩

theorem SameView.store {lp : Ptr} (l : CaecoLocal) (h : lp.pdev? ≠ some d) :
    SameView d k (k.store lp l) where
  mem p hp := by
    have hne : p ≠ lp := by
      rintro rfl
      exact h hp
    exact Function.update_of_ne hne l k.mem
  drvdata := rfl
  held _ _ := rfl
  enabled := Iff.rfl

theorem SameView.setDrvdata (lp : Ptr) (h : d ≠ pdev) :
    SameView d k (k.setDrvdata pdev lp) where
  mem _ _ := rfl
  drvdata := by
    show Function.update k.drvdata pdev lp d = k.drvdata d
    exact Function.update_of_ne h _ _
  held _ _ := rfl
  enabled := Iff.rfl

theorem SameView.enable (plClk : Clk) (h : d ≠ plClk.pdev) :
    SameView d k { k.acquire (.clkEnable plClk) with enabled := k.enabled ++ [plClk.pdev] } where
  mem _ _ := rfl
  drvdata := rfl
  held := by
    have hother : (Resource.clkEnable plClk).pdev? ≠ some d := by
      simpa [Resource.pdev?] using h.symm
    exact (SameView.acquire (k := k) hother).held
  enabled := by
    show d ∈ k.enabled ++ [plClk.pdev] ↔ d ∈ k.enabled
    simp [h]

theorem SameView.named : SameView d k (k.named pdev) :=
  ⟨fun _ _ => rfl, rfl, fun _ _ => rfl, Iff.rfl⟩

theorem SameView.access (base : Ptr) : SameView d k (k.access pdev base) :=
  ⟨fun _ _ => rfl, rfl, fun _ _ => rfl, Iff.rfl⟩

/-- What a device releases is its own, or a region, which no device owns. -/
theorem KernelCall.Own.released {op : KernelCall} (hown : op.Own pdev) {r : Resource}
    (h : op.released? = some r) : r.pdev? = some pdev ∨ r.pdev? = none := by
  cases op with
  | clkDisableUnprepare plClk =>
      cases h
      exact .inl (congrArg some hown)
  | freeIrq irq devId => cases h; exact .inl hown
  | iounmap base => cases h; exact .inl hown
  | kfree lp => cases h; exact .inl hown
  | releaseMemRegion start size => cases h; exact .inr rfl
  | _ => cases h

/-- **A call changes nothing for the other devices.** -/
theorem sameView_perform {op : KernelCall} (hown : op.Own pdev) (hne : d ≠ pdev)
    (o : Outcomes) : SameView d k (perform pdev o op k).2 := by
  have hother {p : Option Nat} (hp : p = some pdev) : p ≠ some d := by
    rw [hp]
    simpa using hne.symm
  have heffect := effect_perform pdev o op k
  generalize (perform pdev o op k).2 = k' at heffect ⊢
  cases heffect with
  | same => exact .refl d k
  | kmalloc l =>
      have hfresh : (k.fresh pdev).pdev? ≠ some d := hother rfl
      have hblock : (Resource.block (k.fresh pdev)).pdev? ≠ some d := hfresh
      exact (SameView.named.trans (.store l hfresh)).trans (.acquire hblock)
  | store lp f => exact .store _ (hother hown)
  | devSetDrvdata lp => exact .setDrvdata lp hne
  | requestMemRegion start size => exact .acquire (Option.some_ne_none d).symm
  | ioremap start size =>
      have hmapping : (Resource.mapping (k.fresh pdev)).pdev? ≠ some d := hother rfl
      exact SameView.named.trans (.acquire hmapping)
  | requestIrq irq devId =>
      have hirq : (Resource.irq irq devId).pdev? ≠ some d := hother hown
      exact .acquire hirq
  | clkPrepareEnable plClk =>
      have hpdev : plClk.pdev = pdev := hown
      exact .enable plClk (hpdev ▸ hne)
  | release _ r hreleased =>
      rcases hown.released hreleased with hr | hr
      · exact .release (hother hr)
      · exact .release (hr ▸ (Option.some_ne_none d).symm)
  | access _ base hregister => exact .access base

end

end Caeco.Platform
