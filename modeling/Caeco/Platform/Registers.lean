import Caeco.Platform.Threads

/-!
# Registers that can answer

Every access to a register needs the window of the device mapped and its clock enabled. The
driver requests the interrupt before it enables the clock, and drops the result of
`caeco_clk_init`; apart from these two, its order of calls is right for any interleaving.
-/

namespace Caeco.Platform

open Calls Runs

/-- Every access so far could be answered. -/
def Answered (s : System) : Prop :=
  ∀ a ∈ s.kernel.accesses, a.mapped = true ∧ a.clocked = true

instance : DecidablePred Answered := fun _ => inferInstanceAs (Decidable (∀ _ ∈ _, _))

/-- The clock calls of a probe succeed, unless the clock is left enabled by earlier probes:
then `devm_clk_get` may fail, and `clk_prepare_enable` too if it was enabled twice. -/
def ClockOk (pdev : Nat) (o : Outcomes) (k : Kernel) : KernelCall → Prop
  | .devmClkGet => o.clkGet = none ∨ pdev ∈ k.enabled
  | .clkPrepareEnable plClk => o.clkPrepareEnable = 0 ∨ 2 ≤ k.held.count (.clkEnable plClk)
  | _ => True

/-- The call that the device makes next. -/
def Thread.nextCall : Thread → Option KernelCall
  | .probing (.call op _) | .removing (.call op _) => some op
  | _ => none

/-- What one step must meet: an interrupt is only handled after `clk_prepare_enable` has
returned 0 for its device. -/
def ClockFirst (s : System) : Action → Prop
  | .call pdev o => ∀ op ∈ (s.threads pdev).nextCall, ClockOk pdev o s.kernel op
  | .interrupt _ pdev _ _ => pdev ∈ s.kernel.enabled
  | _ => True

instance (pdev : Nat) (o : Outcomes) (k : Kernel) : DecidablePred (ClockOk pdev o k)
  | .devmClkGet | .clkPrepareEnable _ => inferInstanceAs (Decidable (_ ∨ _))
  | .platformGetResourceMem | .platformGetResourceIrq | .kmalloc | .load _ | .store ..
  | .devSetDrvdata _ | .devGetDrvdata | .requestMemRegion .. | .ioremap .. | .requestIrq ..
  | .clkDisableUnprepare _ | .iowrite32 .. | .ioread32 .. | .freeIrq .. | .iounmap _
  | .releaseMemRegion .. | .kfree _ => .isTrue trivial

instance (s : System) : DecidablePred (ClockFirst s)
  | .call pdev o =>
      inferInstanceAs (Decidable (∀ op ∈ (s.threads pdev).nextCall, ClockOk pdev o s.kernel op))
  | .interrupt _ pdev _ _ => inferInstanceAs (Decidable (pdev ∈ s.kernel.enabled))
  | .probe _ | .remove _ | .returns _ => .isTrue trivial

/-! ## What is known of a device -/

/-- The clock stays enabled: nothing disables it. -/
def ClockKept (pdev : Nat) (k : Kernel) : Prop :=
  pdev ∈ k.enabled → .clkEnable ⟨pdev⟩ ∈ k.held

/-- The window that `lp` points at is mapped. -/
structure Mapped (pdev : Nat) (lp : Ptr) (k : Kernel) : Prop where
  own : lp.pdev? = some pdev
  ownBase : (k.mem lp).baseAddr.pdev? = some pdev
  mapped : .mapping (k.mem lp).baseAddr ∈ k.held

/-- The handler of any interrupt registered for the device finds its window mapped. -/
structure Handled (pdev : Nat) (k : Kernel) : Prop where
  clock : ClockKept pdev k
  mapped : ∀ irq devId, devId.pdev? = some pdev → .irq irq devId ∈ k.held → Mapped pdev devId k

/-- No interrupt is registered for the device. -/
structure Idle (pdev : Nat) (k : Kernel) : Prop where
  clock : ClockKept pdev k
  noIrq : ∀ irq devId, devId.pdev? = some pdev → .irq irq devId ∉ k.held

/-- The probe has come as far as to store the block. -/
structure Stored (pdev : Nat) (lp : Ptr) (k : Kernel) : Prop extends Idle pdev k where
  own : lp.pdev? = some pdev
  drvdata : k.drvdata pdev = lp

/-- The window is mapped, and at most the interrupt that the block names is registered. -/
structure Ready (pdev : Nat) (lp : Ptr) (k : Kernel) : Prop extends Mapped pdev lp k where
  clock : ClockKept pdev k
  drvdata : k.drvdata pdev = lp
  oneIrq : ∀ irq devId, devId.pdev? = some pdev → k.held.count (.irq irq devId)
    ≤ if irq = (k.mem lp).irq ∧ devId = lp then 1 else 0

/-- What the device can rely on: it follows from what the device sees. -/
structure Assertion (pdev : Nat) (A : Kernel → Prop) : Prop where
  same : ∀ {k k'}, A k → SameView pdev k k' → A k'
  handled : ∀ {k}, A k → Handled pdev k

section

variable {pdev : Nat} {lp : Ptr} {k k' : Kernel}

theorem ClockKept.same (h : ClockKept pdev k) (hsame : SameView pdev k k') :
    ClockKept pdev k' := by
  intro henabled
  rw [hsame.mem_held rfl]
  exact h (hsame.enabled.mp henabled)

theorem Mapped.same (h : Mapped pdev lp k) (hsame : SameView pdev k k') :
    Mapped pdev lp k' := by
  have hmem := hsame.mem lp h.own
  refine ⟨h.own, ?_, ?_⟩
  · rw [hmem]
    exact h.ownBase
  · have hbase : (Resource.mapping (k.mem lp).baseAddr).pdev? = some pdev := h.ownBase
    rw [hmem, hsame.mem_held hbase]
    exact h.mapped

theorem Idle.same (h : Idle pdev k) (hsame : SameView pdev k k') : Idle pdev k' := by
  refine ⟨h.clock.same hsame, ?_⟩
  intro irq devId hown
  have hirq : (Resource.irq irq devId).pdev? = some pdev := hown
  rw [hsame.mem_held hirq]
  exact h.noIrq irq devId hown

theorem Idle.assertion : Assertion pdev (Idle pdev) where
  same := Idle.same
  handled h := ⟨h.clock, fun irq devId hown hirq => absurd hirq (h.noIrq irq devId hown)⟩

theorem Stored.assertion : Assertion pdev (Stored pdev lp) where
  same h hsame := ⟨h.toIdle.same hsame, h.own, hsame.drvdata.trans h.drvdata⟩
  handled h := Idle.assertion.handled h.toIdle

theorem Ready.same (h : Ready pdev lp k) (hsame : SameView pdev k k') : Ready pdev lp k' := by
  refine ⟨h.toMapped.same hsame, h.clock.same hsame, hsame.drvdata.trans h.drvdata, ?_⟩
  intro irq devId hown
  have hirq : (Resource.irq irq devId).pdev? = some pdev := hown
  rw [hsame.held _ hirq, hsame.mem lp h.own]
  exact h.oneIrq irq devId hown

theorem Ready.eq_of_irq (h : Ready pdev lp k) {irq : BitVec 32} {devId : Ptr}
    (hown : devId.pdev? = some pdev) (hirq : .irq irq devId ∈ k.held) :
    irq = (k.mem lp).irq ∧ devId = lp := by
  have hle := h.oneIrq irq devId hown
  have hpos := Multiset.count_pos.mpr hirq
  by_contra hne
  rw [if_neg hne] at hle
  omega

theorem Ready.assertion : Assertion pdev (Ready pdev lp) where
  same := Ready.same
  handled h := by
    refine ⟨h.clock, ?_⟩
    intro irq devId hown hirq
    rw [(h.eq_of_irq hown hirq).2]
    exact h.toMapped

/-- An assertion with the content that was loaded from the device's block. -/
theorem Assertion.loaded {A : Kernel → Prop} (hA : Assertion pdev A)
    (hown : lp.pdev? = some pdev) (l : CaecoLocal) :
    Assertion pdev fun k => A k ∧ k.mem lp = l where
  same h hsame := ⟨hA.same h.1 hsame, (hsame.mem lp hown).trans h.2⟩
  handled h := hA.handled h.1

/-- An assertion with a resource that is held for the device. -/
theorem Assertion.holding {A : Kernel → Prop} (hA : Assertion pdev A) {r : Resource}
    (hr : r.pdev? = some pdev) : Assertion pdev fun k => A k ∧ r ∈ k.held where
  same h hsame := ⟨hA.same h.1 hsame, (hsame.mem_held hr).mpr h.2⟩
  handled h := hA.handled h.1

/-! ### What the device's own calls keep -/

theorem ClockKept.acquire (h : ClockKept pdev k) (r : Resource) :
    ClockKept pdev (k.acquire r) :=
  fun henabled => Multiset.mem_cons_of_mem (h henabled)

theorem ClockKept.release (h : ClockKept pdev k) {r : Resource} (hr : r ≠ .clkEnable ⟨pdev⟩) :
    ClockKept pdev (k.release r) := by
  by_cases hheld : r ∈ k.held
  · rw [Kernel.release, if_pos hheld]
    intro henabled
    exact (Multiset.mem_erase_of_ne hr.symm).mpr (h henabled)
  · rw [Kernel.release, if_neg hheld]
    exact h

theorem Idle.acquire (h : Idle pdev k) {r : Resource} (hr : r.isIrq = false) :
    Idle pdev (k.acquire r) := by
  refine ⟨h.clock.acquire r, ?_⟩
  intro irq devId hown hirq
  rcases Multiset.mem_cons.mp hirq with rfl | hirq
  · cases hr
  · exact h.noIrq irq devId hown hirq

theorem Idle.release (h : Idle pdev k) {r : Resource} (hr : r ≠ .clkEnable ⟨pdev⟩) :
    Idle pdev (k.release r) := by
  refine ⟨h.clock.release hr, ?_⟩
  intro irq devId hown
  by_cases hheld : r ∈ k.held
  · rw [Kernel.release, if_pos hheld]
    intro hirq
    exact h.noIrq irq devId hown (Multiset.mem_of_mem_erase hirq)
  · rw [Kernel.release, if_neg hheld]
    exact h.noIrq irq devId hown

theorem Idle.named (h : Idle pdev k) : Idle pdev (k.named pdev) := ⟨h.clock, h.noIrq⟩

theorem Idle.store (h : Idle pdev k) (l : CaecoLocal) : Idle pdev (k.store lp l) :=
  ⟨h.clock, h.noIrq⟩

theorem Idle.setDrvdata (h : Idle pdev k) (p : Ptr) : Idle pdev (k.setDrvdata pdev p) :=
  ⟨h.clock, h.noIrq⟩

theorem Stored.acquire (h : Stored pdev lp k) {r : Resource} (hr : r.isIrq = false) :
    Stored pdev lp (k.acquire r) :=
  ⟨h.toIdle.acquire hr, h.own, h.drvdata⟩

theorem Stored.store (h : Stored pdev lp k) (l : CaecoLocal) : Stored pdev lp (k.store lp l) :=
  ⟨h.toIdle.store l, h.own, h.drvdata⟩

theorem Stored.named (h : Stored pdev lp k) : Stored pdev lp (k.named pdev) :=
  ⟨h.toIdle.named, h.own, h.drvdata⟩

end

/-! ## The programs -/

/-- The device's call is good if it keeps to the device, and finds the registers that it
touches ready. -/
structure Good (pdev : Nat) (op : KernelCall) (k : Kernel) : Prop where
  own : op.Own pdev
  ready : ∀ base ∈ op.register?, base.pdev? = some pdev ∧ .mapping base ∈ k.held ∧
    .clkEnable ⟨pdev⟩ ∈ k.held

/-- How a device shares the kernel with the others. -/
def sharing (pdev : Nat) : Sharing KernelCall KernelCall.Answer Kernel Outcomes where
  handle o := perform pdev o
  rely := SameView pdev
  inv := Handled pdev
  good := Good pdev
  allowed o op k := ClockOk pdev o k op

section

variable {pdev : Nat} {lp : Ptr} {k : Kernel} {A : Kernel → Prop} {α : Type}
  {Post : α → Kernel → Prop}

theorem Assertion.guarded_pure (hA : Assertion pdev A) (hk : A k) {a : α}
    (hpost : ∀ k, A k → Post a k) : (Pure.pure a : Code α).Guarded (sharing pdev) Post k := by
  intro k' hsame
  have hk' := hA.same hk hsame
  exact ⟨hA.handled hk', hpost k' hk'⟩

/-- A call that touches no register. -/
theorem Assertion.guarded_call (hA : Assertion pdev A) {op : KernelCall}
    {f : op.Answer → Code α} (hk : A k) (hplain : op.register? = none ∧ op.Own pdev)
    (hf : ∀ o k, A k → ClockOk pdev o k op →
      (f (perform pdev o op k).1).Guarded (sharing pdev) Post (perform pdev o op k).2) :
    (call op >>= f).Guarded (sharing pdev) Post k := by
  apply Guarded.invoke hA.same hk
  intro k hk
  refine ⟨hA.handled hk, ⟨hplain.2, ?_⟩, fun o ho => hf o k hk ho⟩
  intro base hbase
  rw [hplain.1] at hbase
  cases hbase

/-- A load from the device's block. -/
theorem Assertion.guarded_load (hA : Assertion pdev A) {f : CaecoLocal → Code α} (hk : A k)
    (hf : ∀ k, A k → (f (k.mem lp)).Guarded (sharing pdev) Post k) :
    (call (.load lp) >>= f).Guarded (sharing pdev) Post k := by
  apply hA.guarded_call hk
  · exact ⟨rfl, trivial⟩
  · intro o k hk _
    exact hf k hk

/-! ### The unwinding ladder -/

section

variable {rc : Int} {Post : Int → Kernel → Prop}

theorem guarded_error1 (hown : lp.pdev? = some pdev) (hpost : ∀ k, Idle pdev k → Post rc k)
    (hk : Idle pdev k) : (error1 lp rc).Guarded (sharing pdev) Post k := by
  apply Idle.assertion.guarded_call hk
  · exact ⟨rfl, hown⟩
  intro o k hk _
  have hfree : Idle pdev (k.release (.block lp)) := hk.release (by simp)
  apply Idle.assertion.guarded_call hfree
  · exact ⟨rfl, trivial⟩
  intro o k hk _
  exact Idle.assertion.guarded_pure (hk.setDrvdata .null) hpost

theorem guarded_error2 (hown : lp.pdev? = some pdev) (hpost : ∀ k, Idle pdev k → Post rc k)
    (hk : Idle pdev k) : (error2 lp rc).Guarded (sharing pdev) Post k := by
  apply Idle.assertion.guarded_load hk
  intro k hk
  apply Idle.assertion.guarded_call hk
  · exact ⟨rfl, trivial⟩
  intro o k hk _
  exact guarded_error1 hown hpost (hk.release (by simp))

theorem guarded_error3 (hown : lp.pdev? = some pdev) (hpost : ∀ k, Idle pdev k → Post rc k)
    (hk : Idle pdev k) : (error3 lp rc).Guarded (sharing pdev) Post k := by
  apply Idle.assertion.guarded_load hk
  intro k hk
  apply Idle.assertion.guarded_call hk
  · exact ⟨rfl, hown⟩
  intro o k hk _
  exact guarded_error2 hown hpost (hk.release (by simp))

end

/-! ### The probe -/

/-- The window is mapped, and no interrupt is registered yet. -/
structure Windowed (pdev : Nat) (lp : Ptr) (k : Kernel) : Prop
    extends Stored pdev lp k, Mapped pdev lp k

theorem Windowed.assertion : Assertion pdev (Windowed pdev lp) where
  same h hsame := ⟨Stored.assertion.same h.toStored hsame, (h.toMapped.same hsame).ownBase,
    (h.toMapped.same hsame).mapped⟩
  handled h := Stored.assertion.handled h.toStored

theorem Windowed.ready (h : Windowed pdev lp k) : Ready pdev lp k := by
  refine ⟨h.toMapped, h.clock, h.drvdata, ?_⟩
  intro irq devId hown
  rw [Multiset.count_eq_zero_of_notMem (h.noIrq irq devId hown)]
  exact Nat.zero_le _

/-- After `request_irq` has succeeded. -/
theorem Windowed.acquire_irq (h : Windowed pdev lp k) :
    Ready pdev lp (k.acquire (.irq (k.mem lp).irq lp)) := by
  refine ⟨⟨h.own, h.ownBase, Multiset.mem_cons_of_mem h.mapped⟩, h.clock.acquire _, h.drvdata, ?_⟩
  intro irq devId hown
  show (Resource.irq (k.mem lp).irq lp ::ₘ k.held).count (.irq irq devId)
    ≤ if irq = (k.mem lp).irq ∧ devId = lp then 1 else 0
  rw [Multiset.count_cons, Multiset.count_eq_zero_of_notMem (h.noIrq irq devId hown)]
  by_cases heq : irq = (k.mem lp).irq ∧ devId = lp
  · obtain ⟨rfl, rfl⟩ := heq
    simp
  · rw [if_neg heq, if_neg]
    intro heq'
    cases heq'
    exact heq ⟨rfl, rfl⟩

theorem Windowed.store_irq (h : Windowed pdev lp k) (irq : BitVec 32) :
    Windowed pdev lp (k.store lp { k.mem lp with irq }) := by
  have hmem : (k.store lp { k.mem lp with irq }).mem lp = { k.mem lp with irq } :=
    Function.update_self ..
  refine ⟨h.toStored.store _, ?_, ?_⟩
  · rw [hmem]
    exact h.ownBase
  · rw [hmem]
    exact h.mapped

/-- After `lp->base_addr` has been set to a mapped window. -/
theorem Stored.store_base (h : Stored pdev lp k) {base : Ptr}
    (hbase : base.pdev? = some pdev) (hmapped : .mapping base ∈ k.held) :
    Windowed pdev lp (k.store lp { k.mem lp with baseAddr := base }) := by
  have hmem : (k.store lp { k.mem lp with baseAddr := base }).mem lp
      = { k.mem lp with baseAddr := base } := Function.update_self ..
  refine ⟨h.store _, ?_, ?_⟩
  · rw [hmem]
    exact hbase
  · rw [hmem]
    exact hmapped

/-- The window is mapped and the clock is enabled. -/
structure Clocked (pdev : Nat) (lp : Ptr) (k : Kernel) : Prop extends Ready pdev lp k where
  clocked : .clkEnable ⟨pdev⟩ ∈ k.held

theorem Clocked.assertion : Assertion pdev (Clocked pdev lp) where
  same h hsame := ⟨h.toReady.same hsame, (hsame.mem_held rfl).mpr h.clocked⟩
  handled h := Ready.assertion.handled h.toReady

theorem Ready.enable (h : Ready pdev lp k) :
    Clocked pdev lp
      { k.acquire (.clkEnable ⟨pdev⟩) with enabled := k.enabled ++ [pdev] } := by
  refine ⟨⟨⟨h.own, h.ownBase, Multiset.mem_cons_of_mem h.mapped⟩, ?_, h.drvdata, ?_⟩, ?_⟩
  · intro _
    exact Multiset.mem_cons_self _ _
  · intro irq devId hown
    show (Resource.clkEnable ⟨pdev⟩ ::ₘ k.held).count (.irq irq devId)
      ≤ if irq = (k.mem lp).irq ∧ devId = lp then 1 else 0
    have hne : Resource.irq irq devId ≠ .clkEnable ⟨pdev⟩ := by simp
    rw [Multiset.count_cons_of_ne hne]
    exact h.oneIrq irq devId hown
  · exact Multiset.mem_cons_self _ _

/-- A disable that leaves the clock enabled. -/
theorem Ready.disable (h : Ready pdev lp k)
    (htwice : 2 ≤ k.held.count (.clkEnable ⟨pdev⟩)) :
    Clocked pdev lp (k.release (.clkEnable ⟨pdev⟩)) := by
  have hheld : .clkEnable ⟨pdev⟩ ∈ k.held := Multiset.count_pos.mp (by omega)
  have hclocked : .clkEnable ⟨pdev⟩ ∈ k.held.erase (.clkEnable ⟨pdev⟩) := by
    rw [← Multiset.count_pos, Multiset.count_erase_self]
    omega
  rw [Kernel.release, if_pos hheld]
  refine ⟨⟨⟨h.own, h.ownBase, ?_⟩, fun _ => hclocked, h.drvdata, ?_⟩, hclocked⟩
  · have hne : Resource.mapping (k.mem lp).baseAddr ≠ .clkEnable ⟨pdev⟩ := by simp
    exact (Multiset.mem_erase_of_ne hne).mpr h.mapped
  · intro irq devId hown
    have hne : Resource.irq irq devId ≠ .clkEnable ⟨pdev⟩ := by simp
    show (k.held.erase (.clkEnable ⟨pdev⟩)).count (.irq irq devId)
      ≤ if irq = (k.mem lp).irq ∧ devId = lp then 1 else 0
    rw [Multiset.count_erase_of_ne hne]
    exact h.oneIrq irq devId hown

theorem Ready.twice : Assertion pdev fun k =>
    Ready pdev lp k ∧ 2 ≤ k.held.count (.clkEnable ⟨pdev⟩) where
  same h hsame := ⟨h.1.same hsame, (hsame.held (.clkEnable ⟨pdev⟩) rfl).symm ▸ h.2⟩
  handled h := Ready.assertion.handled h.1

/-- What a probe leaves the device in. -/
def Probed (pdev : Nat) (rc : Int) (k : Kernel) : Prop :=
  if rc = 0 then ∃ lp, Ready pdev lp k else Idle pdev k

theorem probed_failed {rc : Int} (hrc : rc ≠ 0) (k : Kernel) (hk : Idle pdev k) :
    Probed pdev rc k := by
  rw [Probed, if_neg hrc]
  exact hk

theorem guarded_caecoClkInit (c : Clk) (hk : Ready pdev lp k) :
    (caecoClkInit c).Guarded (sharing pdev) (fun _ => Clocked pdev lp) k := by
  apply Ready.assertion.guarded_call hk
  · exact ⟨rfl, trivial⟩
  intro o k hk hok
  cases hget : o.clkGet with
  | some err =>
      rw [perform_devmClkGet_err hget]
      have henabled : pdev ∈ k.enabled := by
        rcases hok with hnone | henabled
        · rw [hget] at hnone
          cases hnone
        · exact henabled
      have hclocked : Clocked pdev lp k := ⟨hk, hk.clock henabled⟩
      exact Clocked.assertion.guarded_pure hclocked fun _ hk => hk
  | none =>
      rw [perform_devmClkGet hget]
      apply Ready.assertion.guarded_call hk
      · exact ⟨rfl, rfl⟩
      intro o k hk hok
      by_cases hrc : o.clkPrepareEnable = 0
      · rw [perform_clkPrepareEnable hrc, if_neg (fun h => h rfl)]
        exact Clocked.assertion.guarded_pure hk.enable fun _ hk => hk
      · rw [perform_clkPrepareEnable_failed hrc, if_pos hrc]
        have htwice : 2 ≤ k.held.count (.clkEnable ⟨pdev⟩) := hok.resolve_left hrc
        apply Ready.twice.guarded_call ⟨hk, htwice⟩
        · exact ⟨rfl, rfl⟩
        rintro o k ⟨hk, htwice⟩ _
        exact Clocked.assertion.guarded_pure (hk.disable htwice) fun _ hk => hk

/-- The command register is written while the window is mapped and the clock enabled. -/
theorem guarded_caecoStart (hk : Clocked pdev lp k) :
    (caecoStart lp).Guarded (sharing pdev) (fun _ => Clocked pdev lp) k := by
  apply Clocked.assertion.guarded_load hk
  intro k₁ hk₁
  have hA : Assertion pdev fun k => Clocked pdev lp k ∧ k.mem lp = k₁.mem lp :=
    Clocked.assertion.loaded hk₁.own _
  show (call (.iowrite32 0x1 (k₁.mem lp).baseAddr caecoIpCmd) >>= Pure.pure).Guarded _ _ k₁
  apply Guarded.invoke hA.same ⟨hk₁, rfl⟩
  rintro k ⟨hk, hmem⟩
  refine ⟨hA.handled ⟨hk, hmem⟩, ⟨trivial, ?_⟩, ?_⟩
  · intro base hbase
    cases hbase
    rw [← hmem]
    exact ⟨hk.ownBase, hk.mapped, hk.clocked⟩
  · intro o _
    have haccess : Clocked pdev lp (k.access pdev (k₁.mem lp).baseAddr) :=
      ⟨⟨⟨hk.own, hk.ownBase, hk.mapped⟩, hk.clock, hk.drvdata, hk.oneIrq⟩, hk.clocked⟩
    exact Clocked.assertion.guarded_pure haccess fun _ hk => hk

theorem guarded_probeStart (hk : Ready pdev lp k) :
    (probeStart lp).Guarded (sharing pdev) (Probed pdev) k := by
  apply Ready.assertion.guarded_load hk
  intro k hk
  apply Guarded.bind (SameView.refl pdev) ?_ (guarded_caecoClkInit _ hk)
  intro rc k hk
  apply Guarded.bind (SameView.refl pdev) ?_ (guarded_caecoStart hk)
  intro _ k hk
  apply Clocked.assertion.guarded_pure hk
  intro k hk
  exact ⟨lp, hk.toReady⟩

theorem guarded_probeIrq (hk : Windowed pdev lp k) :
    (probeIrq lp).Guarded (sharing pdev) (Probed pdev) k := by
  apply Windowed.assertion.guarded_call hk
  · exact ⟨rfl, trivial⟩
  intro o k hk _
  rw [perform_platformGetResourceIrq]
  cases o.irq with
  | none =>
      apply Windowed.assertion.guarded_pure hk
      intro k hk
      exact ⟨lp, hk.ready⟩
  | some start =>
      apply Windowed.assertion.guarded_call hk
      · exact ⟨rfl, hk.own⟩
      intro o k hk _
      have hstored : Windowed pdev lp (k.store lp { k.mem lp with irq := start }) :=
        hk.store_irq start
      apply Windowed.assertion.guarded_load hstored
      intro k₁ hk₁
      apply (Windowed.assertion.loaded hk₁.own (k₁.mem lp)).guarded_call ⟨hk₁, rfl⟩
      · exact ⟨rfl, hk₁.own⟩
      rintro o k ⟨hk, hmem⟩ _
      rw [← hmem]
      by_cases hrc : o.requestIrq = 0
      · rw [perform_requestIrq hrc, if_neg (fun h => h rfl)]
        exact guarded_probeStart hk.acquire_irq
      · rw [perform_requestIrq_failed hrc, if_pos hrc]
        exact guarded_error3 hk.own (probed_failed hrc) hk.toIdle

theorem guarded_probeMemory {rMem : MemResource} (hown : lp.pdev? = some pdev)
    (hk : Idle pdev k) :
    (probeMemory rMem lp).Guarded (sharing pdev) (Probed pdev) k := by
  apply Idle.assertion.guarded_call hk
  · exact ⟨rfl, trivial⟩
  intro o k hk _
  have hdrvdata : Stored pdev lp (k.setDrvdata pdev lp) :=
    ⟨hk.setDrvdata lp, hown, Function.update_self ..⟩
  apply Stored.assertion.guarded_call hdrvdata
  · exact ⟨rfl, hown⟩
  intro o k hk _
  apply Stored.assertion.guarded_call (hk.store _)
  · exact ⟨rfl, hown⟩
  intro o k hk _
  apply Stored.assertion.guarded_load (hk.store _)
  intro k hk
  apply Stored.assertion.guarded_call hk
  · exact ⟨rfl, trivial⟩
  intro o k hk _
  by_cases hgranted : o.memRegion = true
  · rw [perform_requestMemRegion hgranted]
    apply Stored.assertion.guarded_load (hk.acquire rfl)
    intro k hk
    apply Stored.assertion.guarded_call hk
    · exact ⟨rfl, trivial⟩
    intro o k hk _
    by_cases hmapped : o.ioremap = true
    · rw [perform_ioremap hmapped]
      have hbase : (Resource.mapping (k.fresh pdev)).pdev? = some pdev := rfl
      have hioremap : Stored pdev lp ((k.named pdev).acquire (.mapping (k.fresh pdev))) :=
        hk.named.acquire rfl
      apply (Stored.assertion.holding hbase).guarded_call
        ⟨hioremap, Multiset.mem_cons_self _ _⟩
      · exact ⟨rfl, hown⟩
      rintro o k' ⟨hk, hheld⟩ _
      rw [if_neg (Kernel.fresh_ne_null pdev _)]
      exact guarded_probeIrq (hk.store_base hbase hheld)
    · rw [perform_ioremap_null hmapped]
      apply Stored.assertion.guarded_call hk
      · exact ⟨rfl, hown⟩
      intro o k hk _
      exact guarded_error2 hown (probed_failed (by decide)) (hk.toIdle.store _)
  · rw [perform_requestMemRegion_busy hgranted]
    exact guarded_error1 hown (probed_failed (by decide)) hk.toIdle

theorem guarded_caecoProbe (hk : Idle pdev k) :
    caecoProbe.Guarded (sharing pdev) (Probed pdev) k := by
  apply Idle.assertion.guarded_call hk
  · exact ⟨rfl, trivial⟩
  intro o k hk _
  rw [perform_platformGetResourceMem]
  cases o.mem with
  | none => exact Idle.assertion.guarded_pure hk (probed_failed (by decide))
  | some rMem =>
      apply Idle.assertion.guarded_call hk
      · exact ⟨rfl, trivial⟩
      intro o k hk _
      cases hcontent : o.content with
      | none =>
          rw [perform_kmalloc_null hcontent, if_pos rfl]
          exact Idle.assertion.guarded_pure hk (probed_failed (by decide))
      | some l =>
          rw [perform_kmalloc hcontent, if_neg (Kernel.fresh_ne_null pdev _)]
          have hblock : Idle pdev (((k.named pdev).store (k.fresh pdev) l).acquire
              (.block (k.fresh pdev))) := (hk.named.store l).acquire rfl
          exact guarded_probeMemory rfl hblock

/-! ### The remove -/

/-- After `free_irq`, no interrupt of the device is registered any more. -/
theorem Ready.release_irq (h : Ready pdev lp k) :
    Windowed pdev lp (k.release (.irq (k.mem lp).irq lp)) := by
  have hone := h.oneIrq (k.mem lp).irq lp h.own
  rw [if_pos ⟨rfl, rfl⟩] at hone
  by_cases hheld : .irq (k.mem lp).irq lp ∈ k.held
  · rw [Kernel.release, if_pos hheld]
    have hother {r : Resource} (hr : r.isIrq = false) (hmem : r ∈ k.held) :
        r ∈ k.held.erase (.irq (k.mem lp).irq lp) := by
      refine (Multiset.mem_erase_of_ne ?_).mpr hmem
      rintro rfl
      cases hr
    refine ⟨⟨⟨?_, ?_⟩, h.own, h.drvdata⟩, h.ownBase, hother rfl h.mapped⟩
    · exact fun henabled => hother rfl (h.clock henabled)
    intro irq devId hown hirq
    obtain ⟨rfl, rfl⟩ := h.eq_of_irq hown (Multiset.mem_of_mem_erase hirq)
    have hpos := Multiset.count_pos.mpr hirq
    rw [Multiset.count_erase_self] at hpos
    omega
  · rw [Kernel.release, if_neg hheld]
    refine ⟨⟨⟨h.clock, ?_⟩, h.own, h.drvdata⟩, h.ownBase, h.mapped⟩
    intro irq devId hown hirq
    obtain ⟨rfl, rfl⟩ := h.eq_of_irq hown hirq
    exact hheld hirq

theorem guarded_caecoRemove (hk : Ready pdev lp k) :
    caecoRemove.Guarded (sharing pdev) (fun _ => Idle pdev) k := by
  apply Ready.assertion.guarded_call hk
  · exact ⟨rfl, trivial⟩
  intro o k hk _
  have hanswer : perform pdev o .devGetDrvdata k = (lp, k) := by
    rw [perform, hk.drvdata]
  rw [hanswer]
  apply Ready.assertion.guarded_load hk
  intro k₁ hk₁
  apply (Ready.assertion.loaded hk₁.own (k₁.mem lp)).guarded_call ⟨hk₁, rfl⟩
  · exact ⟨rfl, hk₁.own⟩
  rintro o k ⟨hk, hmem⟩ _
  rw [← hmem]
  apply Windowed.assertion.guarded_load hk.release_irq
  intro k hk
  apply Windowed.assertion.guarded_call hk
  · exact ⟨rfl, hk.ownBase⟩
  intro o k hk _
  -- the rest is what the ladder does from `error2` on
  apply guarded_error2 hk.own
  · exact fun _ hk => hk
  · exact hk.release (by simp)

end

/-! ## Runs -/

/-- A call that touches no register makes no access. -/
theorem accesses_perform {op : KernelCall} (hplain : op.register? = none) (pdev : Nat)
    (o : Outcomes) (k : Kernel) : (perform pdev o op k).2.accesses = k.accesses := by
  have heffect := effect_perform pdev o op k
  generalize (perform pdev o op k).2 = k' at heffect ⊢
  cases heffect with
  | release _ r hreleased => exact k.release_accesses r
  | access _ base hregister =>
      rw [hplain] at hregister
      cases hregister
  | _ => rfl

theorem answered_access {k : Kernel} {pdev : Nat} {base : Ptr}
    (h : ∀ a ∈ k.accesses, a.mapped = true ∧ a.clocked = true)
    (hbase : base.pdev? = some pdev) (hmapped : .mapping base ∈ k.held)
    (hclocked : .clkEnable ⟨pdev⟩ ∈ k.held) :
    ∀ a ∈ (k.access pdev base).accesses, a.mapped = true ∧ a.clocked = true := by
  intro a ha
  rcases List.mem_append.mp ha with ha | ha
  · exact h a ha
  · rw [List.mem_singleton.mp ha]
    exact ⟨decide_eq_true ⟨hbase, hmapped⟩, decide_eq_true hclocked⟩

/-- A good call can be answered. -/
theorem Good.answered {op : KernelCall} {pdev : Nat} {k : Kernel} (hgood : Good pdev op k)
    (h : ∀ a ∈ k.accesses, a.mapped = true ∧ a.clocked = true) (o : Outcomes) :
    ∀ a ∈ (perform pdev o op k).2.accesses, a.mapped = true ∧ a.clocked = true := by
  cases hregister : op.register? with
  | none =>
      rw [accesses_perform hregister]
      exact h
  | some base =>
      obtain ⟨hbase, hmapped, hclocked⟩ := hgood.ready base hregister
      have haccess := answered_access h hbase hmapped hclocked
      cases op <;> cases hregister <;> exact haccess

/-- What holds of a device between two steps. -/
def ThreadOk (pdev : Nat) (k : Kernel) : Thread → Prop
  | .unbound => Idle pdev k
  | .probing rest => rest.Guarded (sharing pdev) (Probed pdev) k
  | .bound => ∃ lp, Ready pdev lp k
  | .removing rest => rest.Guarded (sharing pdev) (fun _ => Idle pdev) k

/-- The invariant over all interleavings: each access has been to a window that is mapped, and
each device can rely on what it has set up. -/
structure System.Ok (s : System) : Prop where
  answered : Answered s
  threads : ∀ pdev, ThreadOk pdev s.kernel (s.threads pdev)

theorem ThreadOk.same {pdev : Nat} {k k' : Kernel} {t : Thread} (h : ThreadOk pdev k t)
    (hsame : SameView pdev k k') : ThreadOk pdev k' t := by
  cases t with
  | unbound => exact Idle.assertion.same h hsame
  | probing rest => exact Guarded.rely SameView.trans h hsame
  | bound =>
      obtain ⟨lp, hready⟩ := h
      exact ⟨lp, hready.same hsame⟩
  | removing rest => exact Guarded.rely SameView.trans h hsame

theorem ThreadOk.handled {pdev : Nat} {k : Kernel} {t : Thread} (h : ThreadOk pdev k t) :
    Handled pdev k := by
  cases t with
  | unbound => exact Idle.assertion.handled h
  | probing rest => exact Guarded.inv (SameView.refl pdev) h
  | bound =>
      obtain ⟨lp, hready⟩ := h
      exact Ready.assertion.handled hready
  | removing rest => exact Guarded.inv (SameView.refl pdev) h

/-- Only one device moves, and the others see no change. -/
theorem System.Ok.update {s : System} (hs : s.Ok) {k : Kernel} {pdev : Nat} {t : Thread}
    (hanswered : ∀ a ∈ k.accesses, a.mapped = true ∧ a.clocked = true)
    (ht : ThreadOk pdev k t) (hsame : ∀ d, d ≠ pdev → SameView d s.kernel k) :
    (System.mk k (Function.update s.threads pdev t)).Ok := by
  refine ⟨hanswered, ?_⟩
  intro d
  show ThreadOk d k (Function.update s.threads pdev t d)
  by_cases hd : d = pdev
  · subst hd
    rw [Function.update_self]
    exact ht
  · rw [Function.update_of_ne hd]
    exact (hs.threads d).same (hsame d hd)

theorem System.Ok.setThread {s : System} (hs : s.Ok) {pdev : Nat} {t : Thread}
    (ht : ThreadOk pdev s.kernel t) : (s.setThread pdev t).Ok :=
  hs.update hs.answered ht fun d _ => .refl d s.kernel

/-- One device makes a good call. -/
theorem System.Ok.perform {s : System} (hs : s.Ok) {pdev : Nat} {o : Outcomes}
    {op : KernelCall} {next : op.Answer → Thread} (hgood : Good pdev op s.kernel)
    (hnext : ThreadOk pdev (Platform.perform pdev o op s.kernel).2
      (next (Platform.perform pdev o op s.kernel).1)) :
    (s.perform pdev o op next).Ok :=
  hs.update (hgood.answered hs.answered o) hnext fun _ hd => sameView_perform hgood.own hd o

theorem ok_step {s s' : System} {a : Action} (hs : s.Ok) (hfirst : ClockFirst s a)
    (h : s.step a = some s') : s'.Ok := by
  cases System.steps_of_step h with
  | probe pdev ht =>
      have hidle := hs.threads pdev
      rw [ht] at hidle
      exact hs.setThread (guarded_caecoProbe hidle)
  | remove pdev ht =>
      have hbound := hs.threads pdev
      rw [ht] at hbound
      obtain ⟨lp, hready⟩ := hbound
      exact hs.setThread (guarded_caecoRemove hready)
  | callProbing pdev o op next ht =>
      have hguarded := hs.threads pdev
      rw [ht] at hguarded
      obtain ⟨_, hgood, hnext⟩ := hguarded s.kernel (.refl pdev s.kernel)
      apply hs.perform hgood
      apply hnext o
      exact hfirst op (by rw [ht]; rfl)
  | callRemoving pdev o op next ht =>
      have hguarded := hs.threads pdev
      rw [ht] at hguarded
      obtain ⟨_, hgood, hnext⟩ := hguarded s.kernel (.refl pdev s.kernel)
      apply hs.perform hgood
      apply hnext o
      exact hfirst op (by rw [ht]; rfl)
  | probed pdev rc ht =>
      have hguarded := hs.threads pdev
      rw [ht] at hguarded
      have hprobed : Probed pdev rc s.kernel := (hguarded s.kernel (.refl pdev s.kernel)).2
      apply hs.setThread
      by_cases hrc : rc = 0
      · rw [Probed, if_pos hrc] at hprobed
        rw [if_pos hrc]
        exact hprobed
      · rw [Probed, if_neg hrc] at hprobed
        rw [if_neg hrc]
        exact hprobed
  | removed pdev rc ht =>
      have hguarded := hs.threads pdev
      rw [ht] at hguarded
      have hidle : Idle pdev s.kernel := (hguarded s.kernel (.refl pdev s.kernel)).2
      exact hs.setThread hidle
  | interrupt irq pdev n o hirq =>
      have hhandled := (hs.threads pdev).handled
      have hmapped := hhandled.mapped irq (.made pdev n) rfl hirq
      refine ⟨?_, ?_⟩
      · exact answered_access hs.answered hmapped.ownBase hmapped.mapped
          (hhandled.clock hfirst)
      · intro d
        exact (hs.threads d).same (.access _)

/-- **When the registers can answer**: in every interleaving of probes, removes and
interrupts in which no clock call fails that an earlier probe does not make up for, and no
interrupt is handled before `clk_prepare_enable` has returned 0 for its device, every
register is touched while the window of its device is mapped and the clock enabled. -/
theorem registers_answer (mem : Ptr → CaecoLocal) {as : List Action} {s : System}
    (h : run System.step (.init mem) as = some s)
    (hfirst : Meets System.step ClockFirst (.init mem) as) : Answered s := by
  have hinit : (System.init mem).Ok := by
    refine ⟨?_, ?_⟩
    · intro a ha
      cases ha
    · intro pdev
      refine ⟨?_, ?_⟩
      · intro henabled
        cases henabled
      · intro irq devId _ hirq
        exact absurd hirq (Multiset.notMem_zero _)
  exact (run_invariant_of_meets (fun _ _ _ => ok_step) hinit hfirst h).answered

/-- A probe with an interrupt behind the last call of it, where everything succeeds. -/
def quietProbe : List Action :=
  .probe 0 :: List.replicate 19 (.call 0 allSucceed) ++ [.returns 0, .interrupt 121 0 0 allSucceed]

theorem registers_answer_quietProbe :
    ∃ s, run System.step (.init fun _ => ⟨0, 0, 0, .null, ⟨0⟩⟩) quietProbe = some s ∧
      s.kernel.accesses.length = 2 ∧ Answered s := by
  have hfirst : Meets System.step ClockFirst (.init fun _ => ⟨0, 0, 0, .null, ⟨0⟩⟩)
      quietProbe := by decide
  exact ⟨_, rfl, rfl, registers_answer _ rfl hfirst⟩

/-- The interrupt comes as soon as it is registered: the clock is not enabled yet. -/
theorem interrupt_before_clock :
    ∃ s, run System.step (.init fun _ => ⟨0, 0, 0, .null, ⟨0⟩⟩)
        (.probe 0 :: List.replicate 14 (.call 0 allSucceed) ++ [.interrupt 121 0 0 allSucceed])
          = some s ∧
      s.kernel.accesses = [⟨true, false⟩] ∧ ¬ Answered s :=
  ⟨_, rfl, rfl, by decide⟩

end Caeco.Platform
