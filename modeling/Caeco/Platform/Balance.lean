import Mathlib.Algebra.BigOperators.Group.List.Basic
import Caeco.Kit.Runs
import Caeco.Platform.Unwinding

/-!
# The balance of the driver's resources

Probes and removes of any number of devices, one after the other. The resources held are
compared with those that the probes of the bound devices have acquired.
-/

namespace Caeco.Platform

open Calls Runs

/-! ## The driver core -/

/-- A device whose probe returned 0, and what it acquired. -/
structure Bound where
  pdev : Nat
  acquired : Multiset Resource
deriving DecidableEq

/-- The kernel's books, with the devices that are bound to the driver. -/
structure Driver where
  kernel : Kernel
  bound : List Bound

/-- No device is bound, and nothing is held. -/
def Driver.init (mem : Ptr → CaecoLocal) : Driver where
  kernel := .init mem
  bound := []

/-- A whole call of the driver by the platform. How the kernel answers in a probe is left open. -/
inductive DriverCall where
  | probe (pdev : Nat) (o : Outcomes)
  | remove (pdev : Nat)
deriving DecidableEq

/-- `caeco_probe` is called. -/
def Kernel.probe (pdev : Nat) (o : Outcomes) (k : Kernel) : Int × Kernel :=
  exec (perform pdev o) caecoProbe { k with acquired := 0 }

/-- No call that `caeco_remove` makes can fail. -/
def Kernel.remove (pdev : Nat) (k : Kernel) : Kernel :=
  (exec (perform pdev ⟨none, none, false, false, none, 0, none, 0, 0⟩) caecoRemove k).2

/-- A device is probed while it is not bound, and removed while it is. -/
def Driver.step (s : Driver) : DriverCall → Option Driver
  | .probe pdev o =>
      if ∃ b ∈ s.bound, b.pdev = pdev then none
      else
        let (rc, kernel) := s.kernel.probe pdev o
        some { kernel
               bound := if rc = 0 then ⟨pdev, kernel.acquired⟩ :: s.bound else s.bound }
  | .remove pdev =>
      (s.bound.find? (·.pdev = pdev)).map fun b =>
        { kernel := s.kernel.remove pdev, bound := s.bound.erase b }

/-- What is held is what was acquired for the bound devices, and nothing else was ever
released. -/
def Balanced (s : Driver) : Prop :=
  s.kernel.held = (s.bound.map Bound.acquired).sum ∧ s.kernel.unheld = []

instance : DecidablePred Balanced := fun _ => inferInstanceAs (Decidable (_ ∧ _))

/-- What a remove must find: the interrupt of the device registered, its clock not
enabled. -/
def Bound.Removable (b : Bound) : Prop :=
  (∃ r ∈ b.acquired, r.isIrq) ∧ .clkEnable ⟨b.pdev⟩ ∉ b.acquired

/-- What one call must meet. -/
def Orderly (s : Driver) : DriverCall → Prop
  | .probe _ o => o.Orderly
  | .remove pdev => ∀ b ∈ s.bound, b.pdev = pdev → b.Removable

/-! ## Runs -/

/-- The kernel's data of a bound device agree with what its probe acquired. -/
def BoundOk (k : Kernel) (b : Bound) : Prop :=
  ∃ lp irq clk, lp.pdev? = some b.pdev ∧ (k.mem lp).baseAddr.pdev? = some b.pdev ∧
    k.drvdata b.pdev = lp ∧ b.acquired = resources b.pdev lp (k.mem lp) irq clk

/-- A device is bound once, and the kernel's data of each bound device are those of its probe. -/
structure Driver.Ok (s : Driver) : Prop where
  distinct : (s.bound.map Bound.pdev).Nodup
  bound : ∀ b ∈ s.bound, BoundOk s.kernel b

theorem BoundOk.apart {k k' : Kernel} {b : Bound} {pdev : Nat} (h : BoundOk k b)
    (hne : b.pdev ≠ pdev) (hapart : Apart k pdev k') : BoundOk k' b := by
  obtain ⟨lp, irq, clk, hown, hbase, hdrvdata, hacquired⟩ := h
  have hmem : k'.mem lp = k.mem lp := by
    apply hapart.mem
    rw [hown]
    simpa using hne
  refine ⟨lp, irq, clk, hown, ?_, ?_, ?_⟩
  · rw [hmem, hbase]
  · rw [hapart.drvdata _ hne, hdrvdata]
  · rw [hmem, hacquired]

/-- What a bound device has acquired was made for it. -/
theorem BoundOk.pdev_of_mem {k : Kernel} {b : Bound} (h : BoundOk k b) {r : Resource}
    (hr : r ∈ b.acquired) : r.pdev? = none ∨ r.pdev? = some b.pdev := by
  obtain ⟨lp, irq, clk, hown, hbase, _, hacquired⟩ := h
  rw [hacquired] at hr
  have hcases : r = .clkEnable ⟨b.pdev⟩ ∨ r = .irq (k.mem lp).irq lp ∨
      r = .mapping (k.mem lp).baseAddr ∨
      r = .region (k.mem lp).memStart (k.mem lp).memSize ∨ r = .block lp := by
    cases irq <;> cases clk <;> simp [resources, enables, registers, memory] at hr <;> tauto
  rcases hcases with rfl | rfl | rfl | rfl | rfl
  · exact .inr rfl
  · exact .inr hown
  · exact .inr hbase
  · exact .inl rfl
  · exact .inr hown

theorem absent_sum {k : Kernel} {bs : List Bound} {pdev : Nat} (hok : ∀ b ∈ bs, BoundOk k b)
    (hne : ∀ b ∈ bs, b.pdev ≠ pdev) {r : Resource} (hr : r ∈ (bs.map Bound.acquired).sum) :
    r.pdev? ≠ some pdev := by
  induction bs with
  | nil => simp at hr
  | cons b bs ih =>
      obtain ⟨hb, hbs⟩ := List.forall_mem_cons.mp hok
      obtain ⟨hbne, hbsne⟩ := List.forall_mem_cons.mp hne
      rw [List.map_cons, List.sum_cons] at hr
      rcases Multiset.mem_add.mp hr with hr | hr
      · rcases hb.pdev_of_mem hr with hnone | hsome
        · rw [hnone]
          exact (Option.some_ne_none pdev).symm
        · rw [hsome]
          simpa using hbne
      · exact ih hbs hbsne hr

theorem Driver.Ok.remaining {s : Driver} {b : Bound} (hs : s.Ok) (hb : b ∈ s.bound) :
    ((s.bound.erase b).map Bound.pdev).Nodup ∧
      ∀ b' ∈ s.bound.erase b, BoundOk s.kernel b' ∧ b'.pdev ≠ b.pdev := by
  have hperm := (List.perm_cons_erase hb).map Bound.pdev
  have hdistinct := hperm.nodup_iff.mp hs.distinct
  rw [List.map_cons, List.nodup_cons] at hdistinct
  refine ⟨hdistinct.2, fun b' hb' => ⟨hs.bound b' (List.mem_of_mem_erase hb'), ?_⟩⟩
  intro heq
  apply hdistinct.1
  rw [← heq]
  exact List.mem_map_of_mem hb'

/-- **What a probe does to the balance.** -/
theorem balanced_probe {s : Driver} {pdev : Nat} {o : Outcomes} (hs : s.Ok)
    (hbalanced : Balanced s) (hunbound : ∀ b ∈ s.bound, b.pdev ≠ pdev) :
    let r := s.kernel.probe pdev o
    let s' : Driver :=
      { kernel := r.2, bound := if r.1 = 0 then ⟨pdev, r.2.acquired⟩ :: s.bound else s.bound }
    (o.Orderly ∧ Balanced s' ∧ s'.Ok) ∨ (¬ o.Orderly ∧ ¬ Balanced s') := by
  intro r s'
  have habsent : Absent pdev { s.kernel with acquired := 0 } := by
    intro r hr
    refine absent_sum hs.bound hunbound ?_
    rw [← hbalanced.1]
    exact hr
  have hsettled : Settled { s.kernel with acquired := 0 } pdev o.Orderly r.1 r.2 :=
    caecoProbe_settled rfl habsent o
  rcases hsettled with ⟨horderly, hdone⟩ | ⟨hdisorder, hunheld⟩
  · refine .inl ⟨horderly, ?_⟩
    rcases hdone with ⟨hrc, hleft⟩ | ⟨hrc, lp, l, irq, clk, hbase, htaken⟩
    · have hbound : s'.bound = s.bound := if_neg hrc
      refine ⟨⟨?_, ?_⟩, ?_, ?_⟩
      · rw [hbound, ← hbalanced.1]
        exact hleft.held.trans (Multiset.zero_add _)
      · exact hleft.unheld.trans hbalanced.2
      · rw [hbound]
        exact hs.distinct
      · rw [hbound]
        intro b hb
        exact (hs.bound b hb).apart (hunbound b hb) ⟨hleft.mem, hleft.drvdata⟩
    · have hbound : s'.bound = ⟨pdev, r.2.acquired⟩ :: s.bound := if_pos hrc
      refine ⟨⟨?_, ?_⟩, ?_, ?_⟩
      · rw [hbound, List.map_cons, List.sum_cons, ← hbalanced.1]
        exact htaken.held.trans (by rw [htaken.acquired])
      · exact htaken.unheld.trans hbalanced.2
      · rw [hbound, List.map_cons, List.nodup_cons]
        refine ⟨?_, hs.distinct⟩
        intro hmem
        obtain ⟨b, hb, hpdev⟩ := List.mem_map.mp hmem
        exact hunbound b hb hpdev
      · rw [hbound]
        intro b hb
        rcases List.mem_cons.mp hb with rfl | hb
        · have hcontent : s'.kernel.mem lp = l := htaken.content
          refine ⟨lp, irq, clk, htaken.own, ?_, htaken.drvdataSelf, ?_⟩
          · rw [hcontent]
            exact hbase
          · rw [hcontent]
            exact htaken.acquired
        · exact (hs.bound b hb).apart (hunbound b hb) ⟨htaken.mem, htaken.drvdata⟩
  · exact .inr ⟨hdisorder, fun h => hunheld h.2⟩

theorem removable_iff {b : Bound} {lp : Ptr} {l : CaecoLocal} {irq clk : Bool}
    (h : b.acquired = resources b.pdev lp l irq clk) :
    b.Removable ↔ irq = true ∧ clk = false := by
  cases irq <;> cases clk <;>
    simp [Bound.Removable, h, resources, enables, registers, memory, Resource.isIrq]

/-- **What a remove does to the balance.** -/
theorem balanced_remove {s : Driver} {b : Bound} (hs : s.Ok) (hbalanced : Balanced s)
    (hb : b ∈ s.bound) :
    let s' : Driver := { kernel := s.kernel.remove b.pdev, bound := s.bound.erase b }
    (b.Removable ∧ Balanced s' ∧ s'.Ok) ∨ (¬ b.Removable ∧ ¬ Balanced s') := by
  intro s'
  obtain ⟨hdistinct, hrest⟩ := hs.remaining hb
  obtain ⟨lp, irq, clk, hown, hbase, hdrvdata, hacquired⟩ := hs.bound b hb
  -- the kernel as it would be without the device's resources
  let k₀ : Kernel := { s.kernel with held := ((s.bound.erase b).map Bound.acquired).sum }
  have hholding : Holding k₀ b.pdev lp (s.kernel.mem lp)
      (resources b.pdev lp (s.kernel.mem lp) irq clk) s.kernel :=
    { mem := fun _ _ => rfl
      drvdata := fun _ _ => rfl
      own := hown
      drvdataSelf := hdrvdata
      content := rfl
      held := by
        rw [hbalanced.1, ← hacquired]
        exact (List.sum_map_erase Bound.acquired hb).symm
      unheld := rfl }
  rw [removable_iff hacquired]
  cases irq with
  | false =>
      have habsent : Absent b.pdev k₀ := fun r hr =>
        absent_sum (fun b' hb' => (hrest b' hb').1) (fun b' hb' => (hrest b' hb').2) hr
      have hunheld : s'.kernel.unheld ≠ [] := hholding.caecoRemove_unregistered habsent
      exact .inr ⟨fun h => Bool.false_ne_true h.1, fun h => hunheld h.2⟩
  | true =>
      have hleft : Leaves k₀ b.pdev (enables b.pdev clk) s'.kernel := hholding.caecoRemove
      cases clk with
      | false =>
          refine .inl ⟨⟨rfl, rfl⟩, ⟨?_, hleft.unheld.trans hbalanced.2⟩, hdistinct, ?_⟩
          · exact hleft.held.trans (Multiset.zero_add _)
          · intro b' hb'
            exact (hrest b' hb').1.apart (hrest b' hb').2 ⟨hleft.mem, hleft.drvdata⟩
      | true =>
          refine .inr ⟨fun h => Bool.false_ne_true h.2.symm, fun h => ?_⟩
          have hheld : s'.kernel.held = k₀.held := h.1
          rw [hleft.held] at hheld
          have hcard := congrArg Multiset.card hheld
          simp [enables] at hcard

theorem balanced_step {s s' : Driver} {c : DriverCall} (hs : s.Ok) (hbalanced : Balanced s)
    (h : s.step c = some s') :
    (Orderly s c ∧ Balanced s' ∧ s'.Ok) ∨ (¬ Orderly s c ∧ ¬ Balanced s') := by
  cases c with
  | probe pdev o =>
      rw [Driver.step] at h
      by_cases hbound : ∃ b ∈ s.bound, b.pdev = pdev
      · rw [if_pos hbound] at h
        cases h
      · rw [if_neg hbound] at h
        cases h
        apply balanced_probe hs hbalanced
        intro b hb hpdev
        exact hbound ⟨b, hb, hpdev⟩
  | remove pdev =>
      obtain ⟨b, hfind, rfl⟩ := Option.map_eq_some_iff.mp h
      have hb := List.mem_of_find?_eq_some hfind
      have hpdev : b.pdev = pdev := by simpa using List.find?_some hfind
      subst hpdev
      have honly : Orderly s (.remove b.pdev) ↔ b.Removable := by
        constructor
        · intro horderly
          exact horderly b hb rfl
        · intro hremovable b' hb' hpdev
          rw [List.inj_on_of_nodup_map hs.distinct hb' hb hpdev]
          exact hremovable
      rw [honly]
      exact balanced_remove hs hbalanced hb

/-- **When the resources balance**: whatever fails and in whatever order devices are probed
and removed, what is held is what the bound devices have acquired, and nothing else is ever
released, exactly as long as every probe that comes to `request_irq` succeeds with it and
with `clk_prepare_enable`, and every device that is removed had its interrupt registered and
its clock not enabled. -/
theorem resources_balance_iff (mem : Ptr → CaecoLocal) (cs : List DriverCall) :
    Always Driver.step Balanced (.init mem) cs ↔
      Meets Driver.step Orderly (.init mem) cs := by
  have hinit : (Driver.init mem).Ok := ⟨List.nodup_nil, fun b hb => by cases hb⟩
  refine always_iff_meets (I := Driver.Ok) ?_ ?_ hinit ⟨rfl, rfl⟩
  · intro s c s' hs hbalanced h hbalanced'
    rcases balanced_step hs hbalanced h with ⟨_, _, hs'⟩ | ⟨_, hnot⟩
    · exact hs'
    · exact absurd hbalanced' hnot
  · intro s c s' hs hbalanced h
    rcases balanced_step hs hbalanced h with ⟨horderly, hbalanced', _⟩ | ⟨hdisorder, hnot⟩
    · exact iff_of_true hbalanced' horderly
    · exact iff_of_false hnot hdisorder

/-- After one round in which nothing fails the clock is still enabled. -/
theorem clock_left_enabled :
    (∃ s, run Driver.step (.init fun _ => ⟨0, 0, 0, .null, ⟨0⟩⟩)
        [.probe 0 allSucceed, .remove 0] = some s ∧
      s.bound = [] ∧ s.kernel.held = {.clkEnable ⟨0⟩}) ∧
    ¬ Always Driver.step Balanced (.init fun _ => ⟨0, 0, 0, .null, ⟨0⟩⟩)
        [.probe 0 allSucceed, .remove 0] := by
  refine ⟨⟨_, rfl, by decide, by decide⟩, fun h => ?_⟩
  have hend := (h.2 _ rfl).2 _ rfl
  exact absurd hend.1 (by decide)

end Caeco.Platform
