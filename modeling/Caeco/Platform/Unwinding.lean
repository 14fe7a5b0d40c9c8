import Mathlib.Algebra.Order.Group.Multiset
import Caeco.Platform.Probe

/-!
# What a probe and a remove leave behind

Each program is followed call by call, with what is held for the device as the invariant.
Two paths of `caeco_probe` release something that is not held: `error3` frees an interrupt
that was not requested, and a clock that could not be enabled is disabled. `caeco_remove`
frees the interrupt of every device and disables the clock of none.
-/

namespace Caeco.Platform

open Calls

/-- The probe comes to `request_irq`. -/
def Outcomes.RequestsIrq (o : Outcomes) : Prop :=
  o.mem.isSome ∧ o.content.isSome ∧ o.memRegion ∧ o.ioremap ∧ o.irq.isSome

instance : DecidablePred Outcomes.RequestsIrq := fun _ => inferInstanceAs (Decidable (_ ∧ _))

/-- If `clk_prepare_enable` is called, it succeeds. -/
def Outcomes.ClockUndoable (o : Outcomes) : Prop :=
  o.clkGet = none → o.clkPrepareEnable = 0

instance : DecidablePred Outcomes.ClockUndoable :=
  fun _ => inferInstanceAs (Decidable (_ → _))

/-- If the probe comes to `request_irq`, this succeeds, and so does `clk_prepare_enable`. -/
def Outcomes.Orderly (o : Outcomes) : Prop :=
  o.RequestsIrq → o.requestIrq = 0 ∧ o.ClockUndoable

instance : DecidablePred Outcomes.Orderly := fun _ => inferInstanceAs (Decidable (_ → _))

/-! ## What a device holds -/

def enables (pdev : Nat) (clk : Bool) : Multiset Resource :=
  if clk then {.clkEnable ⟨pdev⟩} else 0

def registers (lp : Ptr) (l : CaecoLocal) (irq : Bool) : Multiset Resource :=
  if irq then {.irq l.irq lp} else 0

def memory (lp : Ptr) (l : CaecoLocal) : Multiset Resource :=
  {.mapping l.baseAddr, .region l.memStart l.memSize, .block lp}

/-- What the probe of a device can have acquired when it returns 0. -/
def resources (pdev : Nat) (lp : Ptr) (l : CaecoLocal) (irq clk : Bool) : Multiset Resource :=
  enables pdev clk + (registers lp l irq + memory lp l)

/-- The probe or the remove of `pdev` has kept away from what the kernel `k₀` has for other
devices. -/
structure Apart (k₀ : Kernel) (pdev : Nat) (k : Kernel) : Prop where
  mem : ∀ p, p.pdev? ≠ some pdev → k.mem p = k₀.mem p
  drvdata : ∀ d, d ≠ pdev → k.drvdata d = k₀.drvdata d

/-- In addition, it leaves `left` behind. -/
structure Leaves (k₀ : Kernel) (pdev : Nat) (left : Multiset Resource) (k : Kernel) : Prop
    extends Apart k₀ pdev k where
  held : k.held = left + k₀.held
  unheld : k.unheld = k₀.unheld

/-- In addition to keeping apart, `taken` is held for it, and the block `lp` with the content
`l` is the `drvdata` of the device. -/
structure Holding (k₀ : Kernel) (pdev : Nat) (lp : Ptr) (l : CaecoLocal)
    (taken : Multiset Resource) (k : Kernel) : Prop extends Apart k₀ pdev k where
  own : lp.pdev? = some pdev
  drvdataSelf : k.drvdata pdev = lp
  content : k.mem lp = l
  held : k.held = taken + k₀.held
  unheld : k.unheld = k₀.unheld

/-- In addition, all of it was acquired by the call under way. -/
structure Taken (k₀ : Kernel) (pdev : Nat) (lp : Ptr) (l : CaecoLocal)
    (taken : Multiset Resource) (k : Kernel) : Prop
    extends Holding k₀ pdev lp l taken k where
  acquired : k.acquired = taken

section

variable {k₀ k : Kernel} {pdev : Nat} {lp : Ptr} {l : CaecoLocal} {taken : Multiset Resource}
  {r : Resource}

theorem Holding.release (h : Holding k₀ pdev lp l (r ::ₘ taken) k) :
    Holding k₀ pdev lp l taken (k.release r) := by
  have hheld : k.held = r ::ₘ (taken + k₀.held) := by
    rw [h.held, Multiset.cons_add]
  have hmem : r ∈ k.held := by
    rw [hheld]
    exact Multiset.mem_cons_self r _
  rw [Kernel.release, if_pos hmem]
  exact
    { h with
      held := by
        show k.held.erase r = _
        rw [hheld, Multiset.erase_cons_head] }

theorem Holding.setDrvdata (h : Holding k₀ pdev lp l taken k) (p : Ptr) :
    Leaves k₀ pdev taken (k.setDrvdata pdev p) :=
  { h with
    drvdata := by
      intro d hd
      show Function.update k.drvdata pdev p d = k₀.drvdata d
      rw [Function.update_of_ne hd, h.drvdata d hd] }

theorem Taken.acquire (h : Taken k₀ pdev lp l taken k) (r : Resource) :
    Taken k₀ pdev lp l (r ::ₘ taken) (k.acquire r) :=
  { h with
    held := by rw [Kernel.acquire, h.held, Multiset.cons_add]
    acquired := by rw [Kernel.acquire, h.acquired] }

theorem Taken.store (h : Taken k₀ pdev lp l taken k) (l' : CaecoLocal) :
    Taken k₀ pdev lp l' taken (k.store lp l') :=
  { h with
    mem := by
      intro p hp
      have hne : p ≠ lp := by
        rintro rfl
        exact hp h.own
      show Function.update k.mem lp l' p = k₀.mem p
      rw [Function.update_of_ne hne, h.mem p hp]
    content := Function.update_self .. }

theorem Taken.named (h : Taken k₀ pdev lp l taken k) :
    Taken k₀ pdev lp l taken (k.named pdev) :=
  { h with }

theorem Taken.access (h : Taken k₀ pdev lp l taken k) (base : Ptr) :
    Taken k₀ pdev lp l taken (k.access pdev base) :=
  { h with }

/-! ### Call by call

Each rule leaves the rest of the program to be shown for any kernel that is related to `k₀`
in the same way. -/

variable {o : Outcomes} {α : Type} {Post : α → Kernel → Prop}

theorem Holding.returns_load {f : CaecoLocal → Code α} (h : Holding k₀ pdev lp l taken k)
    (hf : Returns (perform pdev o) (f l) k Post) :
    Returns (perform pdev o) (call (.load lp) >>= f) k Post := by
  rw [returns_invoke]
  show Returns (perform pdev o) (f (k.mem lp)) k Post
  rw [h.content]
  exact hf

theorem Taken.returns_load {f : CaecoLocal → Code α} (h : Taken k₀ pdev lp l taken k)
    (hf : ∀ k, Taken k₀ pdev lp l taken k → Returns (perform pdev o) (f l) k Post) :
    Returns (perform pdev o) (call (.load lp) >>= f) k Post :=
  h.toHolding.returns_load (hf k h)

theorem Taken.returns_store {f : Unit → Code α} {g : CaecoLocal → CaecoLocal}
    (h : Taken k₀ pdev lp l taken k)
    (hf : ∀ k, Taken k₀ pdev lp (g l) taken k → Returns (perform pdev o) (f ()) k Post) :
    Returns (perform pdev o) (call (.store lp g) >>= f) k Post := by
  show Returns (perform pdev o) (f ()) (k.store lp (g (k.mem lp))) Post
  rw [h.content]
  exact hf _ (h.store (g l))

/-! ### The unwinding ladder -/

theorem Holding.error1 (h : Holding k₀ pdev lp l (.block lp ::ₘ taken) k) (rc : Int) :
    Returns (perform pdev o) (error1 lp rc) k
      fun rc' k' => rc' = rc ∧ Leaves k₀ pdev taken k' :=
  ⟨rfl, h.release.setDrvdata .null⟩

theorem Holding.error2
    (h : Holding k₀ pdev lp l (.region l.memStart l.memSize ::ₘ .block lp ::ₘ taken) k)
    (rc : Int) :
    Returns (perform pdev o) (error2 lp rc) k
      fun rc' k' => rc' = rc ∧ Leaves k₀ pdev taken k' := by
  apply h.returns_load
  exact h.release.error1 rc

/-- A release of what is not held stays on record. -/
theorem unheld_perform (op : KernelCall) (k : Kernel) (h : k.unheld ≠ []) :
    (perform pdev o op k).2.unheld ≠ [] := by
  have heffect := effect_perform pdev o op k
  generalize (perform pdev o op k).2 = k' at heffect ⊢
  cases heffect with
  | release _ r hreleased =>
      rw [Kernel.release]
      by_cases hr : r ∈ k.held
      · rw [if_pos hr]
        exact h
      · rw [if_neg hr]
        exact List.append_ne_nil_of_left_ne_nil h [r]
  | _ => exact h

theorem returns_unheld (p : Code α) (h : k.unheld ≠ []) :
    Returns (perform pdev o) p k fun _ k' => k'.unheld ≠ [] :=
  returns_of_kept unheld_perform p h

theorem unheld_release (hr : r ∉ k.held) : (k.release r).unheld ≠ [] := by
  rw [Kernel.release, if_neg hr]
  exact List.concat_ne_nil r k.unheld

/-- `error3` frees an interrupt that has not been registered. -/
theorem Holding.error3 (h : Holding k₀ pdev lp l taken k)
    (hirq : .irq l.irq lp ∉ taken + k₀.held) (rc : Int) :
    Returns (perform pdev o) (error3 lp rc) k fun _ k' => k'.unheld ≠ [] := by
  apply h.returns_load
  rw [← h.held] at hirq
  rw [returns_invoke]
  exact returns_unheld _ (unheld_release hirq)

/-! ### The probe -/

theorem Taken.enable (h : Taken k₀ pdev lp l taken k) (plClk : Clk) :
    Taken k₀ pdev lp l (.clkEnable plClk ::ₘ taken)
      { k.acquire (.clkEnable plClk) with enabled := k.enabled ++ [plClk.pdev] } :=
  { h.acquire (.clkEnable plClk) with }

theorem Taken.caecoClkInit (h : Taken k₀ pdev lp l taken k)
    (hclk : .clkEnable ⟨pdev⟩ ∉ taken + k₀.held) (c : Clk) :
    Returns (perform pdev o) (caecoClkInit c) k fun _ k' =>
      (o.ClockUndoable ∧ ∃ clk, Taken k₀ pdev lp l (enables pdev clk + taken) k') ∨
        (¬ o.ClockUndoable ∧ k'.unheld ≠ []) := by
  rw [Platform.caecoClkInit, returns_invoke]
  cases hget : o.clkGet with
  | some err =>
      rw [perform_devmClkGet_err hget]
      refine .inl ⟨?_, false, ?_⟩
      · intro hnone
        rw [hget] at hnone
        cases hnone
      · rw [enables, if_neg Bool.false_ne_true, Multiset.zero_add]
        exact h
  | none =>
      rw [perform_devmClkGet hget]
      show Returns _ (call (.clkPrepareEnable ⟨pdev⟩) >>= _) k _
      rw [returns_invoke]
      by_cases hrc : o.clkPrepareEnable = 0
      · rw [perform_clkPrepareEnable hrc, if_neg (fun h => h rfl)]
        refine .inl ⟨fun _ => hrc, true, ?_⟩
        rw [enables, if_pos rfl, Multiset.singleton_add]
        exact h.enable ⟨pdev⟩
      · rw [perform_clkPrepareEnable_failed hrc, if_pos hrc]
        rw [← h.held] at hclk
        exact .inr ⟨fun hundo => hrc (hundo hget), unheld_release hclk⟩

theorem Taken.probeStart (h : Taken k₀ pdev lp l taken k)
    (hclk : .clkEnable ⟨pdev⟩ ∉ taken + k₀.held) :
    Returns (perform pdev o) (probeStart lp) k fun rc k' =>
      rc = 0 ∧ ((o.ClockUndoable ∧ ∃ clk, Taken k₀ pdev lp l (enables pdev clk + taken) k') ∨
        (¬ o.ClockUndoable ∧ k'.unheld ≠ [])) := by
  apply h.returns_load
  intro k h
  apply (h.caecoClkInit hclk l.plClk).bind
  intro rc k hk
  rcases hk with ⟨hundo, clk, h⟩ | ⟨hundo, hunheld⟩
  · apply h.returns_load
    intro k h
    exact ⟨rfl, .inl ⟨hundo, clk, h.access l.baseAddr⟩⟩
  · refine ⟨rfl, .inr ⟨hundo, ?_⟩⟩
    exact returns_unheld (caecoStart lp) hunheld

/-- What a probe leads to: under the condition `C` it takes everything back or holds what
it has acquired, and otherwise it releases something that is not held. -/
def Settled (k₀ : Kernel) (pdev : Nat) (C : Prop) (rc : Int) (k : Kernel) : Prop :=
  (C ∧ ((rc ≠ 0 ∧ Leaves k₀ pdev 0 k) ∨
      (rc = 0 ∧ ∃ lp l irq clk, l.baseAddr.pdev? = some pdev ∧
        Taken k₀ pdev lp l (resources pdev lp l irq clk) k))) ∨
    (¬ C ∧ k.unheld ≠ [])

/-- Nothing is held that was made for the device. -/
def Absent (pdev : Nat) (k₀ : Kernel) : Prop := ∀ r ∈ k₀.held, r.pdev? ≠ some pdev

theorem Absent.irq_not_mem (h : Absent pdev k₀) (hlp : lp.pdev? = some pdev)
    (irq : BitVec 32) (l : CaecoLocal) : .irq irq lp ∉ memory lp l + k₀.held := by
  intro hmem
  rcases Multiset.mem_add.mp hmem with hmem | hmem
  · simp [memory] at hmem
  · exact h _ hmem hlp

theorem Absent.clkEnable_not_mem (h : Absent pdev k₀) (lp : Ptr) (l : CaecoLocal) (irq : Bool) :
    .clkEnable ⟨pdev⟩ ∉ registers lp l irq + memory lp l + k₀.held := by
  intro hmem
  rcases Multiset.mem_add.mp hmem with hmem | hmem
  · cases irq <;> simp [registers, memory] at hmem
  · exact h _ hmem rfl

theorem Taken.probeIrq (h : Taken k₀ pdev lp l (memory lp l) k)
    (hbase : l.baseAddr.pdev? = some pdev) (habsent : Absent pdev k₀)
    (hreach : o.irq.isSome → o.RequestsIrq) :
    Returns (perform pdev o) (probeIrq lp) k (Settled k₀ pdev o.Orderly) := by
  rw [Platform.probeIrq, returns_invoke, perform_platformGetResourceIrq]
  cases hirq : o.irq with
  | none =>
      refine .inl ⟨?_, .inr ⟨rfl, lp, l, false, false, hbase, ?_⟩⟩
      · rintro ⟨_, _, _, _, hsome⟩
        rw [hirq] at hsome
        cases hsome
      · show Taken k₀ pdev lp l (resources pdev lp l false false) k
        simpa [resources, enables, registers] using h
  | some start =>
      have hreached : o.RequestsIrq := hreach (by rw [hirq]; rfl)
      apply h.returns_store
      intro k h
      apply h.returns_load
      intro k h
      rw [returns_invoke]
      by_cases hrc : o.requestIrq = 0
      · rw [perform_requestIrq hrc, if_neg (fun h => h rfl)]
        have hstart := (h.acquire (.irq start lp)).probeStart (o := o)
          (habsent.clkEnable_not_mem lp { l with irq := start } true)
        refine hstart.mono ?_
        rintro rc k ⟨rfl, ⟨hundo, clk, h⟩ | ⟨hundo, hunheld⟩⟩
        · refine .inl ⟨fun _ => ⟨hrc, hundo⟩, .inr ?_⟩
          exact ⟨rfl, lp, { l with irq := start }, true, clk, hbase, h⟩
        · exact .inr ⟨fun horderly => hundo (horderly hreached).2, hunheld⟩
      · rw [perform_requestIrq_failed hrc, if_pos hrc]
        have herror := h.toHolding.error3 (o := o) (habsent.irq_not_mem h.own start _) o.requestIrq
        refine herror.mono ?_
        intro rc k hunheld
        exact .inr ⟨fun horderly => hrc (horderly hreached).1, hunheld⟩

theorem Taken.probeMemory {rMem : MemResource}
    (h : Taken k₀ pdev lp l {.block lp} (k.setDrvdata pdev lp)) (habsent : Absent pdev k₀)
    (hreach : o.memRegion → o.ioremap → o.irq.isSome → o.RequestsIrq)
    (hreached : o.RequestsIrq → o.memRegion ∧ o.ioremap) :
    Returns (perform pdev o) (probeMemory rMem lp) k (Settled k₀ pdev o.Orderly) := by
  rw [Platform.probeMemory, returns_invoke]
  apply h.returns_store
  intro k h
  apply h.returns_store
  intro k h
  apply h.returns_load
  intro k h
  rw [returns_invoke]
  by_cases hregion : o.memRegion = true
  · rw [perform_requestMemRegion hregion]
    apply (h.acquire _).returns_load
    intro k h
    rw [returns_invoke]
    by_cases hmapped : o.ioremap = true
    · rw [perform_ioremap hmapped]
      apply (h.named.acquire _).returns_store
      intro k' h
      simp only [Kernel.fresh_ne_null, if_false]
      exact h.probeIrq rfl habsent (hreach hregion hmapped)
    · rw [perform_ioremap_null hmapped]
      apply h.returns_store
      intro k' h
      refine (h.toHolding.error2 (-eio)).mono ?_
      rintro rc k ⟨rfl, h⟩
      exact .inl ⟨fun hreq => absurd (hreached hreq).2 hmapped, .inl ⟨by decide, h⟩⟩
  · rw [perform_requestMemRegion_busy hregion]
    refine (h.toHolding.error1 (-ebusy)).mono ?_
    rintro rc k ⟨rfl, h⟩
    exact .inl ⟨fun hreq => absurd (hreached hreq).1 hregion, .inl ⟨by decide, h⟩⟩

theorem taken_kmalloc (hacq : k₀.acquired = 0) (l : CaecoLocal) :
    Taken k₀ pdev (k₀.fresh pdev) l {.block (k₀.fresh pdev)}
      (((((k₀.named pdev).store (k₀.fresh pdev) l).acquire (.block (k₀.fresh pdev)))).setDrvdata
        pdev (k₀.fresh pdev)) where
  mem p hp := by
    have hne : p ≠ k₀.fresh pdev := by
      rintro rfl
      exact hp rfl
    exact Function.update_of_ne hne _ _
  drvdata d hd := Function.update_of_ne hd _ _
  own := rfl
  drvdataSelf := Function.update_self ..
  content := Function.update_self ..
  held := rfl
  acquired := by
    show _ ::ₘ k₀.acquired = _
    rw [hacq]
    rfl
  unheld := rfl

/-- **What a probe leads to**, whichever calls fail. -/
theorem caecoProbe_settled (hacq : k₀.acquired = 0) (habsent : Absent pdev k₀) (o : Outcomes) :
    Returns (perform pdev o) caecoProbe k₀ (Settled k₀ pdev o.Orderly) := by
  have hnothing (hnot : ¬ o.RequestsIrq) (rc : Int) (hrc : rc ≠ 0) :
      Settled k₀ pdev o.Orderly rc k₀ := by
    refine .inl ⟨fun hreq => absurd hreq hnot, .inl ⟨hrc, ?_⟩⟩
    exact ⟨⟨fun _ _ => rfl, fun _ _ => rfl⟩, (Multiset.zero_add _).symm, rfl⟩
  rw [caecoProbe, returns_invoke, perform_platformGetResourceMem]
  cases hmem : o.mem with
  | none =>
      exact hnothing (by simp [Outcomes.RequestsIrq, hmem]) (-enodev) (by decide)
  | some rMem =>
      show Returns _ (call .kmalloc >>= _) k₀ _
      rw [returns_invoke]
      cases hcontent : o.content with
      | none =>
          rw [perform_kmalloc_null hcontent, if_pos rfl]
          exact hnothing (by simp [Outcomes.RequestsIrq, hcontent]) (-enomem) (by decide)
      | some l =>
          rw [perform_kmalloc hcontent, if_neg (Kernel.fresh_ne_null pdev _)]
          apply (taken_kmalloc hacq l).probeMemory habsent
          · intro hregion hmapped hirq
            exact ⟨by rw [hmem]; rfl, by rw [hcontent]; rfl, hregion, hmapped, hirq⟩
          · exact fun hreq => ⟨hreq.2.2.1, hreq.2.2.2.1⟩

/-! ### The remove -/

theorem resources_registered (pdev : Nat) (lp : Ptr) (l : CaecoLocal) (clk : Bool) :
    resources pdev lp l true clk = .irq l.irq lp ::ₘ .mapping l.baseAddr ::ₘ
      .region l.memStart l.memSize ::ₘ .block lp ::ₘ enables pdev clk := by
  rw [resources, Multiset.add_comm]
  simp only [registers, memory, if_true, Multiset.insert_eq_cons, Multiset.singleton_add,
    Multiset.cons_add]

theorem Holding.devGetDrvdata (h : Holding k₀ pdev lp l taken k) :
    perform pdev o .devGetDrvdata k = (lp, k) := by
  rw [perform, h.drvdataSelf]

/-- The remove of a device with a registered interrupt leaves its clock enabled. -/
theorem Holding.caecoRemove {clk : Bool}
    (h : Holding k₀ pdev lp l (resources pdev lp l true clk) k) :
    Returns (perform pdev o) caecoRemove k
      fun _ k' => Leaves k₀ pdev (enables pdev clk) k' := by
  rw [resources_registered] at h
  rw [Platform.caecoRemove, returns_invoke, h.devGetDrvdata]
  apply h.returns_load
  rw [returns_invoke]
  have hirq := h.release
  apply hirq.returns_load
  rw [returns_invoke]
  have hmapping := hirq.release
  apply hmapping.returns_load
  exact hmapping.release.release.setDrvdata .null

/-- Without one, it frees an interrupt that is not registered. -/
theorem Holding.caecoRemove_unregistered {clk : Bool}
    (h : Holding k₀ pdev lp l (resources pdev lp l false clk) k) (habsent : Absent pdev k₀) :
    Returns (perform pdev o) Platform.caecoRemove k fun _ k' => k'.unheld ≠ [] := by
  rw [Platform.caecoRemove, returns_invoke, h.devGetDrvdata]
  apply h.returns_load
  rw [returns_invoke]
  apply returns_unheld
  apply unheld_release
  rw [h.held, resources]
  intro hmem
  rcases Multiset.mem_add.mp hmem with hmem | hmem
  · cases clk <;> simp [enables, registers, memory] at hmem
  · exact habsent _ hmem h.own

end

end Caeco.Platform
