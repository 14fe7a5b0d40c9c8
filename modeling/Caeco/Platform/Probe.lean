import Mathlib.Data.BitVec
import Mathlib.Data.Multiset.AddSub
import Mathlib.Tactic.Simps.Basic
import Caeco.Kit.Calls

/-!
# `caeco_probe`, `caeco_remove` and the kernel around them

The driver's functions are programs over the kernel functions they call. The kernel is
modelled by what it keeps for the driver: the contents of the blocks, the `drvdata` of each
device and the resources that are held. Which calls fail, and what they answer otherwise, is
left to the environment; `free_irq`, `kfree` and the other releases have no result. Messages
and `clk_get_rate` are left out, and what `devm_clk_get` takes is the kernel's to give back.
-/

namespace Caeco.Platform

/-- A block of memory or a mapped window. Its name says for which device it was made and
how many were made for that device before; names are never used twice. -/
inductive Ptr where
  | null
  | made (pdev n : Nat)
deriving Repr, DecidableEq

/-- The device that the name was made for. -/
def Ptr.pdev? : Ptr → Option Nat
  | null => none
  | made pdev _ => some pdev

/-- A `struct resource` of memory, from `start` to `end`. -/
structure MemResource where
  start : BitVec 64
  endAddr : BitVec 64
deriving Repr, DecidableEq

/-- The clock of a device. -/
structure Clk where
  pdev : Nat
deriving Repr, DecidableEq

/-- `struct caeco_local`, the block that the driver keeps for a device. -/
structure CaecoLocal where
  irq : BitVec 32
  memStart : BitVec 64
  memEnd : BitVec 64
  baseAddr : Ptr
  plClk : Clk
deriving Repr, DecidableEq

/-- `lp->mem_end - lp->mem_start + 1` -/
def CaecoLocal.memSize (l : CaecoLocal) : BitVec 64 := l.memEnd - l.memStart + 1

/-- The kernel functions that the driver calls, for the device being handled, and its
accesses to `*lp`. -/
inductive KernelCall where
  | platformGetResourceMem
  | platformGetResourceIrq
  | kmalloc
  | load (lp : Ptr)
  | store (lp : Ptr) (f : CaecoLocal → CaecoLocal)
  | devSetDrvdata (lp : Ptr)
  | devGetDrvdata
  | requestMemRegion (start size : BitVec 64)
  | ioremap (start size : BitVec 64)
  | requestIrq (irq : BitVec 32) (devId : Ptr)
  | devmClkGet
  | clkPrepareEnable (plClk : Clk)
  | clkDisableUnprepare (plClk : Clk)
  | iowrite32 (value : BitVec 32) (base : Ptr) (reg : Nat)
  | ioread32 (base : Ptr) (reg : Nat)
  | freeIrq (irq : BitVec 32) (devId : Ptr)
  | iounmap (base : Ptr)
  | releaseMemRegion (start size : BitVec 64)
  | kfree (lp : Ptr)

/-- What a call returns; an `Int` is an error code, 0 for success. -/
abbrev KernelCall.Answer : KernelCall → Type
  | platformGetResourceMem => Option MemResource
  | platformGetResourceIrq => Option (BitVec 32)
  | kmalloc | ioremap .. | devGetDrvdata => Ptr
  | load _ => CaecoLocal
  | requestMemRegion .. => Bool
  | requestIrq .. | clkPrepareEnable _ => Int
  | devmClkGet => Except Int Clk
  | ioread32 .. => BitVec 32
  | _ => Unit

/-- Driver code, as the calls of the kernel that it makes and what it does with the answers. -/
abbrev Code := Calls KernelCall KernelCall.Answer

abbrev call (op : KernelCall) : Code op.Answer := Calls.invoke op

/-! ## The driver -/

def enodev : Int := 19
def enomem : Int := 12
def ebusy : Int := 16
def eio : Int := 5

def caecoIpCmd : Nat := 0x0
def caecoIpResult : Nat := 0x4

def caecoRead (caeco : Ptr) (reg : Nat) : Code (BitVec 32) := do
  let l ← call (.load caeco)
  call (.ioread32 l.baseAddr reg)

def caecoWrite (caeco : Ptr) (reg : Nat) (val : BitVec 32) : Code Unit := do
  let l ← call (.load caeco)
  call (.iowrite32 val l.baseAddr reg)

def caecoStart (caeco : Ptr) : Code Unit := caecoWrite caeco caecoIpCmd 0x1

def getCaecoResult (caeco : Ptr) : Code (BitVec 32) := caecoRead caeco caecoIpResult

/-- The part of the handler that touches the device. -/
def caecoIrq (lp : Ptr) : Code Unit := do
  let _ ← getCaecoResult lp

/-- The parameter is assigned before it is read; `lp->pl_clk` itself is never set. -/
def caecoClkInit (_plClk : Clk) : Code Int := do
  match ← call .devmClkGet with
  | .error err => return err
  | .ok plClk =>
    let rc ← call (.clkPrepareEnable plClk)
    if rc ≠ 0 then
      call (.clkDisableUnprepare plClk)
      return rc
    else
      return 0

/-- `error1:` -/
def error1 (lp : Ptr) (rc : Int) : Code Int := do
  call (.kfree lp)
  call (.devSetDrvdata .null)
  return rc

/-- `error2:` -/
def error2 (lp : Ptr) (rc : Int) : Code Int := do
  let l ← call (.load lp)
  call (.releaseMemRegion l.memStart l.memSize)
  error1 lp rc

/-- `error3:` -/
def error3 (lp : Ptr) (rc : Int) : Code Int := do
  let l ← call (.load lp)
  call (.freeIrq l.irq lp)
  error2 lp rc

/-- `caeco_probe` behind the successful `request_irq`. -/
def probeStart (lp : Ptr) : Code Int := do
  let l ← call (.load lp)
  -- the result is dropped
  let _ ← caecoClkInit l.plClk
  caecoStart lp
  return 0

/-- `caeco_probe` from the IRQ resource on. -/
def probeIrq (lp : Ptr) : Code Int := do
  match ← call .platformGetResourceIrq with
  | none => return 0
  | some start =>
    call (.store lp fun l => { l with irq := start })
    let l ← call (.load lp)
    let rc ← call (.requestIrq l.irq lp)
    if rc ≠ 0 then error3 lp rc else probeStart lp

/-- `caeco_probe` from the block on. -/
def probeMemory (rMem : MemResource) (lp : Ptr) : Code Int := do
  call (.devSetDrvdata lp)
  call (.store lp fun l => { l with memStart := rMem.start })
  call (.store lp fun l => { l with memEnd := rMem.endAddr })
  let l ← call (.load lp)
  if !(← call (.requestMemRegion l.memStart l.memSize)) then error1 lp (-ebusy)
  else
    let l ← call (.load lp)
    let baseAddr ← call (.ioremap l.memStart l.memSize)
    call (.store lp fun l => { l with baseAddr })
    if baseAddr = .null then error2 lp (-eio) else probeIrq lp

def caecoProbe : Code Int := do
  match ← call .platformGetResourceMem with
  | none => return -enodev
  | some rMem =>
    let lp ← call .kmalloc
    if lp = .null then return -enomem else probeMemory rMem lp

def caecoRemove : Code Int := do
  let lp ← call .devGetDrvdata
  let l ← call (.load lp)
  call (.freeIrq l.irq lp)
  let l ← call (.load lp)
  call (.iounmap l.baseAddr)
  let l ← call (.load lp)
  call (.releaseMemRegion l.memStart l.memSize)
  call (.kfree lp)
  call (.devSetDrvdata .null)
  return 0

/-! ## The kernel -/

/-- What a driver can hold. -/
inductive Resource where
  | block (lp : Ptr)
  | region (start size : BitVec 64)
  | mapping (base : Ptr)
  | irq (irq : BitVec 32) (devId : Ptr)
  | clkEnable (plClk : Clk)
deriving Repr, DecidableEq

def Resource.isIrq : Resource → Bool
  | irq .. => true
  | _ => false

/-- The device that the resource belongs to, where its name tells. -/
def Resource.pdev? : Resource → Option Nat
  | block lp => lp.pdev?
  | region .. => none
  | mapping base => base.pdev?
  | irq _ devId => devId.pdev?
  | clkEnable plClk => some plClk.pdev

/-- An access to a register: whether the device's window was mapped, and its clock
enabled. -/
structure Access where
  mapped : Bool
  clocked : Bool
deriving Repr, DecidableEq

/-- `made` counts the names given out for each device. The last four fields are history:
what the call under way has acquired, what was released without being held, which devices
have had their clock enabled, and the accesses to registers. -/
structure Kernel where
  mem : Ptr → CaecoLocal
  drvdata : Nat → Ptr
  made : Nat → Nat
  held : Multiset Resource
  acquired : Multiset Resource
  unheld : List Resource
  enabled : List Nat
  accesses : List Access

/-- The kernel before the first probe, whatever is in its memory. -/
def Kernel.init (mem : Ptr → CaecoLocal) : Kernel where
  mem := mem
  drvdata _ := .null
  made _ := 0
  held := 0
  acquired := 0
  unheld := []
  enabled := []
  accesses := []

@[simps] def Kernel.acquire (r : Resource) (k : Kernel) : Kernel :=
  { k with held := r ::ₘ k.held, acquired := r ::ₘ k.acquired }

/-- Nothing is released that is not held. -/
def Kernel.release (r : Resource) (k : Kernel) : Kernel :=
  if r ∈ k.held then { k with held := k.held.erase r }
  else { k with unheld := k.unheld ++ [r] }

@[simp] theorem Kernel.release_accesses (r : Resource) (k : Kernel) :
    (k.release r).accesses = k.accesses := by
  rw [release]
  split <;> rfl

/-- The next name for the device. -/
def Kernel.fresh (pdev : Nat) (k : Kernel) : Ptr := .made pdev (k.made pdev)

theorem Kernel.fresh_ne_null (pdev : Nat) (k : Kernel) : k.fresh pdev ≠ .null := by
  intro h
  cases h

@[simps] def Kernel.named (pdev : Nat) (k : Kernel) : Kernel :=
  { k with made := Function.update k.made pdev (k.made pdev + 1) }

@[simps] def Kernel.store (lp : Ptr) (l : CaecoLocal) (k : Kernel) : Kernel :=
  { k with mem := Function.update k.mem lp l }

@[simps] def Kernel.setDrvdata (pdev : Nat) (lp : Ptr) (k : Kernel) : Kernel :=
  { k with drvdata := Function.update k.drvdata pdev lp }

/-- A register behind `base` is read or written for the device. -/
@[simps]
def Kernel.access (pdev : Nat) (base : Ptr) (k : Kernel) : Kernel :=
  { k with accesses := k.accesses ++
      [{ mapped := base.pdev? = some pdev ∧ .mapping base ∈ k.held
         clocked := .clkEnable ⟨pdev⟩ ∈ k.held }] }

/-- What the environment answers to each of the calls: `none` is a null pointer. A block
that `kmalloc` returns has some content. -/
structure Outcomes where
  mem : Option MemResource
  content : Option CaecoLocal
  memRegion : Bool
  ioremap : Bool
  irq : Option (BitVec 32)
  requestIrq : Int
  clkGet : Option Int
  clkPrepareEnable : Int
  register : BitVec 32
deriving Repr, DecidableEq

/-- Every call succeeds. -/
def allSucceed : Outcomes where
  mem := some ⟨0xA0000000, 0xA000FFFF⟩
  content := some ⟨0, 0, 0, .null, ⟨0⟩⟩
  memRegion := true
  ioremap := true
  irq := some 121
  requestIrq := 0
  clkGet := none
  clkPrepareEnable := 0
  register := 0

/-- The answer to a call that is made for the device, and the kernel behind it. -/
def perform (pdev : Nat) (o : Outcomes) : (op : KernelCall) → Kernel → op.Answer × Kernel
  | .platformGetResourceMem, k => (o.mem, k)
  | .platformGetResourceIrq, k => (o.irq, k)
  | .kmalloc, k =>
      match o.content with
      | none => (.null, k)
      | some l => (k.fresh pdev, ((k.named pdev).store (k.fresh pdev) l).acquire
          (.block (k.fresh pdev)))
  | .load lp, k => (k.mem lp, k)
  | .store lp f, k => ((), k.store lp (f (k.mem lp)))
  | .devSetDrvdata lp, k => ((), k.setDrvdata pdev lp)
  | .devGetDrvdata, k => (k.drvdata pdev, k)
  | .requestMemRegion start size, k =>
      if o.memRegion then (true, k.acquire (.region start size)) else (false, k)
  | .ioremap _ _, k =>
      if o.ioremap then
        (k.fresh pdev, (k.named pdev).acquire (.mapping (k.fresh pdev)))
      else (.null, k)
  | .requestIrq irq devId, k =>
      (o.requestIrq, if o.requestIrq = 0 then k.acquire (.irq irq devId) else k)
  | .devmClkGet, k =>
      match o.clkGet with
      | some err => (.error err, k)
      | none => (.ok ⟨pdev⟩, k)
  | .clkPrepareEnable plClk, k =>
      (o.clkPrepareEnable,
        if o.clkPrepareEnable = 0 then
          { k.acquire (.clkEnable plClk) with enabled := k.enabled ++ [plClk.pdev] }
        else k)
  | .clkDisableUnprepare plClk, k => ((), k.release (.clkEnable plClk))
  | .iowrite32 _ base _, k => ((), k.access pdev base)
  | .ioread32 base _, k => (o.register, k.access pdev base)
  | .freeIrq irq devId, k => ((), k.release (.irq irq devId))
  | .iounmap base, k => ((), k.release (.mapping base))
  | .releaseMemRegion start size, k => ((), k.release (.region start size))
  | .kfree lp, k => ((), k.release (.block lp))

/-! ## Calls that can fail -/

section

variable {pdev : Nat} {o : Outcomes} {k : Kernel}

theorem perform_platformGetResourceMem :
    perform pdev o .platformGetResourceMem k = (o.mem, k) := rfl

theorem perform_platformGetResourceIrq :
    perform pdev o .platformGetResourceIrq k = (o.irq, k) := rfl

theorem perform_kmalloc {l : CaecoLocal} (h : o.content = some l) :
    perform pdev o .kmalloc k = (k.fresh pdev,
      ((k.named pdev).store (k.fresh pdev) l).acquire (.block (k.fresh pdev))) := by
  simp only [perform, h]

theorem perform_kmalloc_null (h : o.content = none) :
    perform pdev o .kmalloc k = (.null, k) := by
  simp only [perform, h]

theorem perform_requestMemRegion (h : o.memRegion = true) (start size : BitVec 64) :
    perform pdev o (.requestMemRegion start size) k
      = (true, k.acquire (.region start size)) := if_pos h

theorem perform_requestMemRegion_busy (h : o.memRegion ≠ true) (start size : BitVec 64) :
    perform pdev o (.requestMemRegion start size) k = (false, k) := if_neg h

theorem perform_ioremap (h : o.ioremap = true) (start size : BitVec 64) :
    perform pdev o (.ioremap start size) k
      = (k.fresh pdev, (k.named pdev).acquire (.mapping (k.fresh pdev))) := if_pos h

theorem perform_ioremap_null (h : o.ioremap ≠ true) (start size : BitVec 64) :
    perform pdev o (.ioremap start size) k = (.null, k) := if_neg h

theorem perform_requestIrq (h : o.requestIrq = 0) (irq : BitVec 32) (devId : Ptr) :
    perform pdev o (.requestIrq irq devId) k = (0, k.acquire (.irq irq devId)) := by
  rw [perform, if_pos h, h]

theorem perform_requestIrq_failed (h : o.requestIrq ≠ 0) (irq : BitVec 32) (devId : Ptr) :
    perform pdev o (.requestIrq irq devId) k = (o.requestIrq, k) := by
  rw [perform, if_neg h]

theorem perform_devmClkGet (h : o.clkGet = none) :
    perform pdev o .devmClkGet k = (.ok ⟨pdev⟩, k) := by
  simp only [perform, h]

theorem perform_devmClkGet_err {err : Int} (h : o.clkGet = some err) :
    perform pdev o .devmClkGet k = (.error err, k) := by
  simp only [perform, h]

theorem perform_clkPrepareEnable (h : o.clkPrepareEnable = 0) (plClk : Clk) :
    perform pdev o (.clkPrepareEnable plClk) k = (0,
      { k.acquire (.clkEnable plClk) with enabled := k.enabled ++ [plClk.pdev] }) := by
  rw [perform, if_pos h, h]

theorem perform_clkPrepareEnable_failed (h : o.clkPrepareEnable ≠ 0) (plClk : Clk) :
    perform pdev o (.clkPrepareEnable plClk) k = (o.clkPrepareEnable, k) := by
  rw [perform, if_neg h]

end

/-! ## What a call can do -/

/-- The window that a call reads or writes. -/
def KernelCall.register? : KernelCall → Option Ptr
  | iowrite32 _ base _ | ioread32 base _ => some base
  | _ => none

/-- What a call releases, if it is held. -/
def KernelCall.released? : KernelCall → Option Resource
  | clkDisableUnprepare plClk => some (.clkEnable plClk)
  | freeIrq irq devId => some (.irq irq devId)
  | iounmap base => some (.mapping base)
  | releaseMemRegion start size => some (.region start size)
  | kfree lp => some (.block lp)
  | _ => none

/-- What a call for the device can make of the kernel. -/
inductive Kernel.Effect (pdev : Nat) (k : Kernel) : KernelCall → Kernel → Prop where
  | same (op : KernelCall) : Effect pdev k op k
  | kmalloc (l : CaecoLocal) : Effect pdev k .kmalloc
      (((k.named pdev).store (k.fresh pdev) l).acquire (.block (k.fresh pdev)))
  | store (lp : Ptr) (f : CaecoLocal → CaecoLocal) :
      Effect pdev k (.store lp f) (k.store lp (f (k.mem lp)))
  | devSetDrvdata (lp : Ptr) : Effect pdev k (.devSetDrvdata lp) (k.setDrvdata pdev lp)
  | requestMemRegion (start size : BitVec 64) :
      Effect pdev k (.requestMemRegion start size) (k.acquire (.region start size))
  | ioremap (start size : BitVec 64) : Effect pdev k (.ioremap start size)
      ((k.named pdev).acquire (.mapping (k.fresh pdev)))
  | requestIrq (irq : BitVec 32) (devId : Ptr) :
      Effect pdev k (.requestIrq irq devId) (k.acquire (.irq irq devId))
  | clkPrepareEnable (plClk : Clk) : Effect pdev k (.clkPrepareEnable plClk)
      { k.acquire (.clkEnable plClk) with enabled := k.enabled ++ [plClk.pdev] }
  | release (op : KernelCall) (r : Resource) (h : op.released? = some r) :
      Effect pdev k op (k.release r)
  | access (op : KernelCall) (base : Ptr) (h : op.register? = some base) :
      Effect pdev k op (k.access pdev base)

theorem effect_perform (pdev : Nat) (o : Outcomes) (op : KernelCall) (k : Kernel) :
    k.Effect pdev op (perform pdev o op k).2 := by
  cases op with
  | kmalloc =>
      cases hcontent : o.content with
      | none =>
          rw [perform_kmalloc_null hcontent]
          exact .same _
      | some l =>
          rw [perform_kmalloc hcontent]
          exact .kmalloc l
  | requestMemRegion start size =>
      by_cases hgranted : o.memRegion = true
      · rw [perform_requestMemRegion hgranted]
        exact .requestMemRegion start size
      · rw [perform_requestMemRegion_busy hgranted]
        exact .same _
  | ioremap start size =>
      by_cases hmapped : o.ioremap = true
      · rw [perform_ioremap hmapped]
        exact .ioremap start size
      · rw [perform_ioremap_null hmapped]
        exact .same _
  | requestIrq irq devId =>
      by_cases hrc : o.requestIrq = 0
      · rw [perform_requestIrq hrc]
        exact .requestIrq irq devId
      · rw [perform_requestIrq_failed hrc]
        exact .same _
  | devmClkGet =>
      cases hget : o.clkGet with
      | none =>
          rw [perform_devmClkGet hget]
          exact .same _
      | some err =>
          rw [perform_devmClkGet_err hget]
          exact .same _
  | clkPrepareEnable plClk =>
      by_cases hrc : o.clkPrepareEnable = 0
      · rw [perform_clkPrepareEnable hrc]
        exact .clkPrepareEnable plClk
      · rw [perform_clkPrepareEnable_failed hrc]
        exact .same _
  | store lp f => exact .store lp f
  | devSetDrvdata lp => exact .devSetDrvdata lp
  | clkDisableUnprepare plClk => exact .release _ _ rfl
  | freeIrq irq devId => exact .release _ _ rfl
  | iounmap base => exact .release _ _ rfl
  | releaseMemRegion start size => exact .release _ _ rfl
  | kfree lp => exact .release _ _ rfl
  | iowrite32 value base reg => exact .access _ base rfl
  | ioread32 base reg => exact .access _ base rfl
  | platformGetResourceMem => exact .same _
  | platformGetResourceIrq => exact .same _
  | load lp => exact .same _
  | devGetDrvdata => exact .same _

end Caeco.Platform
