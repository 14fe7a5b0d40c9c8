import Caeco.Dma.Buffers
import Caeco.Kit.Runs
import Mathlib.Data.List.Perm.Basic

/-!
# The buffers of the driver over whole runs

Mappings come and go, buffers of other drivers are registered and unregistered, and transfers
are asked for, in any order. What the driver holds is accounted for by its lists all the time,
and a transfer goes to the bytes that the program sees at the address it has passed, as long
as the program registers what is there.
-/

namespace Caeco.Dma

/-- The bytes that the program sees from `userAddr` on lie at `dmaAddr`. -/
def Vma.Shows (v : Vma) (userAddr : Addr) (len : Nat) (dmaAddr : Addr) : Prop :=
  v.mapping.segment.Covers userAddr len ∧ dmaAddr = v.mapping.place userAddr

/-! ## Steps -/

/-- An entry of a scatter-gather list. -/
structure SgEntry where
  dmaAddress : Addr
  /-- `sg_dma_len`, an `unsigned int` -/
  length : BitVec 32
deriving Repr, DecidableEq

def axidmaInitSgEntry (buf bufLen : Addr) (m : Buffers) : Option (Except Int SgEntry) :=
  (axidmaUservirtToDma buf bufLen m).map fun dmaAddr =>
    if dmaAddr = 0 then .error (-efault) else .ok ⟨dmaAddr, bufLen.setWidth 32⟩

/-- What a program does with its buffers, and what the kernel answers. -/
inductive BufferAction where
  /-- The kernel has found a place in the address space. -/
  | mmap (vma : Segment 64) (answers : MmapAnswers)
  /-- The mapping that starts here is unmapped, all of it. -/
  | munmap (start : Addr)
  /-- Another driver maps a buffer of its own. -/
  | mapForeign (mapping : Mapping 64)
  | register (extBuf : RegisterBuffer) (answers : GetAnswers)
  | unregister (userAddr : Addr)
  /-- The part of a transfer that looks the buffer up. -/
  | transfer (buf bufLen : Addr)

namespace Buffers

/-- Nothing is mapped there. -/
def Vacant (vma : Segment 64) (m : Buffers) : Prop :=
  ∀ v ∈ m.vmas, v.mapping.segment.Apart vma

instance (vma : Segment 64) (m : Buffers) : Decidable (m.Vacant vma) :=
  inferInstanceAs (Decidable (∀ v ∈ m.vmas, _))

/-- The mapping that starts at an address. -/
def vmaAt (start : Addr) (m : Buffers) : Option Vma :=
  m.vmas.find? (·.mapping.segment.start = start)

/-- One call of the process, or what another driver maps for it. The places in the address space
and the answers of the kernel are the environment's. An action that the kernel does not allow
changes nothing. -/
def step (m : Buffers) : BufferAction → Option Buffers
  | .mmap vma answers =>
      if m.Vacant vma then (axidmaMmap vma answers m).map Prod.snd else some m
  | .munmap start =>
      match m.vmaAt start with
      | none => some m
      | some vma => m.unmap vma
  | .mapForeign mapping =>
      if m.Vacant mapping.segment then some { m with vmas := .foreign mapping :: m.vmas }
      else some m
  | .register extBuf answers => (axidmaGetExternal extBuf answers m).map Prod.snd
  | .unregister userAddr => (axidmaPutExternal userAddr m).map Prod.snd
  | .transfer buf bufLen => (axidmaInitSgEntry buf bufLen m).map fun _ => m

/-! ## What is held -/

/-- The ledger agrees with the lists, and the list of the driver's buffers with the address
space. -/
structure Ok (m : Buffers) : Prop where
  balanced : m.Balanced
  listed : m.dmabufList.Perm (m.vmas.filterMap Vma.vmPrivateData)
  disjoint : Mapping.Disjoint (m.vmas.map Vma.mapping)

variable {m m' : Buffers}

theorem ok_empty : empty.Ok where
  balanced := .refl _
  listed := .refl _
  disjoint := .nil

theorem Ok.blocks (h : m.Ok) (n : Nat) : { m with blocks := n }.Ok :=
  ⟨h.balanced, h.listed, h.disjoint⟩

theorem Ok.vacant (h : m.Ok) {mapping : Mapping 64} (hvacant : m.Vacant mapping.segment) :
    Mapping.Disjoint (mapping :: m.vmas.map Vma.mapping) := by
  refine List.Pairwise.cons ?_ h.disjoint
  intro n hn
  obtain ⟨v, hv, rfl⟩ := List.mem_map.mp hn
  exact (hvacant v hv).symm

theorem Ok.allocate (h : m.Ok) {vma : Segment 64} (hvacant : m.Vacant vma)
    (kernAddr dmaAddr : Addr) : (m.allocate vma kernAddr dmaAddr).Ok where
  balanced := by
    have hheld := h.balanced.append_left
      (DmaAllocation.make vma m.blocks kernAddr dmaAddr).resources
    rw [owed, ← List.append_assoc] at hheld
    exact hheld
  listed := h.listed.cons _
  disjoint := h.vacant (show m.Vacant (Mapping.mk vma dmaAddr).segment from hvacant)

theorem Ok.foreign (h : m.Ok) {mapping : Mapping 64} (hvacant : m.Vacant mapping.segment) :
    { m with vmas := .foreign mapping :: m.vmas }.Ok :=
  ⟨h.balanced, h.listed, h.vacant hvacant⟩

theorem Ok.erase (h : m.Ok) (v : Vma) : Mapping.Disjoint ((m.vmas.erase v).map Vma.mapping) :=
  h.disjoint.sublist (List.erase_sublist.map _)

/-- A mapping is closed without giving anything back twice. -/
theorem Ok.unmap (h : m.Ok) {v : Vma} (hv : v ∈ m.vmas) :
    ∃ held dmabufs, m.unmap v
        = some { m with vmas := m.vmas.erase v, dmabufList := dmabufs, held := held } ∧
      { m with vmas := m.vmas.erase v, dmabufList := dmabufs, held := held }.Ok := by
  have hvmas := (List.perm_cons_erase hv).filterMap Vma.vmPrivateData
  cases hprivate : v.vmPrivateData with
  | none =>
      rw [List.filterMap_cons_none hprivate] at hvmas
      exact ⟨m.held, m.dmabufList, by rw [Buffers.unmap, hprivate],
        h.balanced, h.listed.trans hvmas, h.erase v⟩
  | some a =>
      rw [List.filterMap_cons_some hprivate] at hvmas
      have hlisted := h.listed.trans hvmas
      have ha : a ∈ m.dmabufList := hlisted.mem_iff.mpr List.mem_cons_self
      have hdmabufs := List.perm_cons_erase ha
      -- what the allocation has taken stands apart
      have hheld : m.held.Perm
          (a.resources ++ { m with dmabufList := m.dmabufList.erase a }.owed) := by
        refine h.balanced.trans ?_
        rw [owed, owed, ← List.append_assoc]
        exact (hdmabufs.flatMap_right DmaAllocation.resources).append_right _
      obtain ⟨hregion, hheld⟩ := release_of_perm (m := { m with vmas := m.vmas.erase v }) hheld
      obtain ⟨hblock, hheld⟩ := release_of_perm (m := { m with
        vmas := m.vmas.erase v
        dmabufList := m.dmabufList.erase a
        held := m.held.erase (.coherent a.size a.kernAddr a.dmaAddr) }) hheld
      refine ⟨_, m.dmabufList.erase a, ?_, hheld, ?_, h.erase v⟩
      · rw [Buffers.unmap, hprivate]
        show axidmaVmaClose a _ = _
        rw [axidmaVmaClose, hregion]
        exact hblock
      · exact (hdmabufs.symm.trans hlisted).cons_inv

theorem Ok.register (h : m.Ok) {e : ExternalAllocation} (hlive : e.freed = false) :
    (m.register e).Ok where
  balanced := by
    have hheld := (h.balanced.append_left e.resources).trans
      (List.perm_append_comm_assoc _ _ _)
    have hfilter : (e :: m.externalDmabufs).filter (!·.freed)
        = e :: m.externalDmabufs.filter (!·.freed) :=
      List.filter_cons_of_pos (by rw [hlive]; rfl)
    rw [Balanced, owed, Buffers.register]
    simp only [hfilter, List.flatMap_cons]
    exact hheld
  listed := h.listed
  disjoint := h.disjoint

end Buffers

/-- What an unregistration can come to. -/
inductive PutExternal (m : Buffers) : Option (Int × Buffers) → Prop
  | undefined (h : ∃ e ∈ m.externalDmabufs, e.freed = true) : PutExternal m none
  | absent : PutExternal m (some (-enoent, m))
  | done (e : ExternalAllocation) (before behind : List ExternalAllocation)
      (held : List Resource) (hes : m.externalDmabufs = before ++ e :: behind)
      (hheld : held.Perm { m with externalDmabufs := before ++ behind }.owed) :
      PutExternal m (some (0, { m with
        externalDmabufs := before ++ { e with freed := true } :: behind
        held := held }))

theorem axidmaPutExternal_cases {m : Buffers} (h : m.Balanced) (userAddr : Addr) :
    PutExternal m (axidmaPutExternal userAddr m) := by
  rw [axidmaPutExternal]
  cases hfound : firstExternal _ m.externalDmabufs with
  | none => exact .undefined (firstExternal_undefined hfound)
  | some found =>
      cases found with
      | none => exact .absent
      | some e =>
          obtain ⟨before, behind, hes, hbefore, hlive, htest⟩ := firstExternal_some hfound
          have hfirst : e ∉ before := by
            intro he
            rw [hbefore e he] at htest
            cases htest
          have hreplace : m.externalDmabufs.replace e { e with freed := true }
              = before ++ { e with freed := true } :: behind := by
            rw [hes, List.replace_append_right hfirst, List.replace_cons_self]
          -- what the buffer has taken stands apart
          have hheld : m.held.Perm
              (e.resources ++ { m with externalDmabufs := before ++ behind }.owed) := by
            refine h.trans ?_
            rw [Buffers.owed, Buffers.owed, hes]
            refine List.Perm.trans ?_ (List.perm_append_comm_assoc _ _ _)
            refine List.Perm.append_left _ ?_
            have hmiddle : (before ++ e :: behind).Perm (e :: (before ++ behind)) :=
              List.perm_middle
            have hfilter := hmiddle.filter (!·.freed)
            rw [List.filter_cons_of_pos (by rw [hlive]; rfl)] at hfilter
            exact hfilter.flatMap_right ExternalAllocation.resources
          obtain ⟨hsg, hheld⟩ := Buffers.release_of_perm hheld
          obtain ⟨hattachment, hheld⟩ := Buffers.release_of_perm
            (m := { m with held := m.held.erase (.sgTable e.sgTable.id) }) hheld
          obtain ⟨hbuf, hheld⟩ := Buffers.release_of_perm (m := { m with
            held := (m.held.erase (.sgTable e.sgTable.id)).erase (.attachment e.dmaAttach) }) hheld
          obtain ⟨hblock, hheld⟩ := Buffers.release_of_perm (m := { m with
            externalDmabufs := before ++ { e with freed := true } :: behind
            held := ((m.held.erase (.sgTable e.sgTable.id)).erase
              (.attachment e.dmaAttach)).erase (.dmaBuf e.dmaBuf) }) hheld
          simp only [Option.bind_eq_bind, Option.bind_some, hsg, hattachment, hbuf, Buffers.free,
            hreplace, hblock]
          exact .done e before behind _ hes hheld

namespace Buffers

variable {m m' : Buffers}

theorem Ok.put (h : m.Ok) {e : ExternalAllocation} {before behind : List ExternalAllocation}
    {held : List Resource} (hheld : held.Perm { m with externalDmabufs := before ++ behind }.owed) :
    { m with
      externalDmabufs := before ++ { e with freed := true } :: behind
      held := held }.Ok where
  balanced := by
    rw [Balanced, owed]
    refine hheld.trans ?_
    rw [owed]
    simp
  listed := h.listed
  disjoint := h.disjoint

/-- What an action can do. -/
inductive Effect (m : Buffers) : BufferAction → Option Buffers → Prop
  /-- A freed structure has been read. -/
  | undefined {a : BufferAction} (h : ∃ e ∈ m.externalDmabufs, e.freed = true) : Effect m a none
  /-- Refused, failed, or nothing to change. -/
  | idle {a : BufferAction} (n : Nat) : Effect m a (some { m with blocks := n })
  | mapped {vma : Segment 64} {answers : MmapAnswers} (hvacant : m.Vacant vma)
      (kernAddr dmaAddr : Addr) :
      Effect m (.mmap vma answers) (some (m.allocate vma kernAddr dmaAddr))
  | unmapped {start : Addr} (v : Vma) (hv : v ∈ m.vmas) (hstart : v.mapping.segment.start = start)
      (held : List Resource) (dmabufs : List DmaAllocation)
      (hok : { m with vmas := m.vmas.erase v, dmabufList := dmabufs, held := held }.Ok) :
      Effect m (.munmap start)
        (some { m with vmas := m.vmas.erase v, dmabufList := dmabufs, held := held })
  | foreign {mapping : Mapping 64} (hvacant : m.Vacant mapping.segment) :
      Effect m (.mapForeign mapping) (some { m with vmas := .foreign mapping :: m.vmas })
  | registered {extBuf : RegisterBuffer} {answers : GetAnswers} (e : ExternalAllocation)
      (hsize : e.size = extBuf.size) (haddr : e.userAddr = extBuf.userAddr)
      (hlive : e.freed = false) (hsg : answers.dmaBufMapAttachment = .ok e.sgTable) :
      Effect m (.register extBuf answers) (some (m.register e))
  | unregistered {userAddr : Addr} (e : ExternalAllocation)
      (before behind : List ExternalAllocation) (held : List Resource)
      (hes : m.externalDmabufs = before ++ e :: behind)
      (hheld : held.Perm { m with externalDmabufs := before ++ behind }.owed) :
      Effect m (.unregister userAddr) (some { m with
        externalDmabufs := before ++ { e with freed := true } :: behind
        held := held })

theorem step_effect (h : m.Ok) (a : BufferAction) : Effect m a (m.step a) := by
  cases a with
  | mmap vma answers =>
      rw [step]
      split
      · rename_i hvacant
        rcases axidmaMmap_cases vma answers m with ⟨rc, _, n, hfailed⟩ | ⟨kernAddr, dmaAddr, hdone⟩
        · rw [hfailed]
          exact .idle n
        · rw [hdone]
          exact .mapped hvacant kernAddr dmaAddr
      · exact .idle m.blocks
  | munmap start =>
      rw [step]
      cases hfound : m.vmaAt start with
      | none => exact .idle m.blocks
      | some v =>
          have hv := List.mem_of_find?_eq_some hfound
          have hstart := List.find?_some hfound
          obtain ⟨held, dmabufs, hunmap, hok⟩ := h.unmap hv
          simp only [hunmap]
          exact .unmapped v hv (by simpa using hstart) held dmabufs hok
  | mapForeign mapping =>
      rw [step]
      split
      · rename_i hvacant
        exact .foreign hvacant
      · exact .idle m.blocks
  | register extBuf answers =>
      rw [step]
      have hcases := axidmaGetExternal_cases extBuf answers m
      generalize axidmaGetExternal extBuf answers m = result at hcases
      cases hcases with
      | undefined hfreed => exact .undefined hfreed
      | failed rc n => exact .idle n
      | done e hsize haddr hlive hsg => exact .registered e hsize haddr hlive hsg
  | unregister userAddr =>
      rw [step]
      have hcases := axidmaPutExternal_cases h.balanced userAddr
      generalize axidmaPutExternal userAddr m = result at hcases
      cases hcases with
      | undefined hfreed => exact .undefined hfreed
      | absent => exact .idle m.blocks
      | done e before behind held hes hheld => exact .unregistered e before behind held hes hheld
  | transfer buf bufLen =>
      rw [step, axidmaInitSgEntry]
      cases hdma : axidmaUservirtToDma buf bufLen m with
      | none =>
          rw [axidmaUservirtToDma] at hdma
          split at hdma
          · cases hdma
          · exact .undefined (firstExternal_undefined (Option.map_eq_none_iff.mp hdma))
      | some dmaAddr => exact .idle m.blocks

theorem ok_step {a : BufferAction} (h : m.Ok) (hstep : m.step a = some m') : m'.Ok := by
  have heffect := step_effect h a
  rw [hstep] at heffect
  cases heffect with
  | idle n => exact h.blocks n
  | mapped hvacant kernAddr dmaAddr => exact h.allocate hvacant kernAddr dmaAddr
  | unmapped v hv hstart held dmabufs hok => exact hok
  | foreign hvacant => exact h.foreign hvacant
  | registered e _ _ hlive _ => exact h.register hlive
  | unregistered e before behind held hes hheld => exact h.put hheld

theorem ok_run {actions : List BufferAction} (h : m.Ok)
    (hrun : Runs.run step m actions = some m') : m'.Ok :=
  Runs.run_invariant (fun _ _ _ hok hstep => ok_step hok hstep) h hrun

/-- **What the driver holds is accounted for.** After any calls of one process, failed ones
included, whose mappings are unmapped as a whole, the kernel has out exactly what belongs to the
open mappings and to the registered buffers, each thing once. And a call is undefined only if
the freed structure of a buffer that has been unregistered is still in the list, where a search
reads it and `list_add` writes to it. -/
theorem buffers_accounted {actions : List BufferAction}
    (hrun : Runs.run step empty actions = some m) :
    m.held.Perm m.owed ∧ m.dmabufList.Perm (m.vmas.filterMap Vma.vmPrivateData) ∧
      ∀ a, m.step a = none → ∃ e ∈ m.externalDmabufs, e.freed = true := by
  have hok := ok_run ok_empty hrun
  refine ⟨hok.balanced, hok.listed, fun a hnone => ?_⟩
  have heffect := step_effect hok a
  rw [hnone] at heffect
  cases heffect with
  | undefined hfreed => exact hfreed

/-- A buffer is mapped and unmapped again; in between a mapping fails. -/
def unmappedAgain : List BufferAction :=
  [.mmap ⟨0x1000, 0x1000, by decide⟩ ⟨true, some (7, 0x50000000), 0⟩,
    .mmap ⟨0x2000, 0x1000, by decide⟩ ⟨true, some (8, 0x60000000), -12⟩, .munmap 0x1000]

theorem buffers_accounted_unmapped :
    ∃ m, Runs.run step empty unmappedAgain = some m ∧ m.held = [] ∧
      m.held.Perm m.owed ∧ m.dmabufList.Perm (m.vmas.filterMap Vma.vmPrivateData) ∧
      ∀ a, m.step a = none → ∃ e ∈ m.externalDmabufs, e.freed = true := by
  have hnothing : (Runs.run step empty unmappedAgain).map Buffers.held = some [] := rfl
  obtain ⟨m, hrun, hheld⟩ := Option.map_eq_some_iff.mp hnothing
  exact ⟨m, hrun, hheld, buffers_accounted hrun⟩

/-! ## Where a transfer goes -/

/-- The buffers of other drivers are registered as they are mapped. -/
def Honest (m : Buffers) : Prop :=
  ∀ e ∈ m.externalDmabufs, e.freed = false →
    ∃ v ∈ m.vmas, v.Shows e.userAddr e.size.toNat e.sgTable.dmaAddress

/-- The program registers what is mapped, and keeps it mapped as long as it is registered. -/
def Careful (m : Buffers) : BufferAction → Prop
  | .munmap start => ∀ v ∈ m.vmas, v.mapping.segment.start = start →
      ∀ e ∈ m.externalDmabufs, e.freed = false →
        ¬ v.mapping.segment.Covers e.userAddr e.size.toNat
  | .register extBuf answers => ∀ sgTable, answers.dmaBufMapAttachment = .ok sgTable →
      ∃ v ∈ m.vmas, v.Shows extBuf.userAddr extBuf.size.toNat sgTable.dmaAddress
  | _ => True

theorem honest_step {a : BufferAction} (h : m.Ok) (hhonest : m.Honest) (ha : m.Careful a)
    (hstep : m.step a = some m') : m'.Honest := by
  have heffect := step_effect h a
  rw [hstep] at heffect
  cases heffect with
  | idle n => exact hhonest
  | mapped hvacant kernAddr dmaAddr =>
      intro e he hlive
      obtain ⟨v, hv, hshows⟩ := hhonest e he hlive
      exact ⟨v, List.mem_cons_of_mem _ hv, hshows⟩
  | unmapped v hv hstart held dmabufs hok =>
      intro e he hlive
      obtain ⟨u, hu, hshows⟩ := hhonest e he hlive
      have hother : u ≠ v := by
        rintro rfl
        exact ha u hu hstart e he hlive hshows.1
      exact ⟨u, (List.mem_erase_of_ne hother).mpr hu, hshows⟩
  | foreign hvacant =>
      intro e he hlive
      obtain ⟨v, hv, hshows⟩ := hhonest e he hlive
      exact ⟨v, List.mem_cons_of_mem _ hv, hshows⟩
  | registered e hsize haddr hlive hsg =>
      refine List.forall_mem_cons.mpr ⟨fun _ => ?_, hhonest⟩
      rw [hsize, haddr]
      exact ha e.sgTable hsg
  | unregistered e before behind held hes hheld =>
      intro x hx hlive
      rcases List.mem_append.mp hx with hx | hx
      · exact hhonest x (by rw [hes]; simp [hx]) hlive
      · rcases List.mem_cons.mp hx with rfl | hx
        · cases hlive
        · exact hhonest x (by rw [hes]; simp [hx]) hlive

theorem honest_run {actions : List BufferAction}
    (hrun : Runs.run step empty actions = some m)
    (hcareful : Runs.Meets step Careful empty actions) : m.Ok ∧ m.Honest := by
  refine Runs.run_invariant_of_meets (I := fun m => m.Ok ∧ m.Honest) ?_
    ⟨ok_empty, fun e he => by cases he⟩ hcareful hrun
  intro m a m' ⟨hok, hhonest⟩ ha hstep
  exact ⟨ok_step hok hstep, honest_step hok hhonest ha hstep⟩

/-- The allocation of a mapping of the driver's own. -/
theorem Ok.exists_vma (h : m.Ok) {a : DmaAllocation} (ha : a ∈ m.dmabufList) :
    ∃ v ∈ m.vmas, v.vmPrivateData = some a :=
  List.mem_filterMap.mp (h.listed.mem_iff.mp ha)

/-- The test of the driver, for the allocation of a mapping. -/
theorem valid_iff {v : Vma} {a : DmaAllocation} (hv : v.vmPrivateData = some a)
    {buf bufLen : Addr} (hfits : buf.toNat + bufLen.toNat < 2 ^ 64) :
    validDmaRequest a.userAddr a.size buf bufLen = true
      ↔ v.mapping.segment.Covers buf bufLen.toNat := by
  obtain ⟨hstart, hsize, _⟩ := v.placed a hv
  rw [← hstart, ← hsize]
  exact Segment.within_iff hfits

/-- **The translation.** It finds a mapping that shows the buffer; without one among the
driver's own it may find nothing. -/
theorem axidmaUservirtToDma_spec (h : m.Ok) (hhonest : m.Honest) {buf bufLen dmaAddr : Addr}
    (hfits : buf.toNat + bufLen.toNat < 2 ^ 64)
    (hdma : axidmaUservirtToDma buf bufLen m = some dmaAddr) :
    (∃ v ∈ m.vmas, v.Shows buf bufLen.toNat dmaAddr) ∨
      dmaAddr = 0 ∧ ∀ v ∈ m.vmas, v.vmPrivateData ≠ none →
        ¬ v.mapping.segment.Covers buf bufLen.toNat := by
  rw [axidmaUservirtToDma] at hdma
  cases hfind : m.dmabufList.find? _ with
  | some a =>
      rw [hfind] at hdma
      cases hdma
      obtain ⟨v, hv, hprivate⟩ := h.exists_vma (List.mem_of_find?_eq_some hfind)
      have hvalid := List.find?_some hfind
      obtain ⟨hstart, _, htarget⟩ := v.placed a hprivate
      refine .inl ⟨v, hv, (valid_iff hprivate hfits).mp hvalid, ?_⟩
      rw [Mapping.place, Segment.moved, hstart, htarget]
  | none =>
      rw [hfind] at hdma
      obtain ⟨found, hfound, hresult⟩ := Option.map_eq_some_iff.mp hdma
      cases found with
      | some e =>
          cases hresult
          obtain ⟨before, behind, hes, _, hlive, hvalid⟩ := firstExternal_some hfound
          obtain ⟨v, hv, hcovers, hplace⟩ := hhonest e (by rw [hes]; simp) hlive
          have hend : e.userAddr.toNat + e.size.toNat < 2 ^ 64 :=
            Nat.lt_of_le_of_lt hcovers.2 v.mapping.segment.fits
          obtain ⟨hlo, hhi⟩ := (Segment.within_iff
            (s := ⟨e.userAddr, e.size, hend⟩) hfits).mp hvalid
          refine .inl ⟨v, hv, hcovers.trans hlo hhi, ?_⟩
          show e.sgTable.dmaAddress + (buf - e.userAddr) = _
          rw [hplace]
          exact Segment.moved_moved _ _ _ _
      | none =>
          cases hresult
          refine .inr ⟨rfl, ?_⟩
          intro v hv hprivate hcovers
          obtain ⟨a, ha⟩ := Option.ne_none_iff_exists'.mp hprivate
          have hmem : a ∈ m.dmabufList := h.listed.mem_iff.mpr (List.mem_filterMap.mpr ⟨v, hv, ha⟩)
          exact List.find?_eq_none.mp hfind a hmem ((valid_iff ha hfits).mpr hcovers)

/-- Where the program sees the bytes of a mapping. -/
theorem Ok.physical (h : m.Ok) {v : Vma} (hv : v ∈ m.vmas) {buf dmaAddr : Addr} {len i : Nat}
    (hshows : v.Shows buf len dmaAddr) (hi : i < len) :
    m.physical (buf + BitVec.ofNat 64 i) = some (dmaAddr + BitVec.ofNat 64 i) := by
  obtain ⟨hcovers, rfl⟩ := hshows
  exact Mapping.lookup_covered h.disjoint (List.mem_map_of_mem hv) hcovers hi

/-- **A transfer goes to the program's bytes.** Whatever has been mapped, unmapped as a whole,
registered and unregistered before by the one process, an entry for a buffer that does not wrap
is for the bytes that the program sees there: all of them if there are less than 4 GiB, and
otherwise the first ones, as many as the length is modulo 4 GiB. And a buffer in a mapping of
the driver's own is not refused, unless the bus has it at the address 0. -/
theorem transfer_reaches_buffer {actions : List BufferAction}
    (hrun : Runs.run step empty actions = some m)
    (hcareful : Runs.Meets step Careful empty actions) {buf bufLen : Addr}
    (hfits : buf.toNat + bufLen.toNat < 2 ^ 64) :
    (∀ entry, axidmaInitSgEntry buf bufLen m = some (.ok entry) →
        entry.length.toNat = bufLen.toNat % 2 ^ 32 ∧ ∀ i < bufLen.toNat,
          m.physical (buf + BitVec.ofNat 64 i) = some (entry.dmaAddress + BitVec.ofNat 64 i)) ∧
      ∀ rc, axidmaInitSgEntry buf bufLen m = some (.error rc) →
        rc = -efault ∧ ∀ v ∈ m.vmas, v.vmPrivateData ≠ none → 0 < bufLen.toNat →
          v.mapping.segment.Covers buf bufLen.toNat → m.physical buf = some 0 := by
  obtain ⟨hok, hhonest⟩ := honest_run hrun hcareful
  rw [axidmaInitSgEntry]
  cases hdma : axidmaUservirtToDma buf bufLen m with
  | none =>
      constructor
      · intro entry hentry
        cases hentry
      · intro rc hrc
        cases hrc
  | some dmaAddr =>
      have hspec := axidmaUservirtToDma_spec hok hhonest hfits hdma
      by_cases hzero : dmaAddr = 0
      · constructor
        · intro entry hentry
          rw [Option.map_some, if_pos hzero] at hentry
          cases hentry
        · intro rc hrc
          rw [Option.map_some, if_pos hzero] at hrc
          cases hrc
          refine ⟨rfl, fun v hv hprivate hlen hcovers => ?_⟩
          rcases hspec with ⟨u, hu, hshows⟩ | ⟨_, hnone⟩
          · have hfirst := hok.physical hu hshows hlen
            simpa [hzero] using hfirst
          · exact absurd hcovers (hnone v hv hprivate)
      · constructor
        · intro entry hentry
          rw [Option.map_some, if_neg hzero] at hentry
          cases hentry
          refine ⟨BitVec.toNat_setWidth .., fun i hi => ?_⟩
          rcases hspec with ⟨v, hv, hshows⟩ | ⟨hzero', _⟩
          · exact hok.physical hv hshows hi
          · exact absurd hzero' hzero
        · intro rc hrc
          rw [Option.map_some, if_neg hzero] at hrc
          cases hrc

/-- The kernel's answers for a buffer of another driver. -/
def oneRegion (dmaAddress : Addr) : GetAnswers where
  kmalloc := true
  dmaBufGet := .ok 1
  dmaBufAttach := .ok 2
  dmaBufMapAttachment := .ok ⟨3, 1, dmaAddress⟩

/-- A buffer of another driver, of which half is registered, and one of the driver's own. -/
def twoBuffers : List BufferAction :=
  [.mapForeign ⟨⟨0x4000, 0x1000, by decide⟩, 0x90000000⟩,
    .register ⟨5, 0x800, 0x4800⟩ (oneRegion 0x90000800),
    .mmap ⟨0x1000, 0x1000, by decide⟩ ⟨true, some (7, 0x50000000), 0⟩]

theorem careful_twoBuffers : Runs.Meets step Careful empty twoBuffers := by
  rintro m₁ ⟨⟩
  refine ⟨trivial, ?_⟩
  rintro m₂ ⟨⟩
  refine ⟨?_, ?_⟩
  · rintro sgTable ⟨⟩
    exact ⟨_, List.mem_cons_self, by decide, rfl⟩
  · rintro m₃ ⟨⟩
    exact ⟨trivial, trivial⟩

/-- A transfer from the registered half. -/
theorem transfer_reaches_buffer_registered :
    ∃ m, Runs.run step empty twoBuffers = some m ∧ ∀ i < (4 : Addr).toNat,
      m.physical (0x4900 + BitVec.ofNat 64 i) = some (0x90000900 + BitVec.ofNat 64 i) := by
  have hlooked : (Runs.run step empty twoBuffers).bind (axidmaInitSgEntry 0x4900 4)
      = some (.ok ⟨0x90000900, 4⟩) := rfl
  obtain ⟨m, hrun, hentry⟩ := Option.bind_eq_some_iff.mp hlooked
  obtain ⟨hreaches, _⟩ := transfer_reaches_buffer hrun careful_twoBuffers
    (show (0x4900 : Addr).toNat + (4 : Addr).toNat < 2 ^ 64 by decide)
  exact ⟨m, hrun, (hreaches _ hentry).2⟩

/-! ## After an unregistration -/

end Buffers

end Caeco.Dma
