import Caeco.Kit.Segments

/-!
# The buffers of the AXI DMA driver

The driver keeps a list of the buffers that it has allocated for `mmap`, and one of the
buffers that other drivers have allocated and the program has registered. It looks the
address of a transfer up in them. What the kernel has given out is kept in a ledger: to give
back what is not in it is undefined, and so is to read or write a structure that has been freed.

`none` stands for undefined behaviour. The kernel's answers are arguments. There is one process
that has opened the device, and its mappings are unmapped as a whole.
-/

namespace Caeco.Dma

/-- An address of the program, of the kernel or of the bus. -/
abbrev Addr := BitVec 64

def enoent : Int := 2
def enomem : Int := 12
def efault : Int := 14
def ebusy : Int := 16
def enodev : Int := 19
def einval : Int := 22
def etime : Int := 62

/-! ## What the kernel gives out -/

/-- What the kernel lends to the driver, and has to be given back. -/
inductive Resource where
  /-- A block of `kmalloc`. -/
  | block (id : Nat)
  /-- A region of `dma_alloc_coherent`. -/
  | coherent (size kernAddr dmaAddr : Addr)
  /-- A reference of `dma_buf_get`. -/
  | dmaBuf (id : Nat)
  | attachment (id : Nat)
  /-- A mapping of an attachment. -/
  | sgTable (id : Nat)
deriving Repr, DecidableEq

structure SgTable where
  id : Nat
  nents : Nat
  /-- `sg_dma_address(&sgl[0])` -/
  dmaAddress : Addr
deriving Repr, DecidableEq

/-- `struct axidma_dma_allocation`; `id` is its own block. -/
structure DmaAllocation where
  id : Nat
  size : Addr
  userAddr : Addr
  kernAddr : Addr
  dmaAddr : Addr
deriving Repr, DecidableEq

/-- `struct axidma_external_allocation`; `id` is its own block, which may have been freed. -/
structure ExternalAllocation where
  id : Nat
  fd : BitVec 32
  dmaBuf : Nat
  dmaAttach : Nat
  size : Addr
  userAddr : Addr
  sgTable : SgTable
  freed : Bool
deriving Repr, DecidableEq

def DmaAllocation.resources (a : DmaAllocation) : List Resource :=
  [.coherent a.size a.kernAddr a.dmaAddr, .block a.id]

def ExternalAllocation.resources (e : ExternalAllocation) : List Resource :=
  [.sgTable e.sgTable.id, .attachment e.dmaAttach, .dmaBuf e.dmaBuf, .block e.id]

/-- A mapping in the address space of the program. The driver's own ones have private data,
which says how `dma_mmap_coherent` has mapped them. -/
structure Vma where
  mapping : Mapping 64
  vmPrivateData : Option DmaAllocation
  placed : ∀ a ∈ vmPrivateData, mapping.segment.start = a.userAddr ∧
    mapping.segment.size = a.size ∧ mapping.target = a.dmaAddr
deriving DecidableEq

/-- The structure for a region that is to be mapped at `vma`. -/
def DmaAllocation.make (vma : Segment 64) (id : Nat) (kernAddr dmaAddr : Addr) :
    DmaAllocation where
  id
  size := vma.size
  userAddr := vma.start
  kernAddr
  dmaAddr

def Vma.own (vma : Segment 64) (id : Nat) (kernAddr dmaAddr : Addr) : Vma where
  mapping := ⟨vma, dmaAddr⟩
  vmPrivateData := some (.make vma id kernAddr dmaAddr)
  placed := by
    rintro a ⟨⟩
    exact ⟨rfl, rfl, rfl⟩

/-- A mapping of another driver. -/
def Vma.foreign (mapping : Mapping 64) : Vma := ⟨mapping, none, by simp⟩

/-- The two lists of the driver, which all that open it share, with what is held of the kernel.
Here they belong to one process: an address means the same in all calls. -/
structure Buffers where
  dmabufList : List DmaAllocation
  externalDmabufs : List ExternalAllocation
  vmas : List Vma
  held : List Resource
  /-- The number of blocks that `kmalloc` has given out so far. -/
  blocks : Nat

namespace Buffers

def empty : Buffers := ⟨[], [], [], [], 0⟩

def acquire (r : Resource) (m : Buffers) : Buffers := { m with held := r :: m.held }

def release (r : Resource) (m : Buffers) : Option Buffers :=
  if r ∈ m.held then some { m with held := m.held.erase r } else none

/-- A new block, unlike all before. -/
def kmalloc (m : Buffers) : Buffers :=
  { m with held := .block m.blocks :: m.held, blocks := m.blocks + 1 }

/-- Where the byte that the program sees at an address lies. -/
def physical (m : Buffers) (userAddr : Addr) : Option Addr :=
  Mapping.lookup (m.vmas.map Vma.mapping) userAddr

end Buffers

/-! ## Translation -/

def validDmaRequest (dmaStart dmaSize userAddr userSize : Addr) : Bool :=
  dmaStart ≤ userAddr && userAddr + userSize ≤ dmaStart + dmaSize

/-- `list_for_each` over the external buffers, up to the first that passes the test. Each
structure on the way is read. -/
def firstExternal (test : ExternalAllocation → Bool) :
    List ExternalAllocation → Option (Option ExternalAllocation)
  | [] => some none
  | e :: es => if e.freed then none else if test e then some (some e) else firstExternal test es

/-- The address 0 says that there is no such buffer. -/
def axidmaUservirtToDma (userAddr size : Addr) (m : Buffers) : Option Addr :=
  match m.dmabufList.find? fun a => validDmaRequest a.userAddr a.size userAddr size with
  | some a => some (a.dmaAddr + (userAddr - a.userAddr))
  | none =>
      (firstExternal (fun e => validDmaRequest e.userAddr e.size userAddr size)
        m.externalDmabufs).map fun
        | some e => e.sgTable.dmaAddress + (userAddr - e.userAddr)
        | none => 0

/-! ## Buffers of the driver -/

/-- What the kernel answers while a buffer is allocated. -/
structure MmapAnswers where
  kmalloc : Bool
  /-- The addresses for the kernel and for the bus, unless there is no memory left. -/
  dmaAllocCoherent : Option (Addr × Addr)
  dmaMmapCoherent : Int
deriving Repr, DecidableEq

/-- From the label `free_vma_data` on. -/
def freeVmaData (id : Nat) (rc : Int) (m : Buffers) : Option (Int × Buffers) :=
  (m.release (.block id)).map fun m => (rc, m)

/-- From the label `free_dma_region` on. -/
def freeDmaRegion (a : DmaAllocation) (rc : Int) (m : Buffers) : Option (Int × Buffers) :=
  (m.release (.coherent a.size a.kernAddr a.dmaAddr)).bind (freeVmaData a.id rc)

/-- The buffer is in the address space and in the list. -/
def Buffers.map (vma : Segment 64) (id : Nat) (kernAddr dmaAddr : Addr) (m : Buffers) :
    Buffers :=
  { m with
    vmas := .own vma id kernAddr dmaAddr :: m.vmas
    dmabufList := .make vma id kernAddr dmaAddr :: m.dmabufList }

def axidmaMmap (vma : Segment 64) (answers : MmapAnswers) (m : Buffers) :
    Option (Int × Buffers) :=
  if answers.kmalloc then
    match answers.dmaAllocCoherent with
    | none => freeVmaData m.blocks (-enomem) m.kmalloc
    | some (kernAddr, dmaAddr) =>
        let a := DmaAllocation.make vma m.blocks kernAddr dmaAddr
        let m := m.kmalloc.acquire (.coherent a.size a.kernAddr a.dmaAddr)
        if answers.dmaMmapCoherent < 0 then freeDmaRegion a answers.dmaMmapCoherent m
        else some (0, m.map vma a.id kernAddr dmaAddr)
  else some (-enomem, m)

def axidmaVmaClose (a : DmaAllocation) (m : Buffers) : Option Buffers := do
  let m ← m.release (.coherent a.size a.kernAddr a.dmaAddr)
  { m with dmabufList := m.dmabufList.erase a }.release (.block a.id)

/-- A whole mapping is taken out of the address space. That the program unmaps a part of one is
left out: the kernel would split the mapping, and `axidma_vma_close` would run once for each
part, for there is no `open` that counts them. -/
def Buffers.unmap (vma : Vma) (m : Buffers) : Option Buffers :=
  let m := { m with vmas := m.vmas.erase vma }
  match vma.vmPrivateData with
  | none => some m
  | some a => axidmaVmaClose a m

/-! ## Buffers of other drivers -/

/-- `struct axidma_register_buffer` -/
structure RegisterBuffer where
  fd : BitVec 32
  size : Addr
  userAddr : Addr
deriving Repr, DecidableEq

/-- What the kernel answers while a buffer of another driver is taken in. -/
structure GetAnswers where
  kmalloc : Bool
  dmaBufGet : Except Int Nat
  dmaBufAttach : Except Int Nat
  dmaBufMapAttachment : Except Int SgTable

def freeExtAlloc (id : Nat) (rc : Int) (m : Buffers) : Option (Int × Buffers) :=
  (m.release (.block id)).map fun m => (rc, m)

def putExtDma (id dmaBuf : Nat) (rc : Int) (m : Buffers) : Option (Int × Buffers) :=
  (m.release (.dmaBuf dmaBuf)).bind (freeExtAlloc id rc)

def detachExtDma (id dmaBuf dmaAttach : Nat) (rc : Int) (m : Buffers) : Option (Int × Buffers) :=
  (m.release (.attachment dmaAttach)).bind (putExtDma id dmaBuf rc)

def unmapExtDma (e : ExternalAllocation) (rc : Int) (m : Buffers) : Option (Int × Buffers) :=
  (m.release (.sgTable e.sgTable.id)).bind (detachExtDma e.id e.dmaBuf e.dmaAttach rc)

/-- `list_add` writes to the structure that has been the first of the list. -/
def Buffers.listAdd (e : ExternalAllocation) (m : Buffers) : Option Buffers :=
  if m.externalDmabufs.head?.any ExternalAllocation.freed then none
  else some { m with externalDmabufs := e :: m.externalDmabufs }

def axidmaGetExternal (extBuf : RegisterBuffer) (answers : GetAnswers) (m : Buffers) :
    Option (Int × Buffers) :=
  if answers.kmalloc then
    let id := m.blocks
    let m := m.kmalloc
    match answers.dmaBufGet with
    | .error rc => freeExtAlloc id rc m
    | .ok dmaBuf =>
        let m := m.acquire (.dmaBuf dmaBuf)
        match answers.dmaBufAttach with
        | .error rc => putExtDma id dmaBuf rc m
        | .ok dmaAttach =>
            let m := m.acquire (.attachment dmaAttach)
            match answers.dmaBufMapAttachment with
            | .error rc => detachExtDma id dmaBuf dmaAttach rc m
            | .ok sgTable =>
                let m := m.acquire (.sgTable sgTable.id)
                let e : ExternalAllocation :=
                  ⟨id, extBuf.fd, dmaBuf, dmaAttach, extBuf.size, extBuf.userAddr, sgTable, false⟩
                if sgTable.nents = 1 then (m.listAdd e).map fun m => (0, m)
                else unmapExtDma e (-einval) m
  else some (-enomem, m)

/-- The structure is freed, but stays in the list. -/
def Buffers.free (e : ExternalAllocation) (m : Buffers) : Option Buffers :=
  ({ m with externalDmabufs := m.externalDmabufs.replace e { e with freed := true } }).release
    (.block e.id)

def axidmaPutExternal (userAddr : Addr) (m : Buffers) : Option (Int × Buffers) := do
  let found ← firstExternal (fun e => e.userAddr ≤ userAddr && userAddr ≤ e.userAddr + e.size)
    m.externalDmabufs
  match found with
  | none => some (-enoent, m)
  | some e =>
      let m ← m.release (.sgTable e.sgTable.id)
      let m ← m.release (.attachment e.dmaAttach)
      let m ← m.release (.dmaBuf e.dmaBuf)
      let m ← m.free e
      some (0, m)

/-! ## The ledger -/

namespace Buffers

variable {m m' : Buffers} {r : Resource} {rs : List Resource}

/-- What the driver's lists have to account for. -/
def owed (m : Buffers) : List Resource :=
  m.dmabufList.flatMap DmaAllocation.resources
    ++ (m.externalDmabufs.filter (!·.freed)).flatMap ExternalAllocation.resources

/-- Everything is held once, and nothing else is. -/
def Balanced (m : Buffers) : Prop := m.held.Perm m.owed

theorem release_acquire (r : Resource) (m : Buffers) : (m.acquire r).release r = some m := by
  rw [release, acquire, if_pos List.mem_cons_self, List.erase_cons_head]

/-- To free a new block again leaves only the count. -/
theorem release_kmalloc (m : Buffers) :
    m.kmalloc.release (.block m.blocks) = some { m with blocks := m.blocks + 1 } :=
  release_acquire (.block m.blocks) { m with blocks := m.blocks + 1 }

theorem release_of_perm (h : m.held.Perm (r :: rs)) :
    m.release r = some { m with held := m.held.erase r } ∧ (m.held.erase r).Perm rs := by
  have hmem : r ∈ m.held := h.mem_iff.mpr List.mem_cons_self
  refine ⟨if_pos hmem, ?_⟩
  have herase := h.erase r
  rwa [List.erase_cons_head] at herase

/-- The state after an allocation has been made and mapped. -/
def allocate (vma : Segment 64) (kernAddr dmaAddr : Addr) (m : Buffers) : Buffers :=
  { m with
    vmas := .own vma m.blocks kernAddr dmaAddr :: m.vmas
    dmabufList := .make vma m.blocks kernAddr dmaAddr :: m.dmabufList
    held := (DmaAllocation.make vma m.blocks kernAddr dmaAddr).resources ++ m.held
    blocks := m.blocks + 1 }

/-- The state after a buffer has been registered. -/
def register (e : ExternalAllocation) (m : Buffers) : Buffers :=
  { m with
    externalDmabufs := e :: m.externalDmabufs
    held := e.resources ++ m.held
    blocks := m.blocks + 1 }

end Buffers

/-- **A mapping that fails leaves nothing behind** but the count of the blocks. -/
theorem axidmaMmap_cases (vma : Segment 64) (answers : MmapAnswers) (m : Buffers) :
    (∃ rc < 0, ∃ n, axidmaMmap vma answers m = some (rc, { m with blocks := n })) ∨
      ∃ kernAddr dmaAddr, axidmaMmap vma answers m = some (0, m.allocate vma kernAddr dmaAddr) := by
  rw [axidmaMmap]
  split
  · cases answers.dmaAllocCoherent with
    | none =>
        refine .inl ⟨-enomem, by decide, m.blocks + 1, ?_⟩
        show (m.kmalloc.release (.block m.blocks)).map _ = _
        rw [Buffers.release_kmalloc]
        rfl
    | some region =>
        obtain ⟨kernAddr, dmaAddr⟩ := region
        simp only
        split
        · rename_i hfailed
          refine .inl ⟨answers.dmaMmapCoherent, hfailed, m.blocks + 1, ?_⟩
          rw [freeDmaRegion, Buffers.release_acquire, Option.bind_some]
          show (m.kmalloc.release (.block m.blocks)).map _ = _
          rw [Buffers.release_kmalloc]
          rfl
        · exact .inr ⟨kernAddr, dmaAddr, rfl⟩
  · exact .inl ⟨-enomem, by decide, m.blocks, rfl⟩

/-- What a registration can come to. -/
inductive GotExternal (extBuf : RegisterBuffer) (answers : GetAnswers) (m : Buffers) :
    Option (Int × Buffers) → Prop
  /-- The first structure of the list has been freed. -/
  | undefined (h : ∃ e ∈ m.externalDmabufs, e.freed = true) : GotExternal extBuf answers m none
  | failed (rc : Int) (n : Nat) : GotExternal extBuf answers m (some (rc, { m with blocks := n }))
  | done (e : ExternalAllocation) (hsize : e.size = extBuf.size)
      (haddr : e.userAddr = extBuf.userAddr) (hlive : e.freed = false)
      (hsg : answers.dmaBufMapAttachment = .ok e.sgTable) :
      GotExternal extBuf answers m (some (0, m.register e))

theorem axidmaGetExternal_cases (extBuf : RegisterBuffer) (answers : GetAnswers) (m : Buffers) :
    GotExternal extBuf answers m (axidmaGetExternal extBuf answers m) := by
  rw [axidmaGetExternal]
  split
  · cases hget : answers.dmaBufGet with
    | error rc =>
        simp only [freeExtAlloc, Buffers.release_kmalloc]
        exact .failed rc _
    | ok dmaBuf =>
        cases hattach : answers.dmaBufAttach with
        | error rc =>
            simp only [putExtDma, Buffers.release_acquire, Option.bind_some, freeExtAlloc,
              Buffers.release_kmalloc]
            exact .failed rc _
        | ok dmaAttach =>
            cases hmap : answers.dmaBufMapAttachment with
            | error rc =>
                simp only [detachExtDma, putExtDma, Buffers.release_acquire, Option.bind_some,
                  freeExtAlloc, Buffers.release_kmalloc]
                exact .failed rc _
            | ok sgTable =>
                simp only
                split
                · rw [Buffers.listAdd]
                  split
                  · rename_i hfirst
                    obtain ⟨e, he, hfreed⟩ := (Option.any_eq_true _ _).mp hfirst
                    exact .undefined ⟨e, List.mem_of_mem_head? he, hfreed⟩
                  · exact .done ⟨m.blocks, extBuf.fd, dmaBuf, dmaAttach, extBuf.size,
                      extBuf.userAddr, sgTable, false⟩ rfl rfl rfl hmap
                · simp only [unmapExtDma, detachExtDma, putExtDma, Buffers.release_acquire,
                    Option.bind_some, freeExtAlloc, Buffers.release_kmalloc]
                  exact .failed _ _
  · exact .failed _ m.blocks

/-! ## The list of the external buffers -/

section FirstExternal

variable {test : ExternalAllocation → Bool} {e : ExternalAllocation} {es : List ExternalAllocation}

theorem firstExternal_some (h : firstExternal test es = some (some e)) :
    ∃ before behind, es = before ++ e :: behind ∧ (∀ x ∈ before, test x = false) ∧
      e.freed = false ∧ test e = true := by
  induction es with
  | nil => cases h
  | cons x es ih =>
      rw [firstExternal] at h
      split at h
      · cases h
      · rename_i hfreed
        split at h
        · rename_i htest
          cases h
          exact ⟨[], es, rfl, by simp, by simpa using hfreed, htest⟩
        · rename_i htest
          obtain ⟨before, behind, rfl, hbefore, hfound⟩ := ih h
          exact ⟨x :: before, behind, rfl,
            List.forall_mem_cons.mpr ⟨by simpa using htest, hbefore⟩, hfound⟩

theorem firstExternal_live (h : ∀ x ∈ es, x.freed = false) :
    firstExternal test es = some (es.find? test) := by
  induction es with
  | nil => rfl
  | cons x es ih =>
      obtain ⟨hx, hes⟩ := List.forall_mem_cons.mp h
      rw [firstExternal, hx, List.find?_cons]
      cases htest : test x with
      | true => simp
      | false => simpa using ih hes

theorem firstExternal_undefined (h : firstExternal test es = none) :
    ∃ x ∈ es, x.freed = true := by
  by_contra hnot
  have hlive : ∀ x ∈ es, x.freed = false := by
    intro x hx
    cases hfreed : x.freed with
    | true => exact absurd ⟨x, hx, hfreed⟩ hnot
    | false => rfl
  rw [firstExternal_live hlive] at h
  cases h

end FirstExternal

end Caeco.Dma
