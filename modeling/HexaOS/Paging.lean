import HexaOS.Elf
import HexaOS.Kheap
import HexaOS.Processes

/-!
# The page frames and the page tables

paging.c, the calls of syscall.c that map pages, and cmd_exec with proc_create_user. The kernel
reaches its directories and tables through their physical addresses, that is, by accesses that
go through the page tables themselves; so every load and store here is translated by the
directory in cr3. An access to a page that is not present stops the call: the handler either
kills the task or comes back to the same instruction for ever. The content of forms and the
statics of the kernel are values, not bytes of this memory.
-/

namespace HexaOS.Paging

open X86 Process Hexafs

/-- The words of the frames of physical memory. -/
def frameWords (memory : Kheap.Memory) (f i : ℕ) : UInt32 :=
  if i < 1024 then memory.word (4096 * f + 4 * i) else 0

/-- The statics of the frame allocator. -/
structure Pmm where
  /-- pmm_bitmap -/
  used : ℕ → Bool
  /-- pmm_max_page -/
  maxPage : ℕ
  /-- pmm_last_alloc -/
  lastAlloc : ℕ

/-- PMM_MAX_MEM -/
def pmmMaxMem : ℕ := 32 * 1024 * 1024

/-- pmm_init, after its loops. -/
def pmmInit (memSize kernelEnd : ℕ) : Pmm :=
  let maxPage := (if memSize > pmmMaxMem then pmmMaxMem else memSize) / 4096
  let kernelPages := min ((kernelEnd + 4095) / 4096) maxPage
  { used := fun page => page = 0 ∨ (0xA0 ≤ page ∧ page < 0x100) ∨ ¬(kernelPages ≤ page ∧
      page < maxPage)
    maxPage := maxPage
    lastAlloc := kernelPages }

/-- A loop of pmm_alloc: the first page that is not used. -/
def Pmm.find (pmm : Pmm) (first last : ℕ) : Option ℕ :=
  (List.range' first (last - first)).find? fun page => !pmm.used page

/-- The page that pmm_alloc takes: from the last one on, then before it. -/
def Pmm.choose (pmm : Pmm) : Option ℕ :=
  (pmm.find pmm.lastAlloc pmm.maxPage).or (pmm.find 1 pmm.lastAlloc)

/-- The state of the paging code. -/
structure PagingState where
  /-- The allocator of frames. -/
  pmm : Pmm
  /-- Physical memory. -/
  memory : Kheap.Memory
  /-- Is paging enabled in cr0? -/
  enabled : Bool
  /-- kernel_page_dir_phys, also kernel_page_dir -/
  kernelPageDir : UInt32
  /-- The statics of process.c and the directory register. -/
  procs : Processes
  /-- What pmm_alloc has returned so far. -/
  granted : List UInt32
  /-- The frames that were used so far as a directory, a table or a start-up stack through
  their physical address. -/
  uses : List UInt32

/-- Code that may stop at an access to the address of a page that is not present. -/
abbrev PagingM : Type → Type := ExceptT UInt32 (StateM PagingState)

/-- Run code. -/
def exec {α : Type} (code : PagingM α) (state : PagingState) : Except UInt32 α × PagingState :=
  code.run.run state

namespace PagingState

/-- The words of physical memory. -/
def words (state : PagingState) : ℕ → ℕ → UInt32 := frameWords state.memory

/-- The physical address of an address. -/
def translate (state : PagingState) (v : UInt32) : Option ℕ :=
  if state.enabled then X86.translate state.words state.procs.cr3 v else some v.toNat

end PagingState

/-- The word at an address. -/
def loadWord (v : UInt32) : PagingM UInt32 := do
  let state ← get
  match state.translate v with
  | some address => pure (state.memory.word address)
  | none => throw v

/-- Store a word at an address. -/
def storeWord (v word : UInt32) : PagingM Unit := do
  let state ← get
  match state.translate v with
  | some address => set { state with memory := state.memory.storeWord address word }
  | none => throw v

/-- Store a byte at an address. -/
def storeByte (v : UInt32) (byte : UInt8) : PagingM Unit := do
  let state ← get
  match state.translate v with
  | some address => set { state with memory := state.memory.store address byte }
  | none => throw v

/-- Note that a frame is used through its physical address. -/
def useFrame (frame : UInt32) : PagingM Unit :=
  modify fun state => { state with uses := state.uses ++ [frame] }

/-- Load the directory register. -/
def setCr3 (dir : UInt32) : PagingM Unit :=
  modify fun state => { state with procs := { state.procs with cr3 := dir } }

/-- Read the directory register. -/
def getCr3 : PagingM UInt32 := do
  let state ← get
  pure state.procs.cr3

/-- pmm_alloc -/
def pmmAlloc : PagingM UInt32 := do
  let state ← get
  match state.pmm.choose with
  | some page =>
    set { state with
      pmm := { state.pmm with
        used := Function.update state.pmm.used page true, lastAlloc := page + 1 }
      granted := state.granted ++ [UInt32.ofNat (4096 * page)] }
    pure (UInt32.ofNat (4096 * page))
  | none => pure 0

/-- `for (int i = 0; i < 1024; i++) base[i] = word(i)`, from `i` on with `left` rounds left. -/
def fillWords (base : UInt32) (word : ℕ → UInt32) : ℕ → ℕ → PagingM Unit
  | 0, _ => pure ()
  | left + 1, i => do
    storeWord (base + 4 * UInt32.ofNat i) (word i)
    fillWords base word left (i + 1)

/-- `for (int i = 0; i < 256; i++) pd[i] = kernel_page_dir[i]`, from `i` on. -/
def copyWords (base source : UInt32) : ℕ → ℕ → PagingM Unit
  | 0, _ => pure ()
  | left + 1, i => do
    let word ← loadWord (source + 4 * UInt32.ofNat i)
    storeWord (base + 4 * UInt32.ofNat i) word
    copyWords base source left (i + 1)

/-- The second loop of paging_init, from table `tbl` on. -/
def identityTables : ℕ → ℕ → PagingM Unit
  | 0, _ => pure ()
  | left + 1, tbl => do
    let pt ← pmmAlloc
    useFrame pt
    fillWords pt (fun i => UInt32.ofNat (tbl * 0x400000 + i * 4096) ||| 0x003) 1024 0
    let state ← get
    storeWord (state.kernelPageDir + 4 * UInt32.ofNat tbl) (pt ||| 0x003)
    identityTables left (tbl + 1)

/-- paging_init -/
def pagingInit : PagingM Unit := do
  let dir ← pmmAlloc
  modify fun state => { state with kernelPageDir := dir }
  useFrame dir
  fillWords dir (fun _ => 0x002) 1024 0
  identityTables 2 0
  setCr3 dir
  modify fun state => { state with enabled := true }

/-- create_user_page_dir -/
def createUserPageDir : PagingM UInt32 := do
  let pd ← pmmAlloc
  useFrame pd
  fillWords pd (fun _ => 0x002) 1024 0
  let state ← get
  useFrame state.kernelPageDir
  copyWords pd state.kernelPageDir 256 0
  pure pd

/-- switch_page_dir -/
def switchPageDir (pd : UInt32) : PagingM Unit := if pd ≠ 0 then setCr3 pd else pure ()

/-- The first half of map_page, map_page_in_dir and map_heap_page: the table for an address,
which is made when the directory has none. -/
def pageTable (pd virt : UInt32) : PagingM UInt32 := do
  let entry := pd + 4 * UInt32.ofNat (directoryIndex virt)
  useFrame pd
  let pde ← loadWord entry
  if !present pde then
    let pt ← pmmAlloc
    useFrame pt
    fillWords pt (fun _ => 0x002) 1024 0
    storeWord entry (pt ||| 0x003)
  let pde ← loadWord entry
  useFrame (pageOf pde)
  pure (pageOf pde)

/-- map_page_in_dir -/
def mapPageInDir (pd virt phys flags : UInt32) : PagingM Unit := do
  let pt ← pageTable pd virt
  storeWord (pt + 4 * UInt32.ofNat (tableIndex virt)) (makeEntry phys flags)

/-- map_page. That cr3 is loaded again only drops old translations. -/
def mapPage (virt phys flags : UInt32) : PagingM Unit := do
  let pd ← getCr3
  mapPageInDir pd virt phys flags

/-- unmap_page -/
def unmapPage (virt : UInt32) : PagingM Unit := do
  let pd ← getCr3
  useFrame pd
  let pde ← loadWord (pd + 4 * UInt32.ofNat (directoryIndex virt))
  if present pde then
    useFrame (pageOf pde)
    storeWord (pageOf pde + 4 * UInt32.ofNat (tableIndex virt)) 0x002

/-- map_heap_page -/
def mapHeapPage (virt : UInt32) : PagingM Unit := do
  let pd ← getCr3
  let pt ← pageTable pd virt
  let pte ← loadWord (pt + 4 * UInt32.ofNat (tableIndex virt))
  if !present pte then
    let phys ← pmmAlloc
    if phys ≠ 0 then
      storeWord (pt + 4 * UInt32.ofNat (tableIndex virt)) (phys ||| 0x003)

/-- The loop of kheap_init. -/
def mapHeapPages : List UInt32 → PagingM Unit
  | [] => pure ()
  | virt :: rest => do
    mapHeapPage virt
    mapHeapPages rest

/-- kheap_init, without the block header that it puts into the heap. -/
def kheapInit : PagingM Unit := do
  mapHeapPages (Elf.pageAddresses Kheap.heapStart (Kheap.heapStart + Kheap.heapInitSize))
  let state ← get
  setCr3 state.kernelPageDir

/-- SYS_EINVAL -/
def sysEinval : UInt32 := 0xFFFFFFFF

/-- SYS_ENOMEM -/
def sysEnomem : UInt32 := 0xFFFFFFFD

/-- The loops that map pages, with what `map` does for a page and its frame. Returns 0 when no
frame is left. -/
def mapPages (map : UInt32 → UInt32 → PagingM Unit) : List UInt32 → PagingM Bool
  | [] => pure true
  | v :: rest => do
    let phys ← pmmAlloc
    if phys = 0 then pure false
    else
      map v phys
      mapPages map rest

/-- `(len + 0xFFF) & ~0xFFF` -/
def roundedLen (len : UInt32) : UInt32 := pageOf (len + 0xFFF)

/-- The address from which sys_mmap maps. -/
def mmapStart (addr : UInt32) : UInt32 := if addr = 0 then 0x40000000 else addr

/-- sys_mmap -/
def sysMmap (addr len : UInt32) : PagingM UInt32 := do
  if len = 0 then pure sysEinval
  else
    let addr := mmapStart addr
    let ok ← mapPages (fun v phys => mapPage v phys 0x007)
      (Elf.pageAddresses addr (addr + roundedLen len))
    if ok then pure addr else pure sysEnomem

/-- The loop of sys_munmap. -/
def unmapPages : List UInt32 → PagingM Unit
  | [] => pure ()
  | v :: rest => do
    unmapPage v
    unmapPages rest

/-- sys_munmap -/
def sysMunmap (addr len : UInt32) : PagingM UInt32 := do
  unmapPages (Elf.pageAddresses addr (addr + roundedLen len))
  pure 0

/-- The stores of elf_load, one after the other. -/
def storeBytes : List (UInt32 × UInt8) → PagingM Unit
  | [] => pure ()
  | (v, byte) :: rest => do
    storeByte v byte
    storeBytes rest

/-- elf_load. Its result is the entry point, or none for -1. -/
def elfLoad (image : Elf.FormImage) : PagingM (Option UInt32) := do
  if Elf.elfValidate image.header then
    storeBytes image.stores
    pure (some image.header.entry)
  else pure none

/-- `*--sp = word` for each word, the last word first. -/
def pushWords (sp : UInt32) : List UInt32 → PagingM Unit
  | [] => pure ()
  | word :: words => do
    storeWord (sp - 4) word
    pushWords (sp - 4) words

/-- proc_create_user. The table of the tasks changes as process.c says; the slot is taken before
the stack and the directory are made. -/
def procCreateUser (entry : UInt32) (name : CString) : PagingM ℤ := do
  let state ← get
  let procs := state.procs
  if procs.numTasks ≥ maxTasks ∨ (deadSlot procs).isNone then pure (-1)
  else
    set { state with procs := (Process.procCreateUser 0 0 entry name procs).2 }
    let userStack ← pmmAlloc
    if userStack = 0 then pure (-1)
    else
      mapPage userStack userStack 0x007
      useFrame userStack
      pushWords (userStack + 4096) (initialFrame 0x20 entry 0x18 0x202 (userStack + 4096)).reverse
      let pageDir ← createUserPageDir
      let created := Process.procCreateUser userStack pageDir entry name procs
      modify fun state => { state with procs := created.2 }
      pure created.1

/-- How cmd_exec ends. -/
inductive ExecOutcome where
  | invalidElf
  | notElf
  | noPageDir
  | outOfMemory
  | loadFailed
  | taskFailed
  | started (pid : ℤ)

/-- cmd_exec, from the check of the size of the form on. -/
def cmdExec (image : Elf.FormImage) (name : CString) : PagingM ExecOutcome := do
  if image.size < Elf.elfHeaderSize then pure .invalidElf
  else if !Elf.elfValidate image.header then pure .notElf
  else
    let userPd ← createUserPageDir
    if userPd = 0 then pure .noPageDir
    else
      let ok ← mapPages (fun v phys => mapPageInDir userPd v phys 0x007)
        (image.segments.flatMap (·.pages))
      if !ok then pure .outOfMemory
      else
        let savedPd ← getCr3
        switchPageDir userPd
        let entry ← elfLoad image
        switchPageDir savedPd
        match entry with
        | none => pure .loadFailed
        | some entry =>
          let pid ← procCreateUser entry name
          if pid < 0 then pure .taskFailed else pure (.started pid)

end HexaOS.Paging
