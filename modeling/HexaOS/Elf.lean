import HexaOS.PackedBytes
import HexaOS.X86Paging

/-!
# ELF programs in forms

The headers of elf.h, elf_validate, and what the two loops over the program headers read,
map and store: the mapping loop of cmd_exec takes its pages from vaddr and memsz, elf_load
copies filesz bytes and clears the rest up to memsz. All sums are 32-bit sums, so they wrap.
The content of a form is read through a pointer, which also reaches what lies behind it in
memory.
-/

namespace HexaOS.Elf

open PackedBytes X86

/-- The content of a form, as a pointer to it sees it. -/
structure FormImage where
  /-- The byte at an offset; those from `size` on are no part of the form. -/
  bytes : UInt32 → UInt8
  /-- form_table[idx].size, as an unsigned word -/
  size : UInt32
  /-- The size of a form is an int that is not negative. -/
  size_lt : size.toNat < 2 ^ 31

namespace FormImage

variable (image : FormImage)

/-- The 32-bit field at an offset. -/
def word (offset : UInt32) : UInt32 :=
  wordOfBytes (image.bytes offset) (image.bytes (offset + 1)) (image.bytes (offset + 2))
    (image.bytes (offset + 3))

/-- The 16-bit field at an offset. -/
def half (offset : UInt32) : UInt16 :=
  halfOfBytes (image.bytes offset) (image.bytes (offset + 1))

end FormImage

/-- sizeof(struct elf_header) -/
def elfHeaderSize : UInt32 := 52

/-- ELF_MAGIC -/
def elfMagic : UInt32 := 0x464C457F

/-- PT_LOAD -/
def ptLoad : UInt32 := 1

/-- PAGE_SIZE -/
def pageSize : UInt32 := 4096

/-- The fields of struct elf_header that the kernel reads. -/
structure ElfHeader where
  /-- The bytes 0x7F, E, L, F. -/
  magic : UInt32
  /-- 1 for 32 bits. -/
  arch : UInt8
  /-- 2 for an executable. -/
  type : UInt16
  /-- 3 for the 386. -/
  machine : UInt16
  /-- The first instruction. -/
  entry : UInt32
  /-- The offset of the program headers. -/
  phoff : UInt32
  /-- The number of program headers. -/
  phnum : UInt16

/-- The header at the front of a form. -/
def FormImage.header (image : FormImage) : ElfHeader where
  magic := image.word 0
  arch := image.bytes 4
  type := image.half 16
  machine := image.half 18
  entry := image.word 24
  phoff := image.word 28
  phnum := image.half 44

/-- elf_validate -/
def elfValidate (hdr : ElfHeader) : Bool :=
  if hdr.magic ≠ elfMagic then false
  else if hdr.arch ≠ 1 then false
  else if hdr.machine ≠ 3 then false
  else if hdr.type ≠ 2 then false
  else true

/-- The fields of struct elf_prog_header that the kernel reads. -/
structure ElfProgHeader where
  /-- 1 for a segment to load. -/
  type : UInt32
  /-- The place of the bytes in the file. -/
  offset : UInt32
  /-- The address in memory. -/
  vaddr : UInt32
  /-- The bytes in the file. -/
  filesz : UInt32
  /-- The bytes in memory. -/
  memsz : UInt32

/-- The offset of `ph[i]`, where `ph` is `hdr + hdr->phoff`. -/
def FormImage.progOffset (image : FormImage) (i : ℕ) : UInt32 :=
  image.header.phoff + 32 * UInt32.ofNat i

/-- `ph[i]` -/
def FormImage.progHeader (image : FormImage) (i : ℕ) : ElfProgHeader where
  type := image.word (image.progOffset i)
  offset := image.word (image.progOffset i + 4)
  vaddr := image.word (image.progOffset i + 8)
  filesz := image.word (image.progOffset i + 16)
  memsz := image.word (image.progOffset i + 20)

/-- The addresses of a loop `for (v = start; v < end; v += PAGE_SIZE)`, in so many rounds at
most. -/
def pageLoop : ℕ → UInt32 → UInt32 → List UInt32
  | 0, _, _ => []
  | rounds + 1, v, last => if v < last then v :: pageLoop rounds (v + pageSize) last else []

/-- The addresses of such a loop. The address space has 2^20 pages. -/
def pageAddresses (start last : UInt32) : List UInt32 := pageLoop (2 ^ 20) start last

/-- The addresses of a loop whose bounds differ by whole pages. -/
theorem pageLoop_eq {start last : UInt32} {count : ℕ}
    (hcount : start.toNat + 4096 * count = last.toNat) {rounds : ℕ} (hrounds : count ≤ rounds) :
    pageLoop rounds start last =
      (List.range count).map fun k => start + UInt32.ofNat (4096 * k) := by
  induction rounds generalizing start count with
  | zero =>
    rw [Nat.le_zero.mp hrounds]
    rfl
  | succ rounds ih =>
    rw [pageLoop]
    cases count with
    | zero =>
      have hlast : ¬start < last := by
        rw [UInt32.lt_iff_toNat_lt]
        omega
      rw [if_neg hlast]
      rfl
    | succ count =>
      have hlt := last.toNat_lt
      have hnext : (start + pageSize).toNat = start.toNat + 4096 := by
        rw [UInt32.toNat_add]
        exact Nat.mod_eq_of_lt (by simp only [pageSize, UInt32.reduceToNat]; omega)
      have hstart : start < last := by
        rw [UInt32.lt_iff_toNat_lt]
        omega
      have hrest : (start + pageSize).toNat + 4096 * count = last.toNat := by omega
      rw [if_pos hstart, ih hrest (by omega), List.range_succ_eq_map, List.map_cons, List.map_map]
      refine congrArg₂ List.cons (by simp) (List.map_congr_left fun k _ => ?_)
      have hpage : pageSize = UInt32.ofNat 4096 := rfl
      rw [Function.comp_apply, UInt32.add_assoc, hpage, ← UInt32.ofNat_add, Nat.succ_eq_add_one,
        Nat.mul_add, Nat.mul_one, Nat.add_comm 4096]

/-- A loop that starts at its end or behind it has no address. -/
theorem pageAddresses_eq_nil {start last : UInt32} (h : last ≤ start) :
    pageAddresses start last = [] := by
  have hlast : ¬start < last := by
    rw [UInt32.lt_iff_toNat_lt]
    rw [UInt32.le_iff_toNat_le] at h
    omega
  have hstop : ∀ rounds, pageLoop rounds start last = [] := by
    intro rounds
    cases rounds with
    | zero => rfl
    | succ rounds => rw [pageLoop, if_neg hlast]
  exact hstop _

/-- The addresses of a loop whose bounds differ by whole pages lie between them. -/
theorem mem_pageAddresses {start last v : UInt32} (h : start.toNat % 4096 = last.toNat % 4096) :
    v ∈ pageAddresses start last ↔
      start ≤ v ∧ v < last ∧ v.toNat % 4096 = start.toNat % 4096 := by
  have hlt := last.toNat_lt
  have hvlt := v.toNat_lt
  rcases Nat.lt_or_ge start.toNat last.toNat with hstart | hend
  · have hcount : start.toNat + 4096 * ((last.toNat - start.toNat) / 4096) = last.toNat := by
      omega
    rw [pageAddresses, pageLoop_eq hcount (by omega)]
    simp only [List.mem_map, List.mem_range, UInt32.le_iff_toNat_le, UInt32.lt_iff_toNat_lt]
    constructor
    · rintro ⟨k, hk, rfl⟩
      rw [UInt32.toNat_add, UInt32.toNat_ofNat', Nat.mod_eq_of_lt (by omega : 4096 * k < 2 ^ 32),
        Nat.mod_eq_of_lt (by omega)]
      omega
    · rintro ⟨hle, hv, hmod⟩
      refine ⟨(v.toNat - start.toNat) / 4096, by omega, UInt32.toNat_inj.mp ?_⟩
      rw [UInt32.toNat_add, UInt32.toNat_ofNat', Nat.mod_eq_of_lt (by omega), Nat.mod_eq_of_lt
        (by omega)]
      omega
  · rw [pageAddresses_eq_nil (UInt32.le_iff_toNat_le.mpr hend)]
    refine ⟨nofun, fun hv => ?_⟩
    have hle := UInt32.le_iff_toNat_le.mp hv.1
    have hless := UInt32.lt_iff_toNat_lt.mp hv.2.1
    omega

namespace ElfProgHeader

variable (ph : ElfProgHeader)

/-- start_virt -/
def startVirt : UInt32 := pageOf ph.vaddr

/-- end_virt -/
def endVirt : UInt32 := pageOf (ph.vaddr + ph.memsz + 0xFFF)

/-- The pages that the mapping loop of cmd_exec asks for. -/
def pages : List UInt32 := pageAddresses ph.startVirt ph.endVirt

/-- The pages of a segment are those between its rounded ends. -/
theorem mem_pages {v : UInt32} :
    pageOf v ∈ ph.pages ↔ ph.startVirt ≤ v ∧ v < ph.endVirt := by
  have hstart : ph.startVirt.toNat % 4096 = 0 := by
    rw [startVirt, toNat_pageOf, Nat.mul_mod_left]
  have hend : ph.endVirt.toNat % 4096 = 0 := by
    rw [endVirt, toNat_pageOf, Nat.mul_mod_left]
  rw [pages, mem_pageAddresses (hstart.trans hend.symm), UInt32.le_iff_toNat_le,
    UInt32.lt_iff_toNat_lt, UInt32.le_iff_toNat_le, UInt32.lt_iff_toNat_lt, toNat_pageOf]
  omega

/-- The stores of elf_load for a segment: the file bytes, then the zeros. -/
def stores (image : FormImage) : List (UInt32 × UInt8) :=
  ((List.range ph.filesz.toNat).map fun j =>
    (ph.vaddr + UInt32.ofNat j, image.bytes (ph.offset + UInt32.ofNat j))) ++
  ((List.range' ph.filesz.toNat (ph.memsz.toNat - ph.filesz.toNat)).map fun j =>
    (ph.vaddr + UInt32.ofNat j, 0))

/-- seg_end -/
def segEnd : UInt32 := ph.vaddr + ph.memsz

end ElfProgHeader

/-- The indices of the program headers, in the order of the two loops. -/
def FormImage.indices (image : FormImage) : List ℕ := List.range image.header.phnum.toNat

/-- The segments that are loaded. -/
def FormImage.segments (image : FormImage) : List ElfProgHeader :=
  (image.indices.map image.progHeader).filter (·.type = ptLoad)

/-- The stores of elf_load. -/
def FormImage.stores (image : FormImage) : List (UInt32 × UInt8) :=
  image.segments.flatMap fun ph => ph.stores image

/-- `*heap_start` of elf_load -/
def FormImage.heapStart (image : FormImage) : UInt32 :=
  pageOf ((image.segments.map (·.segEnd)).foldl max 0 + 0xFFF)

end HexaOS.Elf
