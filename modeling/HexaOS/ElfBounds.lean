import HexaOS.Elf

/-!
# What the loader of ELF programs reads and where it stores

cmd_exec checks that a form holds an ELF header and looks at four fields of it; elf_load looks
at them again. No offset, count, size or address that the headers give is checked after that.
So the accesses stay inside the form and inside the mapped pages exactly for the programs
whose headers happen to be consistent.
-/

namespace HexaOS.Elf

open X86

/-- The offsets of the bytes of a field. -/
def field (offset : UInt32) (width : ℕ) : List UInt32 :=
  (List.range width).map fun k => offset + UInt32.ofNat k

/-- What elf_validate reads: it looks no further than the first field that is wrong. -/
def validateReads (hdr : ElfHeader) : List UInt32 :=
  field 0 4 ++
    if hdr.magic ≠ elfMagic then []
    else field 4 1 ++
      if hdr.arch ≠ 1 then [] else field 18 2 ++ if hdr.machine ≠ 3 then [] else field 16 2

/-- What is read of the header of a program that is accepted: the checks, phoff and phnum. -/
def headerReads (hdr : ElfHeader) : List UInt32 := validateReads hdr ++ field 28 4 ++ field 44 2

/-- What the mapping loop of cmd_exec reads of a program header. -/
def FormImage.mappingReads (image : FormImage) (i : ℕ) : List UInt32 :=
  field (image.progOffset i) 4 ++
    if (image.progHeader i).type = ptLoad then
      field (image.progOffset i + 8) 4 ++ field (image.progOffset i + 20) 4
    else []

/-- What elf_load reads for a program header. -/
def FormImage.loadReads (image : FormImage) (i : ℕ) : List UInt32 :=
  field (image.progOffset i) 4 ++
    if (image.progHeader i).type = ptLoad then
      field (image.progOffset i + 4) 4 ++ field (image.progOffset i + 8) 4 ++
        field (image.progOffset i + 20) 4 ++ field (image.progOffset i + 16) 4 ++
          field (image.progHeader i).offset (image.progHeader i).filesz.toNat
    else []

/-- What the mapping loop of cmd_exec does until it ends or is refused a page. -/
structure MappingPass where
  /-- The offsets of the bytes that it reads. -/
  reads : List UInt32
  /-- The pages that it maps. -/
  mapped : List UInt32
  /-- Was every page granted? -/
  complete : Bool

/-- The pages that the mapping loop asks for at a program header. -/
def FormImage.pagesAt (image : FormImage) (i : ℕ) : List UInt32 :=
  if (image.progHeader i).type = ptLoad then (image.progHeader i).pages else []

/-- The mapping loop of cmd_exec over program headers, when so many pages are granted. -/
def FormImage.mappingPass (image : FormImage) : List ℕ → ℕ → MappingPass
  | [], _ => ⟨[], [], true⟩
  | i :: rest, frames =>
    if (image.pagesAt i).length ≤ frames then
      let later := mappingPass image rest (frames - (image.pagesAt i).length)
      ⟨image.mappingReads i ++ later.reads, image.pagesAt i ++ later.mapped, later.complete⟩
    else ⟨image.mappingReads i, (image.pagesAt i).take frames, false⟩

/-- The accesses of cmd_exec and elf_load to a form. -/
structure ExecAccesses where
  /-- The offsets of the bytes that are read. -/
  reads : List UInt32
  /-- The pages that the mapping loop maps. -/
  mapped : List UInt32
  /-- The addresses that elf_load stores to. -/
  stores : List UInt32

/-- The accesses to a form that is accepted, when so many pages are granted. -/
def FormImage.loadAccesses (image : FormImage) (frames : ℕ) : ExecAccesses :=
  let pass := image.mappingPass image.indices frames
  if pass.complete then
    { reads := headerReads image.header ++ pass.reads ++ headerReads image.header ++
        field 24 4 ++ image.indices.flatMap image.loadReads
      mapped := pass.mapped
      stores := image.stores.map (·.1) }
  else { reads := headerReads image.header ++ pass.reads, mapped := pass.mapped, stores := [] }

/-- The accesses of cmd_exec and elf_load, when so many pages are granted. -/
def FormImage.execAccesses (image : FormImage) (frames : ℕ) : ExecAccesses :=
  if image.size < elfHeaderSize then ⟨[], [], []⟩
  else if elfValidate image.header then image.loadAccesses frames
  else ⟨validateReads image.header, [], []⟩

/-- Reads stay below the size of the form, stores inside the mapped pages. -/
structure ExecAccesses.Confined (accesses : ExecAccesses) (size : UInt32) : Prop where
  /-- The bytes that are read lie in the file. -/
  reads : ∀ offset ∈ accesses.reads, offset < size
  /-- The bytes that are stored lie on pages that were mapped. -/
  stores : ∀ address ∈ accesses.stores, pageOf address ∈ accesses.mapped

/-- The headers of a program are consistent. -/
structure FormImage.InBounds (image : FormImage) : Prop where
  /-- Every program header is inside the form as far as it is read. -/
  headers : ∀ i < image.header.phnum.toNat, (image.progOffset i).toNat +
    (if (image.progHeader i).type = ptLoad then 24 else 4) ≤ image.size.toNat
  /-- The file bytes of every segment are inside the form. -/
  files : ∀ ph ∈ image.segments, ph.filesz = 0 ∨
    ph.offset.toNat + ph.filesz.toNat ≤ image.size.toNat
  /-- What a segment covers, with filesz or with memsz, some segment asks pages for. -/
  pages : ∀ ph ∈ image.segments, ∀ j < max ph.filesz.toNat ph.memsz.toNat,
    ∃ other ∈ image.segments, other.startVirt ≤ ph.vaddr + UInt32.ofNat j ∧
      ph.vaddr + UInt32.ofNat j < other.endVirt

section Words

/-- A field lies below a bound when its first byte and its end do. -/
theorem field_lt_iff {offset size : UInt32} {width : ℕ} (hwidth : width < 2 ^ 32) :
    (∀ o ∈ field offset width, o < size) ↔ width = 0 ∨ offset.toNat + width ≤ size.toNat := by
  have hsize := size.toNat_lt
  have hoffset := offset.toNat_lt
  simp only [field, List.mem_map, List.mem_range, forall_exists_index, and_imp,
    forall_apply_eq_imp_iff₂, UInt32.lt_iff_toNat_lt, UInt32.toNat_add, UInt32.toNat_ofNat']
  constructor
  · intro h
    by_contra hnot
    have ⟨hpos, hover⟩ := not_or.mp hnot
    have hfirst := h 0 (Nat.pos_of_ne_zero hpos)
    rw [Nat.mod_eq_of_lt (by omega : 0 < 2 ^ 32), Nat.add_zero, Nat.mod_eq_of_lt hoffset] at hfirst
    -- the byte at `size` itself is one of the field
    have hlast := h (size.toNat - offset.toNat) (by omega)
    rw [Nat.mod_eq_of_lt (by omega : size.toNat - offset.toNat < 2 ^ 32),
      Nat.mod_eq_of_lt (by omega)] at hlast
    omega
  · intro h k hk
    rw [Nat.mod_eq_of_lt (by omega : k < 2 ^ 32), Nat.mod_eq_of_lt (by omega)]
    omega

end Words

section Passes

variable (image : FormImage)

/-- When every page is granted, the mapping loop reads all headers and maps all pages. -/
theorem mappingPass_complete (list : List ℕ) (frames : ℕ) :
    (image.mappingPass list frames).complete = true →
      (image.mappingPass list frames).mapped = list.flatMap image.pagesAt := by
  induction list generalizing frames with
  | nil => exact fun _ => rfl
  | cons i rest ih =>
    rw [FormImage.mappingPass, List.flatMap_cons]
    split
    · intro hcomplete
      exact congrArg _ (ih _ hcomplete)
    · exact nofun

/-- With enough pages granted, the mapping loop ends and has read every program header. -/
theorem mappingPass_enough (list : List ℕ) {frames : ℕ}
    (hframes : (list.flatMap image.pagesAt).length ≤ frames) :
    (image.mappingPass list frames).complete = true ∧
      (image.mappingPass list frames).reads = list.flatMap image.mappingReads := by
  induction list generalizing frames with
  | nil => exact ⟨rfl, rfl⟩
  | cons i rest ih =>
    rw [List.flatMap_cons, List.length_append] at hframes
    have ⟨hcomplete, hreads⟩ := @ih (frames - (image.pagesAt i).length) (by omega)
    rw [FormImage.mappingPass, if_pos (by omega), List.flatMap_cons, ← hreads]
    exact ⟨hcomplete, rfl⟩

/-- However many pages are granted, only program headers are read. -/
theorem mappingPass_reads (list : List ℕ) (frames : ℕ) :
    ∀ o ∈ (image.mappingPass list frames).reads, ∃ i ∈ list, o ∈ image.mappingReads i := by
  induction list generalizing frames with
  | nil => exact nofun
  | cons i rest ih =>
    intro o ho
    rw [FormImage.mappingPass] at ho
    split at ho
    · rcases List.mem_append.mp ho with hhere | hlater
      · exact ⟨i, List.mem_cons_self, hhere⟩
      · have ⟨j, hj, hread⟩ := ih _ o hlater
        exact ⟨j, List.mem_cons_of_mem _ hj, hread⟩
    · exact ⟨i, List.mem_cons_self, ho⟩

end Passes

section Bounds

variable {image : FormImage}

/-- The addresses that elf_load stores to. -/
theorem mem_stores {address : UInt32} : address ∈ image.stores.map (·.1) ↔
    ∃ ph ∈ image.segments, ∃ j < max ph.filesz.toNat ph.memsz.toNat,
      address = ph.vaddr + UInt32.ofNat j := by
  simp only [FormImage.stores, ElfProgHeader.stores, List.map_flatMap, List.map_append,
    List.map_map, List.mem_flatMap, List.mem_append, List.mem_map, List.mem_range,
    List.mem_range'_1, Function.comp_apply]
  refine exists_congr fun ph => and_congr_right fun _ => ⟨?_, ?_⟩
  · rintro (⟨j, hj, rfl⟩ | ⟨j, hj, rfl⟩)
    · exact ⟨j, lt_max_of_lt_left hj, rfl⟩
    · exact ⟨j, by omega, rfl⟩
  · rintro ⟨j, hj, rfl⟩
    rcases Nat.lt_or_ge j ph.filesz.toNat with hfile | hzero
    · exact .inl ⟨j, hfile, rfl⟩
    · exact .inr ⟨j, by omega, rfl⟩

/-- The loaded segments by their indices. -/
theorem mem_segments {ph : ElfProgHeader} : ph ∈ image.segments ↔
    ∃ i < image.header.phnum.toNat, image.progHeader i = ph ∧ ph.type = ptLoad := by
  simp only [FormImage.segments, FormImage.indices, List.mem_filter, List.mem_map, List.mem_range,
    decide_eq_true_eq]
  constructor
  · rintro ⟨⟨i, hi, hph⟩, hload⟩
    exact ⟨i, hi, hph, hload⟩
  · rintro ⟨i, hi, hph, hload⟩
    exact ⟨⟨i, hi, hph⟩, hload⟩

/-- The stores of a program stay inside the pages that its segments ask for. -/
theorem stores_mapped_iff : (∀ address ∈ image.stores.map (·.1),
      pageOf address ∈ image.indices.flatMap image.pagesAt) ↔
    ∀ ph ∈ image.segments, ∀ j < max ph.filesz.toNat ph.memsz.toNat,
      ∃ other ∈ image.segments, other.startVirt ≤ ph.vaddr + UInt32.ofNat j ∧
        ph.vaddr + UInt32.ofNat j < other.endVirt := by
  have hpage : ∀ address, pageOf address ∈ image.indices.flatMap image.pagesAt ↔
      ∃ other ∈ image.segments, other.startVirt ≤ address ∧ address < other.endVirt := by
    intro address
    rw [List.mem_flatMap]
    constructor
    · rintro ⟨i, hi, hmem⟩
      rw [FormImage.pagesAt] at hmem
      split at hmem
      · rename_i hload
        exact ⟨_, mem_segments.mpr ⟨i, List.mem_range.mp hi, rfl, hload⟩,
          (ElfProgHeader.mem_pages _).mp hmem⟩
      · exact nomatch hmem
    · rintro ⟨other, hother, hbetween⟩
      have ⟨i, hi, hph, hload⟩ := mem_segments.mp hother
      refine ⟨i, List.mem_range.mpr hi, ?_⟩
      rw [FormImage.pagesAt, hph, if_pos hload]
      exact other.mem_pages.mpr hbetween
  constructor
  · intro h ph hph j hj
    exact (hpage _).mp (h _ (mem_stores.mpr ⟨ph, hph, j, hj, rfl⟩))
  · intro h address haddress
    have ⟨ph, hph, j, hj, heq⟩ := mem_stores.mp haddress
    rw [heq]
    exact (hpage _).mpr (h ph hph j hj)

/-- The reads of a program header stay inside the form exactly when it does as far as it is
read, with its file bytes. -/
theorem header_reads_iff (image : FormImage) (i : ℕ) :
    ((∀ o ∈ image.mappingReads i, o < image.size) ∧ ∀ o ∈ image.loadReads i, o < image.size) ↔
      (image.progOffset i).toNat +
        (if (image.progHeader i).type = ptLoad then 24 else 4) ≤ image.size.toNat ∧
      ((image.progHeader i).type = ptLoad → (image.progHeader i).filesz = 0 ∨
        (image.progHeader i).offset.toNat + (image.progHeader i).filesz.toNat ≤
          image.size.toNat) := by
  have hsize := image.size_lt
  have hat := (image.progOffset i).toNat_lt
  have hfield : ∀ offset, (∀ o ∈ field offset 4, o < image.size) ↔
      offset.toNat + 4 ≤ image.size.toNat := by
    intro offset
    rw [field_lt_iff (by decide)]
    omega
  have h4 : (image.progOffset i + 4).toNat = ((image.progOffset i).toNat + 4) % 2 ^ 32 :=
    UInt32.toNat_add _ 4
  have h8 : (image.progOffset i + 8).toNat = ((image.progOffset i).toNat + 8) % 2 ^ 32 :=
    UInt32.toNat_add _ 8
  have h16 : (image.progOffset i + 16).toNat = ((image.progOffset i).toNat + 16) % 2 ^ 32 :=
    UInt32.toNat_add _ 16
  have h20 : (image.progOffset i + 20).toNat = ((image.progOffset i).toNat + 20) % 2 ^ 32 :=
    UInt32.toNat_add _ 20
  have hfile : (∀ o ∈ field (image.progHeader i).offset (image.progHeader i).filesz.toNat,
      o < image.size) ↔ (image.progHeader i).filesz = 0 ∨
        (image.progHeader i).offset.toNat + (image.progHeader i).filesz.toNat ≤
          image.size.toNat := by
    rw [field_lt_iff (image.progHeader i).filesz.toNat_lt, ← UInt32.toNat_inj, UInt32.toNat_zero]
  by_cases hload : (image.progHeader i).type = ptLoad
  · rw [FormImage.mappingReads, FormImage.loadReads, if_pos hload, if_pos hload, if_pos hload]
    have hfields : ((image.progOffset i).toNat + 4 ≤ image.size.toNat ∧
        (image.progOffset i + 4).toNat + 4 ≤ image.size.toNat ∧
          (image.progOffset i + 8).toNat + 4 ≤ image.size.toNat ∧
            (image.progOffset i + 20).toNat + 4 ≤ image.size.toNat ∧
              (image.progOffset i + 16).toNat + 4 ≤ image.size.toNat) ↔
        (image.progOffset i).toNat + 24 ≤ image.size.toNat := by
      rw [h4, h8, h16, h20]
      omega
    simp only [List.forall_mem_append, hfield, hfile, hload, true_implies, ← hfields]
    constructor
    · rintro ⟨-, hstart, ⟨⟨⟨hoffset, hvaddr⟩, hmemsz⟩, hfilesz⟩, hbytes⟩
      exact ⟨⟨hstart, hoffset, hvaddr, hmemsz, hfilesz⟩, hbytes⟩
    · rintro ⟨⟨hstart, hoffset, hvaddr, hmemsz, hfilesz⟩, hbytes⟩
      exact ⟨⟨hstart, hvaddr, hmemsz⟩, hstart, ⟨⟨⟨hoffset, hvaddr⟩, hmemsz⟩, hfilesz⟩, hbytes⟩
  · rw [FormImage.mappingReads, FormImage.loadReads, if_neg hload, if_neg hload, if_neg hload,
      List.append_nil, hfield, and_self, and_iff_left fun hloaded => absurd hloaded hload]

/-- The fields of the ELF header lie inside a form that is long enough for one. -/
theorem headerReads_lt {size : UInt32} (hsize : elfHeaderSize ≤ size) (hdr : ElfHeader) :
    (∀ o ∈ headerReads hdr, o < size) ∧ ∀ o ∈ field 24 4, o < size := by
  have hfield : ∀ (offset : UInt32) (width : ℕ),
      (field offset width).all (· < elfHeaderSize) = true →
        ∀ o ∈ field offset width, o < size := by
    intro offset width hbelow o ho
    have hlt := of_decide_eq_true (List.all_eq_true.mp hbelow o ho)
    exact UInt32.lt_of_lt_of_le hlt hsize
  have h0 := hfield 0 4 (by decide)
  have h4 := hfield 4 1 (by decide)
  have h16 := hfield 16 2 (by decide)
  have h18 := hfield 18 2 (by decide)
  have h28 := hfield 28 4 (by decide)
  have h44 := hfield 44 2 (by decide)
  refine ⟨?_, hfield 24 4 (by decide)⟩
  rw [headerReads, validateReads]
  simp only [List.forall_mem_append]
  refine ⟨⟨⟨h0, ?_⟩, h28⟩, h44⟩
  split
  · exact nofun
  · refine List.forall_mem_append.mpr ⟨h4, ?_⟩
    split
    · exact nofun
    · refine List.forall_mem_append.mpr ⟨h18, ?_⟩
      split
      · exact nofun
      · exact h16

/-- For every form that is accepted: however many pages are granted, cmd_exec and elf_load read
inside the form and elf_load stores inside the pages that are mapped exactly when the headers
are consistent. -/
theorem execAccesses_confined_iff (image : FormImage) (hsize : elfHeaderSize ≤ image.size)
    (hvalid : elfValidate image.header = true) :
    (∀ frames, (image.execAccesses frames).Confined image.size) ↔ image.InBounds := by
  have ⟨hheader, hentry⟩ := headerReads_lt hsize image.header
  have hlong : ¬image.size < elfHeaderSize := UInt32.not_lt.mpr hsize
  have haccesses : ∀ frames, image.execAccesses frames = image.loadAccesses frames := by
    intro frames
    rw [FormImage.execAccesses, if_neg hlong, if_pos hvalid]
  constructor
  · intro h
    -- all pages are granted
    have hconfined := h (image.indices.flatMap image.pagesAt).length
    have ⟨hcomplete, hreads⟩ := mappingPass_enough image image.indices (Nat.le_refl _)
    have hmapped := mappingPass_complete image image.indices _ hcomplete
    rw [haccesses, FormImage.loadAccesses, if_pos hcomplete, hreads, hmapped] at hconfined
    have hall : ∀ i < image.header.phnum.toNat,
        (∀ o ∈ image.mappingReads i, o < image.size) ∧ ∀ o ∈ image.loadReads i, o < image.size := by
      intro i hi
      have hmem := List.mem_range.mpr hi
      refine ⟨fun o ho => hconfined.reads o ?_, fun o ho => hconfined.reads o ?_⟩
      · simp only [List.mem_append]
        exact .inl (.inl (.inl (.inr (List.mem_flatMap.mpr ⟨i, hmem, ho⟩))))
      · simp only [List.mem_append]
        exact .inr (List.mem_flatMap.mpr ⟨i, hmem, ho⟩)
    refine ⟨fun i hi => ((header_reads_iff image i).mp (hall i hi)).1, fun ph hph => ?_,
      stores_mapped_iff.mp hconfined.stores⟩
    have ⟨i, hi, heq, hload⟩ := mem_segments.mp hph
    rw [← heq] at hload ⊢
    exact ((header_reads_iff image i).mp (hall i hi)).2 hload
  · intro h frames
    have hall : ∀ i < image.header.phnum.toNat,
        (∀ o ∈ image.mappingReads i, o < image.size) ∧ ∀ o ∈ image.loadReads i, o < image.size :=
      fun i hi => (header_reads_iff image i).mpr ⟨h.headers i hi, fun hload =>
        h.files _ (mem_segments.mpr ⟨i, hi, rfl, hload⟩)⟩
    have hpass : ∀ o ∈ (image.mappingPass image.indices frames).reads, o < image.size := by
      intro o ho
      have ⟨i, hi, hread⟩ := mappingPass_reads image image.indices frames o ho
      exact (hall i (List.mem_range.mp hi)).1 o hread
    rw [haccesses, FormImage.loadAccesses]
    split
    · rename_i hcomplete
      refine ⟨?_, ?_⟩
      · have hload : ∀ o ∈ image.indices.flatMap image.loadReads, o < image.size := by
          intro o ho
          have ⟨i, hi, hread⟩ := List.mem_flatMap.mp ho
          exact (hall i (List.mem_range.mp hi)).2 o hread
        simp only [List.forall_mem_append]
        exact ⟨⟨⟨⟨hheader, hpass⟩, hheader⟩, hentry⟩, hload⟩
      · rw [mappingPass_complete image image.indices frames hcomplete]
        exact stores_mapped_iff.mpr h.pages
    · exact ⟨List.forall_mem_append.mpr ⟨hheader, hpass⟩, nofun⟩

end Bounds

/-- A program of one segment with four file bytes. -/
def smallProgram (filesz memsz : UInt32) : List UInt8 :=
  [elfMagic, 1, 0, 0, 0x00030002, 1, 0x40000000, 52, 0, 0, 0x00200034, 1, 0,
    ptLoad, 84, 0x40000000, 0, filesz, memsz, 5, 4096, 0x90909090].flatMap PackedBytes.bytesOfWord

/-- The form that holds such a program, with zeros behind it. -/
def smallImage (filesz memsz : UInt32) : FormImage where
  bytes offset := (smallProgram filesz memsz).getD offset.toNat 0
  size := 88
  size_lt := by decide

/-- A program that is loaded inside its bounds. -/
theorem execAccesses_confined_small : ((smallImage 4 4).execAccesses 2).Confined 88 :=
  (execAccesses_confined_iff (smallImage 4 4) (by decide) (by decide +kernel)).mpr
    ⟨by decide +kernel, by decide +kernel, by decide +kernel⟩ 2

/-- A program with file bytes and no memory: elf_load stores to pages that nobody mapped. -/
theorem execAccesses_unconfined : elfValidate (smallImage 4 0).header = true ∧
    ¬∀ frames, ((smallImage 4 0).execAccesses frames).Confined 88 := by
  refine ⟨by decide +kernel, fun h => ?_⟩
  have hmapped := (h 0).stores 0x40000000 (by decide +kernel)
  exact absurd hmapped (by decide +kernel)

end HexaOS.Elf
