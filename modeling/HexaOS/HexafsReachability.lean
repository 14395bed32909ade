import HexaOS.HexafsRuns

/-!
# What the root reaches

The ownership invariant of the store, over whole runs: whatever is reachable from
the root snapshot lies in the object area, is marked in the bitmap and plays one
role only.
-/

namespace HexaOS.Hexafs

open DevicePrograms PackedBytes StoreTyping

/-- The root snapshot, when there is one. -/
def IsRoot (root : UInt32) (b : UInt32) (role : Role) : Prop :=
  root ≠ 0 ∧ b = root ∧ role = .snapshot

/-- Reachable from a root snapshot: along the parents to older snapshots, to their
abstractions with chain blocks, to the objects of the entries and to their content. -/
def Reachable (sectors : UInt32 → Sector) (root : UInt32) : UInt32 → Role → Prop :=
  Reach storeShape sectors (IsRoot root)

/-- What the root of a heap reaches carries its role. -/
theorem Heap.role_of_reachable {sectors : UInt32 → Sector} {roles : UInt32 → Option Role}
    {a : Allocator} {root b : UInt32} {role : Role} (h : Heap sectors roles a)
    (hroot : root ≠ 0 → roles root = some .snapshot) (hreach : Reachable sectors root b role) :
    roles b = some role := by
  refine hreach.role h.typed fun c r hc => ?_
  obtain ⟨hne, rfl, rfl⟩ := hc
  exact hroot hne

section Steps

variable {sectors : UInt32 → Sector} {root absBlock block : UInt32} {i j : ℕ}

/-- The root abstraction is reachable. -/
theorem reachable_rootAbs (hne : rootAbsAt sectors root ≠ 0) :
    Reachable sectors root (rootAbsAt sectors root) .abstraction := by
  by_cases hroot : root = 0
  · rw [rootAbsAt, if_pos hroot] at hne
    exact absurd rfl hne
  · by_cases hmagic : (snapAt sectors root).magic = hexafsSnapMagic
    · rw [rootAbsAt, if_neg hroot, if_pos hmagic] at hne ⊢
      have hbase : Reachable sectors root root .snapshot := .base ⟨hroot, rfl, rfl⟩
      exact hbase.next
        (List.mem_append_right _ (mem_optionalRef.mpr ⟨hne, rfl⟩))
    · rw [rootAbsAt, if_neg hroot, if_neg hmagic] at hne
      exact absurd rfl hne

/-- The object of an entry is reachable from its abstraction. -/
theorem Reachable.entry (h : Reachable sectors root absBlock .abstraction)
    (hsound : AbsSound sectors absBlock) {entry : HexafsAbsEntry}
    (hentry : (absEntries sectors absBlock)[i]? = some entry) :
    Reachable sectors root entry.objectBlock (.object absBlock i) := by
  have hlen := HexafsAbsHeader.length_live hsound.head
  rw [absEntries] at hentry
  rcases Nat.lt_or_ge i (headerAt sectors absBlock).live.length with hlt | hge
  · rw [List.getElem?_append_left hlt] at hentry
    have href : (entry.objectBlock, Role.object absBlock (0 + i)) ∈
        storeShape.refs absBlock .abstraction (sectors absBlock) :=
      List.mem_append_left _ (mem_entryRefs.mpr ⟨i, entry, hentry, rfl⟩)
    rw [Nat.zero_add] at href
    exact h.next href
  · rw [List.getElem?_append_right hge] at hentry
    by_cases hzero : (headerAt sectors absBlock).nextChain = 0
    · rw [if_pos hzero] at hentry
      cases hentry
    · rw [if_neg hzero] at hentry
      have heleven := (hsound.linked hzero).1
      have hchain : Reachable sectors root (headerAt sectors absBlock).nextChain
          (.chain absBlock) :=
        h.next
          (List.mem_append_right _ (mem_optionalRef.mpr ⟨hzero, rfl⟩))
      have href : (entry.objectBlock, Role.object absBlock
          (11 + (i - (headerAt sectors absBlock).live.length))) ∈
            storeShape.refs (headerAt sectors absBlock).nextChain (.chain absBlock)
              (sectors (headerAt sectors absBlock).nextChain) :=
        List.mem_append_left _ (mem_entryRefs.mpr ⟨_, entry, hentry, rfl⟩)
      have hsum : 11 + (i - (headerAt sectors absBlock).live.length) = i := by omega
      rw [hsum] at href
      exact hchain.next href

/-- The content blocks of an object are reachable from it. -/
theorem Reachable.content (h : Reachable sectors root block (.object absBlock i))
    (hok : (objectAt sectors block).Ok) {b : UInt32}
    (hb : (objectAt sectors block).contents[j]? = some b) :
    Reachable sectors root b (.content block j) := by
  obtain ⟨hslot, hne⟩ := hok.getElem?_slots.mpr hb
  have href : (b, Role.content block j) ∈
      storeShape.refs block (.object absBlock i) (sectors block) :=
    mem_slotRefs.mpr ⟨j, b, hslot, hne, rfl⟩
  exact h.next href

end Steps

/-- In every state of a run without sector failures and without a full disk, every
reachable block is an allocated block of the object area with one role. -/
theorem storeRun_reachable {machine : Machine} (h : StoreRun machine) {b : UInt32} {role : Role}
    (hreach : Reachable machine.sectors machine.mem.sbCache.rootSnapBlock b role) :
    (109 ≤ b.toNat ∧ b.toNat ≤ 4095) ∧ bitmapTest machine.mem.allocator.bitmap b.toNat = true ∧
      ∀ role', Reachable machine.sectors machine.mem.sbCache.rootSnapBlock b role' →
        role' = role := by
  obtain ⟨roles, hsettled⟩ := h.settled
  have hheap := hsettled.mounted.store.heap
  have hroot := hsettled.mounted.store.root
  have hrole := hheap.role_of_reachable hroot hreach
  obtain ⟨hin, hused⟩ := hheap.covered b role hrole
  have hlt : b.toNat < 4096 := hin.2
  refine ⟨⟨hin.1, by omega⟩, hused, fun role' hreach' => ?_⟩
  have hrole' := hheap.role_of_reachable hroot hreach'
  rw [hrole] at hrole'
  exact (Option.some.inj hrole').symm

/-- The object of a saved form has one role, and its block is allocated. -/
theorem storeRun_reachable_saved : ∃ (machine : Machine) (absBlock : UInt32)
    (entry : HexafsAbsEntry), StoreRun machine ∧
      (absEntries machine.sectors absBlock)[0]? = some entry ∧
      FormStored machine.sectors entry emptyForm ∧
      Reachable machine.sectors machine.mem.sbCache.rootSnapBlock entry.objectBlock
        (.object absBlock 0) ∧
      bitmapTest machine.mem.allocator.bitmap entry.objectBlock.toNat = true ∧
      ∀ role, Reachable machine.sectors machine.mem.sbCache.rootSnapBlock entry.objectBlock role →
        role = .object absBlock 0 := by
  obtain ⟨machine, roles, hsaved⟩ := exists_savedOne
  have hheap := hsaved.settled.mounted.store.heap
  have hrole := hheap.role_of_reachable hsaved.settled.mounted.store.root
    (reachable_rootAbs hsaved.rootAbs)
  have hentries := hsaved.entries
  cases hlist : absEntries machine.sectors
      (rootAbsAt machine.sectors machine.mem.sbCache.rootSnapBlock) with
  | nil =>
    rw [hlist] at hentries
    cases hentries
  | cons entry rest =>
    rw [hlist] at hentries
    have hentry : (absEntries machine.sectors
        (rootAbsAt machine.sectors machine.mem.sbCache.rootSnapBlock))[0]? = some entry := by
      rw [hlist, List.getElem?_cons_zero]
    have hreach := (reachable_rootAbs hsaved.rootAbs).entry (hheap.absSound hrole) hentry
    obtain ⟨_, hused, hrole⟩ := storeRun_reachable hsaved.run hreach
    exact ⟨machine, _, entry, hsaved.run, hentry, (List.forall₂_cons.mp hentries).1, hreach, hused,
      hrole⟩

end HexaOS.Hexafs
