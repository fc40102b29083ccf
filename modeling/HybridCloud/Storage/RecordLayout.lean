import Mathlib

/-!
# Where the slots of a heap page are

`SmManager::create_table` (src/core/storage/sm_manager.cc) computes how many rows a page takes and
stores it in the file header; `GetDataItemFromPageRW` (src/core/dtx/dtx.cc) finds the row of a slot
behind the page header and the bitmap. The formula leaves room for a `RmFileHdr`, which is shorter
than the `RmPageHdr` that a page begins with.
-/

namespace HeapLayout

def PAGE_SIZE : Nat := 4096
def BITMAP_WIDTH : Nat := 8
def RM_MAX_RECORD_SIZE : Nat := 1080

/-- `sizeof(RmFileHdr)`: five `int`s. -/
def sizeofRmFileHdr : Nat := 20

/-- `sizeof(RmPageHdr)`: two `int`s and two LLSNs. -/
def sizeofRmPageHdr : Nat := 24

def sizeofDataItem : Nat := 72
def sizeofItemkey : Nat := 8

/-- `ColType`. -/
inductive ColType where
  | int
  | float
  | string
  | itemkey
  deriving DecidableEq

/-- `ColDef`; its length is an `int` that nobody checks. -/
structure ColDef where
  name : String
  type : ColType
  len : Int

/-- `RmFileHdr`, as `create_table` fills it in. -/
structure RmFileHdr where
  recordSize : Nat
  numPages : Nat
  numRecordsPerPage : Nat
  bitmapSize : Nat
  deriving DecidableEq, Repr

/-- The last `curr_offset`: the key is not stored in the tuple. -/
def currOffset (cols : List ColDef) : Int :=
  cols.foldl (fun offset col => if col.type = .itemkey then offset else offset + col.len) 0

/-- `num_records_per_page_`. -/
def numRecordsPerPage (recordSize : Nat) : Nat :=
  (BITMAP_WIDTH * (PAGE_SIZE - 1 - sizeofRmFileHdr) + 1) /
    (1 + (recordSize + sizeofItemkey) * BITMAP_WIDTH)

/-- The file header that `create_table` writes; none for `RECORD_TOO_LARGE`. -/
def createTable (cols : List ColDef) : Option RmFileHdr :=
  let recordSize := currOffset cols + sizeofDataItem
  if recordSize < 1 ∨ RM_MAX_RECORD_SIZE < recordSize then none
  else
    let n := numRecordsPerPage recordSize.toNat
    some {
      recordSize := recordSize.toNat
      numPages := 1
      numRecordsPerPage := n
      bitmapSize := (n + BITMAP_WIDTH - 1) / BITMAP_WIDTH }

namespace RmFileHdr

variable (hdr : RmFileHdr)

/-- The bytes of a slot: the key, the `DataItem` and the value. -/
def slotSize : Nat := hdr.recordSize + sizeofItemkey

/-- The offset of the first slot. -/
def slots : Nat := sizeofRmPageHdr + hdr.bitmapSize

/-- The offset of a slot. -/
def tuple (slotNo : Nat) : Nat := hdr.slots + slotNo * hdr.slotSize

/-- The header without the one field that changes while the file exists. -/
def layout : RmFileHdr := { hdr with numPages := 0 }

/-- There is a slot, every slot has a bit, and the slots lie one behind the other between the bitmap
and the end of the page. -/
structure SlotsInside : Prop where
  slot : 1 ≤ hdr.numRecordsPerPage
  bits : hdr.numRecordsPerPage ≤ BITMAP_WIDTH * hdr.bitmapSize
  room : hdr.slots + hdr.numRecordsPerPage * hdr.slotSize ≤ PAGE_SIZE
  behind : ∀ i, sizeofRmPageHdr + hdr.bitmapSize ≤ hdr.tuple i
  disjoint : ∀ i j, i < j → hdr.tuple i + hdr.slotSize ≤ hdr.tuple j
  inside : ∀ i < hdr.numRecordsPerPage, hdr.tuple i + hdr.slotSize ≤ PAGE_SIZE

variable {hdr}

theorem tuple_add_slotSize_le {i j : Nat} (hij : i < j) :
    hdr.tuple i + hdr.slotSize ≤ hdr.tuple j := by
  have hmul : (i + 1) * hdr.slotSize ≤ j * hdr.slotSize := Nat.mul_le_mul_right _ hij
  rw [Nat.succ_mul] at hmul
  unfold tuple
  omega

theorem slotsInside_of_room (slot : 1 ≤ hdr.numRecordsPerPage)
    (bits : hdr.numRecordsPerPage ≤ BITMAP_WIDTH * hdr.bitmapSize)
    (room : hdr.slots + hdr.numRecordsPerPage * hdr.slotSize ≤ PAGE_SIZE) : hdr.SlotsInside := by
  refine ⟨slot, bits, room, fun i => Nat.le_add_right _ _, fun i j => tuple_add_slotSize_le, ?_⟩
  intro i hi
  exact Nat.le_trans (tuple_add_slotSize_le hi) room

end RmFileHdr

/-- The record sizes for which the last slot ends behind the page. -/
def overfull : List Nat := [4, 11, 25, 27, 75, 102, 105, 169, 177, 501, 574, 671, 1010]

theorem room_iff {recordSize : Nat} (hmax : recordSize ≤ RM_MAX_RECORD_SIZE)
    (hpos : 1 ≤ recordSize) :
    sizeofRmPageHdr + (numRecordsPerPage recordSize + BITMAP_WIDTH - 1) / BITMAP_WIDTH +
        numRecordsPerPage recordSize * (recordSize + sizeofItemkey) ≤ PAGE_SIZE ↔
      recordSize ∉ overfull := by
  -- one byte too much or not depends on two remainders, so all sizes are looked at
  have hall : ∀ size < RM_MAX_RECORD_SIZE + 1, 1 ≤ size →
      (sizeofRmPageHdr + (numRecordsPerPage size + BITMAP_WIDTH - 1) / BITMAP_WIDTH +
        numRecordsPerPage size * (size + sizeofItemkey) ≤ PAGE_SIZE ↔ size ∉ overfull) := by
    decide +kernel
  exact hall recordSize (Nat.lt_succ_of_le hmax) hpos

/-- The slots of a page are where they should be exactly if the record size is not one of
`overfull`. -/
theorem slotsInside_iff {cols : List ColDef} {hdr : RmFileHdr} (h : createTable cols = some hdr) :
    hdr.SlotsInside ↔ hdr.recordSize ∉ overfull := by
  simp only [createTable, Option.ite_none_left_eq_some, Option.some.injEq] at h
  obtain ⟨hsize, rfl⟩ := h
  have hmax : (currOffset cols + sizeofDataItem).toNat ≤ RM_MAX_RECORD_SIZE := by omega
  have hpos : 1 ≤ (currOffset cols + sizeofDataItem).toNat := by omega
  rw [← room_iff hmax hpos]
  constructor
  · intro h
    exact h.room
  · intro hroom
    refine RmFileHdr.slotsInside_of_room ?_ ?_ hroom
    · apply Nat.div_pos
      · simp only [RM_MAX_RECORD_SIZE, sizeofItemkey, BITMAP_WIDTH, PAGE_SIZE, sizeofRmFileHdr] at *
        omega
      · omega
    · simp only [BITMAP_WIDTH]
      omega

theorem slotsInside_iff_varchar : ∃ hdr,
    createTable [⟨"id", .itemkey, 4⟩, ⟨"name", .string, 28⟩] = some hdr ∧ hdr.SlotsInside := by
  obtain ⟨hdr, h⟩ : ∃ hdr, createTable [⟨"id", .itemkey, 4⟩, ⟨"name", .string, 28⟩] = some hdr :=
    ⟨_, rfl⟩
  refine ⟨hdr, h, (slotsInside_iff h).2 ?_⟩
  obtain rfl := Option.some.inj h
  decide

/-- The last slot of a table with a key and a string of 30 bytes ends three bytes behind the page. -/
theorem slots_beyond_page : ∃ hdr,
    createTable [⟨"id", .itemkey, 4⟩, ⟨"name", .string, 30⟩] = some hdr ∧
      hdr.tuple (hdr.numRecordsPerPage - 1) + hdr.slotSize = PAGE_SIZE + 3 ∧ ¬ hdr.SlotsInside := by
  refine ⟨_, rfl, by decide, ?_⟩
  intro h
  exact absurd h.room (by decide)

end HeapLayout
