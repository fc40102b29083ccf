import HybridCloud.Lib.Outcome
import HybridCloud.Storage.RecordLayout

/-!
# Heap pages and the files that hold them

A heap page (src/core/record/record.h, src/core/base/data_item.h) is a page header, a bitmap of the
slots in use, and one tuple per slot: the item key, the `DataItem` and the value bytes. The model
keeps the parts instead of their byte offsets; equality of pages is equality of all their bytes.
Every row is taken to lie inside its page. For the record sizes `HeapLayout.overfull` the last slot
does not; `RowEnd` has redo at the end of a page.

`PageWrite` lists the kinds of `pwrite` the storage node makes on a heap page: `write_page` writes
the whole page, `update_value` a tuple, a `DataItem` or the page header. Each is one call and is
taken as atomic.
-/

namespace Storage

open Outcome

/-- The value of `DataItem::lock` when nobody holds the tuple. -/
def UNLOCKED : UInt64 := 0

/-- The value of `DataItem::lock` when a transaction holds the tuple. -/
def EXCLUSIVE_LOCKED : UInt64 := 0xFF00000000000000

/-- `RmPageHdr`. -/
structure RmPageHdr where
  nextFreePageNo : Int
  numRecords : Int
  /-- The version of the page. -/
  llsn : Nat
  /-- The version before the last change. -/
  preLLSN : Nat
  deriving DecidableEq, Repr

/-- What every tuple carries besides its key and value. -/
structure DataItem where
  tableId : Int
  lock : UInt64
  /-- The pointer member; it is copied with the other bytes and means nothing on disk. -/
  value : UInt64
  valueSize : Int
  version : Nat
  prevLsn : Nat
  /-- 1: not deleted, 0: deleted. -/
  valid : UInt8
  /-- 1: deleted by the transaction that holds the tuple. -/
  userInsert : UInt8
  /-- The node of the transaction that holds the tuple. -/
  holderNode : UInt8
  /-- The node that unlocks the tuple. -/
  lockOwnerNode : UInt8
  /-- The transaction that last locked the tuple. -/
  timeStamp : Nat
  commitTimeStamp : Nat
  deriving DecidableEq, Repr

/-- The default constructor. -/
def DataItem.init : DataItem where
  tableId := 0
  lock := UNLOCKED
  value := 0
  valueSize := 0
  version := 0
  prevLsn := 0
  valid := 1
  userInsert := 0
  holderNode := 0
  lockOwnerNode := 0
  timeStamp := 0
  commitTimeStamp := 0

/-- The row in a log record. -/
structure RmRecord where
  key : UInt64
  item : DataItem
  value : List UInt8
  deriving DecidableEq, Repr

/-- The row in a slot. -/
structure Tuple where
  key : UInt64
  item : DataItem
  value : List UInt8
  deriving DecidableEq, Repr

/-- A heap page. -/
@[ext]
structure Page where
  hdr : RmPageHdr
  bitmap : Nat → Bool
  slots : Nat → Tuple

/-- The header of a table file, on its page 0. -/
abbrev RmFileHdr := HeapLayout.RmFileHdr

/-- Copy a record over a slot: bytes of the old value beyond the new one stay. -/
def Tuple.overwrite (t : Tuple) (r : RmRecord) : Tuple where
  key := r.key
  item := r.item
  value := r.value ++ t.value.drop r.value.length

/-- A write call. -/
inductive PageWrite where
  /-- `write_page` of a whole image. -/
  | writePage (image : Page)
  /-- `update_value` of a tuple. -/
  | updateTuple (slotNo : Nat) (value : RmRecord)
  /-- `update_value` of a tuple's `DataItem`. -/
  | updateItem (slotNo : Nat) (item : DataItem)
  /-- `update_value` of the page header. -/
  | updateHdr (hdr : RmPageHdr)

namespace Page

/-- What a write call does to the page. -/
def perform (p : Page) : PageWrite → Page
  | .writePage image => image
  | .updateTuple slotNo value =>
    { p with slots := Function.update p.slots slotNo ((p.slots slotNo).overwrite value) }
  | .updateItem slotNo item =>
    { p with slots := Function.update p.slots slotNo { p.slots slotNo with item := item } }
  | .updateHdr hdr => { p with hdr := hdr }

end Page

/-- A table's file: the header on page 0 and the heap pages; `none` past the end of the file. -/
structure TableFile where
  fileHdr : RmFileHdr
  pages : Nat → Option Page

/-- A heap page is named by its table and its number. -/
abbrev PageKey := String × Nat

/-- The table files of the working directory. -/
abbrev Disk := String → Option TableFile

namespace Disk

/-- The page, if it is there. -/
def page (d : Disk) (key : PageKey) : Option Page :=
  (d key.1).bind fun f => f.pages key.2

/-- `read_page` of page 0: a missing file makes it throw. -/
def readFileHdr (d : Disk) (table : String) : Outcome RmFileHdr :=
  match d table with
  | some f => .next f.fileHdr
  | none => .abort

/-- `read_page` of a heap page: a missing file or a page past its end makes it throw. -/
def readPage (d : Disk) (key : PageKey) : Outcome Page :=
  match d.page key with
  | some p => .next p
  | none => .abort

/-- One write call. -/
def perform (d : Disk) (key : PageKey) (w : PageWrite) : Disk :=
  match d key.1 with
  | some f => Function.update d key.1 (some
      { f with pages := Function.update f.pages key.2 ((f.pages key.2).map (·.perform w)) })
  | none => d

/-- The write calls of a record. -/
def performAll (d : Disk) (key : PageKey) (ws : List PageWrite) : Disk :=
  ws.foldl (fun d w => d.perform key w) d

variable {d : Disk} {key key' : PageKey} {w : PageWrite} {ws : List PageWrite} {p : Page}

theorem readPage_eq_next : d.readPage key = .next p ↔ d.page key = some p := by
  unfold readPage
  cases d.page key <;> simp

theorem page_perform : (d.perform key w).page key = (d.page key).map (·.perform w) := by
  unfold page perform
  cases hf : d key.1 with
  | none => simp [hf]
  | some f => simp

theorem page_perform_of_ne (h : key' ≠ key) :
    (d.perform key w).page key' = d.page key' := by
  unfold perform
  cases hf : d key.1 with
  | none => rfl
  | some f =>
    unfold page
    by_cases htable : key'.1 = key.1
    · have hno : key'.2 ≠ key.2 := fun hno => h (Prod.ext htable hno)
      simp [htable, hf, Function.update_of_ne hno]
    · simp [Function.update_of_ne htable]

theorem readFileHdr_perform {table : String} :
    (d.perform key w).readFileHdr table = d.readFileHdr table := by
  unfold readFileHdr perform
  cases hf : d key.1 with
  | none => rfl
  | some f =>
    by_cases htable : table = key.1
    · subst htable
      simp [hf]
    · simp [Function.update_of_ne htable]

theorem page_performAll :
    (d.performAll key ws).page key = (d.page key).map (ws.foldl Page.perform) := by
  induction ws generalizing d with
  | nil => exact Option.map_id'.symm
  | cons w ws ih =>
    show ((d.perform key w).performAll key ws).page key = _
    rw [ih, page_perform, Option.map_map]
    rfl

theorem page_performAll_of_some (h : d.page key = some p) :
    (d.performAll key ws).page key = some (ws.foldl Page.perform p) := by
  rw [page_performAll, h, Option.map_some]

theorem page_performAll_of_ne (h : key' ≠ key) :
    (d.performAll key ws).page key' = d.page key' := by
  induction ws generalizing d with
  | nil => rfl
  | cons w ws ih => exact ih.trans (page_perform_of_ne h)

theorem page_performAll_of_none (h : d.page key' = none) :
    (d.performAll key ws).page key' = none := by
  by_cases hkey : key' = key
  · subst hkey
    rw [page_performAll, h, Option.map_none]
  · rw [page_performAll_of_ne hkey, h]

theorem readFileHdr_performAll {table : String} :
    (d.performAll key ws).readFileHdr table = d.readFileHdr table := by
  induction ws generalizing d with
  | nil => rfl
  | cons w ws ih => exact ih.trans readFileHdr_perform

end Disk

end Storage
