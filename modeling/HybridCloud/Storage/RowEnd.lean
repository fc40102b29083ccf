import HybridCloud.Storage.LogReplay

/-!
# Redo at the end of a page

The slots of a page are computed for a page header that is four bytes too short, so for some record
sizes the last slot ends up to three bytes behind its page (`HeapLayout.overfull`). For an UPDATE
record `apply_single_log` (src/core/storage/logreplay.cc) writes the row with one `update_value`,
whose last bytes are then the first ones of the next page. The row of an INSERT record goes into a
buffer of `PAGE_SIZE` bytes, and only these are written to the file.

Here the rows of records keep their length, and redo has the file header to see where they end. What
lies behind the page are bytes of the value.
-/

namespace Storage

open Outcome HeapLayout

/-- How many bytes of a slot's value lie in its page. -/
def valueRoom (fileHdr : RmFileHdr) (slotNo : Nat) : Nat :=
  PAGE_SIZE - (fileHdr.tuple slotNo + sizeofItemkey + sizeofDataItem)

/-- A row as far as it lies in the page of its slot. -/
def RmRecord.inPage (fileHdr : RmFileHdr) (slotNo : Nat) (r : RmRecord) : RmRecord :=
  { r with value := r.value.take (valueRoom fileHdr slotNo) }

namespace LogBody

/-- A record with its row as far as it lies in the page. -/
def inPage (fileHdr : RmFileHdr) : LogBody → LogBody
  | .insert table rid value => .insert table rid (value.inPage fileHdr rid.slotNo)
  | .update table rid value => .update table rid (value.inPage fileHdr rid.slotNo)
  | body => body

theorem size_inPage_le (fileHdr : RmFileHdr) (body : LogBody) :
    (body.inPage fileHdr).size ≤ body.size := by
  cases body with
  | insert table rid value | update table rid value =>
    have hlen := List.length_take_le' (valueRoom fileHdr rid.slotNo) value.value
    simp only [inPage, RmRecord.inPage, size]
    omega
  | _ => exact Nat.le_refl _

/-- The bytes that redo writes behind the page. -/
def overrun (fileHdr : RmFileHdr) : LogBody → List UInt8
  | .update _ rid value => value.value.drop (valueRoom fileHdr rid.slotNo)
  | _ => []

/-- The row that the record writes ends in its page. -/
def EndsInPage (fileHdr : RmFileHdr) : LogBody → Prop
  | .insert _ rid value | .update _ rid value =>
    fileHdr.tuple rid.slotNo + sizeofItemkey + sizeofDataItem + value.value.length ≤ PAGE_SIZE
  | _ => True

end LogBody

/-- What a record does to its own page. -/
def LogRecord.inPage (fileHdr : RmFileHdr) (log : LogRecord) : LogRecord :=
  { log with
    body := log.body.inPage fileHdr
    fits := (Nat.add_le_add_left (log.body.size_inPage_le fileHdr) _).trans log.fits }

/-- Bytes written over the beginning of a page: the low bytes of `next_free_page_no_`. -/
def RmPageHdr.overwriteStart (hdr : RmPageHdr) (bytes : List UInt8) : RmPageHdr :=
  { hdr with
    nextFreePageNo := hdr.nextFreePageNo - hdr.nextFreePageNo % 256 ^ bytes.length +
      (bytes.foldr (fun b n => b.toNat + 256 * n) 0 : Nat) }

/-- Bytes written from the end of the page `key` on; what does not lie in a page of the file cannot
be read back. -/
def Disk.writeBehind (d : Disk) (key : PageKey) : List UInt8 → Disk
  | [] => d
  | b :: bytes =>
    match d.page (key.1, key.2 + 1) with
    | some p => d.perform (key.1, key.2 + 1) (.updateHdr (p.hdr.overwriteStart (b :: bytes)))
    | none => d

/-- `apply_single_log` of a record that changes the page `key`, and perhaps the one behind it. -/
def LogReplay.applyRow (s : LogReplay) (key : PageKey) (log : LogRecord) : Outcome LogReplay := do
  let fileHdr ← s.disk.readFileHdr key.1
  let page ← s.disk.readPage key
  let ws ← (log.body.inPage fileHdr).redoWrites fileHdr log page
  return { s with
    disk := (s.disk.performAll key ws).writeBehind key (log.body.overrun fileHdr)
    writes := s.writes ++ ws.map (Prod.mk key) }

end Storage
