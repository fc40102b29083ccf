import HybridCloud.Lib.BinarySearch
import HybridCloud.Lib.Outcome

/-!
# Nodes of the B-link tree

`BLinkNodeHandle` (src/core/index/bp_tree/blink/blink.h and blink.cc) reads a page as a node of the
tree: a header and two arrays, of keys and of record ids. In an internal node the record id of an
entry has the page of a child, and the first key is not looked at. The arrays are one list of pairs
here, and its length is `num_key`.

Keys are 64 bit numbers that are only compared; page numbers are `int`, with `INVALID_PAGE_ID` for
no page. `order`, the maximal number of keys, follows from the sizes of a page and of its entries.
-/

namespace BLink

open Outcome

/-- No page. -/
def INVALID_PAGE_ID : Int := -1

/-- `NEG_KEY`, the first key of an internal node -/
def NEG_KEY : Nat := 0

/-- `(PAGE_SIZE - sizeof(BLNodeHdr)) / (key_size + sizeof(Rid)) - 1` -/
def ORDER : Nat := (4096 - 32) / (8 + 8) - 1

/-- A record id; in an internal node its page is the child. -/
structure Rid where
  pageNo : Int
  slotNo : Int
  deriving DecidableEq, Repr

/-- A page that is read as a node: `BLNodeHdr`, keys and record ids. -/
structure Node where
  isLeaf : Bool
  isRoot : Bool
  pairs : List (Nat × Rid)
  highKey : Nat
  hasHighKey : Bool
  rightSibling : Int
  prevLeaf : Int
  nextLeaf : Int
  deriving DecidableEq, Repr

namespace Node

/-- A page of zeros. -/
def zero : Node where
  isLeaf := false
  isRoot := false
  pairs := []
  highKey := 0
  hasHighKey := false
  rightSibling := 0
  prevLeaf := 0
  nextLeaf := 0

variable (n : Node)

/-- `get_size` -/
def size : Nat := n.pairs.length

/-- `*get_key(index)` -/
def keyAt (index : Nat) : Nat := (n.pairs.getD index (0, ⟨0, 0⟩)).1

/-- `*get_rid(index)` -/
def ridAt (index : Nat) : Rid := (n.pairs.getD index (0, ⟨0, 0⟩)).2

/-- The child of an entry. -/
def valueAt (index : Nat) : Int := (n.ridAt index).pageNo

/-- `need_to_right`: the key lies behind the node. -/
def needToRight (target : Nat) : Bool :=
  n.hasHighKey && decide (n.highKey ≤ target) && decide (n.rightSibling ≠ INVALID_PAGE_ID)

/-- `lower_bound`: the first key that is not below the target. -/
def lowerBound (target : Nat) : Nat :=
  boundary (fun mid => decide (target ≤ n.keyAt mid)) n.size 0 n.size

/-- `upper_bound`: the first key after the first one that is above the target. -/
def upperBound (target : Nat) : Nat :=
  boundary (fun mid => decide (target < n.keyAt mid)) n.size 1 n.size

/-- The entry at `pos` has the key. -/
def isIt (pos : Nat) (key : Nat) : Bool := n.keyAt pos == key

/-- The check that finds a key: `pos != get_size() && isIt(pos, key)` at its lower bound. -/
def contains (key : Nat) : Bool :=
  n.lowerBound key != n.size && n.isIt (n.lowerBound key) key

/-- Entries are put in at `pos`. -/
def insertPairs (pos : Nat) (new : List (Nat × Rid)) : Outcome Node := do
  cassert (pos ≤ n.size)
  return { n with pairs := n.pairs.take pos ++ new ++ n.pairs.drop pos }

/-- `insert`; the node stays as it is when it has the key. -/
def insert (key : Nat) (value : Rid) : Outcome Node :=
  if n.size = 0 then n.insertPairs 0 [(key, value)]
  else if n.contains key then return n
  else n.insertPairs (n.lowerBound key) [(key, value)]

/-- The entry at `pos` goes. -/
def erasePair (pos : Nat) : Outcome Node := do
  cassert (pos < n.size)
  return { n with pairs := n.pairs.eraseIdx pos }

/-- The entry of the key goes, if there is one. -/
def remove (key : Nat) : Outcome Node :=
  if n.contains key then n.erasePair (n.lowerBound key) else return n

/-- The record id that a leaf has for a key. -/
def leafLookup (key : Nat) : Outcome (Option Rid) := do
  cassert (n.isLeaf = true)
  return if n.contains key then some (n.ridAt (n.lowerBound key)) else none

/-- `find_child`; none for -1. -/
def findChild (child : Int) : Option Nat := n.pairs.findIdx? fun e => e.2.pageNo == child

/-- The child that a search for the key goes to. -/
def childFor (key : Nat) : Int := n.valueAt (n.upperBound key - 1)

/-- The number of entries that stay in the old node of a split. -/
def oldSize : Nat := n.size / 2

/-- `old_node_high_key`, which is also the least key of the new node. -/
def splitKey : Nat := n.keyAt n.oldSize

/-- `set_key(0, key)` -/
def setFirstKey (key : Nat) : List (Nat × Rid) → List (Nat × Rid)
  | [] => []
  | (_, rid) :: rest => (key, rid) :: rest

/-- The new node of a split, on a page of zeros; `page` is the page of the old one. -/
def splitRight (page : Int) : Node :=
  if n.isLeaf then
    { zero with
      isLeaf := true
      pairs := n.pairs.drop n.oldSize
      rightSibling := n.rightSibling
      prevLeaf := page
      nextLeaf := n.nextLeaf }
  else
    { zero with
      isLeaf := false
      pairs := setFirstKey NEG_KEY (n.pairs.drop n.oldSize)
      rightSibling := n.rightSibling
      prevLeaf := INVALID_PAGE_ID
      nextLeaf := INVALID_PAGE_ID }

/-- The old node after a split; `newPage` is the page of the new one. -/
def splitLeft (newPage : Int) : Node :=
  { n with
    pairs := n.pairs.take n.oldSize
    highKey := n.splitKey
    hasHighKey := true
    rightSibling := newPage
    nextLeaf := if n.isLeaf then newPage else n.nextLeaf }

/-- The root that is put above the two halves of the old one. -/
def newRoot (oldPage : Int) (sepKey : Nat) (newPage : Int) : Node :=
  { zero with
    isRoot := true
    pairs := [(NEG_KEY, ⟨oldPage, -1⟩), (sepKey, ⟨newPage, -1⟩)]
    rightSibling := INVALID_PAGE_ID
    prevLeaf := INVALID_PAGE_ID
    nextLeaf := INVALID_PAGE_ID }

end Node

end BLink
