import HybridCloud.BLink.Node
import HybridCloud.Lib.KeyRange
import HybridCloud.Lib.Transition

/-!
# The B-link tree of one index

`BLinkIndexHandle` (src/core/index/bp_tree/blink/blink.cc), used by one thread: no other thread
changes a page between two of its steps, and no lock of a page is waited for. Pages 0 and 1 are the
leaf header and the file header, page 2 is the first root. A loop of the source that could go on for
ever takes a bound on its rounds, `fuel`, and is blocked when that is used up; the root that is not
marked as such is waited for.

The ghosts give every node of the tree its level, 0 for leaves, and the range of keys that it is
responsible for, and say which nodes were split off in the middle of their level.
-/

namespace BLink

open Outcome Function

/-- The pages of the tree, what the file header says, and the cache of leaves. -/
structure Index where
  pages : Int → Node
  /-- `file_hdr`, page 1 -/
  rootPageId : Int
  lastLeaf : Int
  /-- The number of the page that `rpc_create_page` returns next. -/
  nextPage : Int
  key2leaf : Nat → Option Int
  /-- Ghost: the levels of the nodes. -/
  level : Int → Option Nat
  /-- Ghost: the ranges of the nodes. -/
  range : Int → KeyRange Nat
  /-- Ghost: the nodes that were split off a node with a right sibling, and not split since then. -/
  cut : Int → Bool

namespace Index

/-- The index after it was initialized: an empty root on page 2. -/
def empty : Index where
  pages page :=
    if page = 0 then
      { Node.zero with
        isLeaf := true
        highKey := 2 ^ 64 - 1
        rightSibling := INVALID_PAGE_ID
        prevLeaf := 2
        nextLeaf := 2 }
    else if page = 2 then
      { Node.zero with
        isLeaf := true
        isRoot := true
        highKey := 2 ^ 64 - 1
        rightSibling := INVALID_PAGE_ID }
    else Node.zero
  rootPageId := 2
  lastLeaf := 2
  nextPage := 3
  key2leaf _ := none
  level page := if page = 2 then some 0 else none
  range _ := KeyRange.all
  cut _ := false

variable (s : Index)

/-- One page is written. -/
def setPage (page : Int) (node : Node) : Index :=
  { s with pages := update s.pages page node }

/-- Go right while the node says so: `while (node->need_to_right(key))`. -/
def moveRight (key : Nat) : Nat → Int → Outcome Int
  | 0, _ => .blocked
  | fuel + 1, page =>
    if (s.pages page).needToRight key then moveRight key fuel (s.pages page).rightSibling
    else return page

/-- The loop of `find_leaf_for_search`, `find_leaf_for_insert` and `find_leaf_for_delete` from the
root to a leaf; the trace has the internal nodes on the way, the last one first. -/
def descend (fuel : Nat) (key : Nat) : Nat → Int → List Int → Outcome (Int × List Int)
  | 0, _, _ => .blocked
  | rounds + 1, page, trace =>
    if (s.pages page).isLeaf then
      return (page, trace)
    else do
      let page ← s.moveRight key fuel page
      descend fuel key rounds ((s.pages page).childFor key) (page :: trace)

/-- `find_leaf_for_insert`, and but for the locks also `find_leaf_for_search` and
`find_leaf_for_delete`, which keep no trace. -/
def findLeaf (fuel : Nat) (key : Nat) : Outcome (Int × List Int) := do
  await ((s.pages s.rootPageId).isRoot = true)
  let (page, trace) ← s.descend fuel key fuel s.rootPageId []
  let page ← s.moveRight key fuel page
  return (page, trace)

/-- The tree after `split` of the node on `page`: the new node is on the next page. -/
def splitState (page : Int) : Index :=
  let node := s.pages page
  let newPage := s.nextPage
  let s := s.setPage newPage (node.splitRight page)
  let s :=
    if node.isLeaf ∧ node.nextLeaf ≠ INVALID_PAGE_ID then
      s.setPage node.nextLeaf { s.pages node.nextLeaf with prevLeaf := newPage }
    else s
  let s := s.setPage page (node.splitLeft newPage)
  { s with
    nextPage := newPage + 1
    level := update s.level newPage (s.level page)
    range := update (update s.range newPage ((s.range page).above node.splitKey))
      page ((s.range page).below node.splitKey)
    cut := update (update s.cut newPage
      (decide (node.rightSibling ≠ INVALID_PAGE_ID))) page false }

/-- `split`: the new node and the key at which the old one was cut. -/
def split (order : Nat) (page : Int) : Outcome (Index × Int × Nat) := do
  let node := s.pages page
  cassert (node.size = order)
  cassert (0 < node.oldSize ∧ 0 < node.size - node.oldSize)
  return (s.splitState page, s.nextPage, node.splitKey)

/-- The branch of `insert_into_parent` for a root: a new root above the two nodes. -/
def growRoot (oldPage : Int) (sepKey : Nat) (newPage : Int) : Index :=
  let newRoot := s.nextPage
  let s := s.setPage newRoot (Node.newRoot oldPage sepKey newPage)
  let s := s.setPage oldPage { s.pages oldPage with isRoot := false }
  let s := s.setPage newPage { s.pages newPage with isRoot := false }
  { s with
    nextPage := newRoot + 1
    rootPageId := newRoot
    level := update s.level newRoot ((s.level oldPage).map (· + 1))
    range := update s.range newRoot KeyRange.all
    cut := update s.cut newRoot false }

/-- The parent that `insert_into_parent` settles on. -/
def parentFor (fuel : Nat) (oldPage : Int) (sepKey : Nat) (parent : Int) : Outcome Int :=
  match (s.pages parent).findChild oldPage with
  | some _ => return parent
  | none => do
    cassert ((s.pages parent).needToRight sepKey = true)
    s.moveRight sepKey fuel parent

/-- Where the entry of the new node goes: after that of the old one. -/
def posAfter (parent oldPage : Int) : Nat :=
  match (s.pages parent).findChild oldPage with
  | none => 0
  | some idx => idx + 1

/-- `insert_into_parent`; popping an empty trace is undefined. -/
def insertIntoParent (order fuel : Nat) : List Int → Int → Nat → Int → Index → Outcome Index
  | trace, oldPage, sepKey, newPage, s =>
    if (s.pages oldPage).isRoot then
      return s.growRoot oldPage sepKey newPage
    else
      match trace with
      | [] => .abort
      | parent :: trace => do
        let parent ← s.parentFor fuel oldPage sepKey parent
        let node ← (s.pages parent).insertPairs (s.posAfter parent oldPage)
          [(sepKey, ⟨newPage, -1⟩)]
        let s := s.setPage parent node
        if node.size = order then do
          let (s, bro, minKey) ← s.split order parent
          insertIntoParent order fuel trace parent minKey bro s
        else
          return s

/-- The new node is the last leaf: `last_leaf` of the file header is set. The assert has an assignment
for its condition. -/
def updateLastLeaf (leaf bro : Int) : Outcome Index :=
  if (s.pages bro).nextLeaf = INVALID_PAGE_ID then do
    cassert (leaf ≠ 0)
    return { s with lastLeaf := bro }
  else
    return s

/-- `insert_entry`: the page of the leaf, or `INVALID_PAGE_ID` when the key was there. -/
def insertEntry (order fuel : Nat) (key : Nat) (value : Rid) : Outcome (Index × Int) := do
  let (leaf, trace) ← s.findLeaf fuel key
  cassert ((s.pages leaf).isLeaf = true)
  if (s.pages leaf).contains key then
    return (s, INVALID_PAGE_ID)
  else do
    let node ← (s.pages leaf).insert key value
    cassert ((s.pages leaf).size ≠ node.size)
    let s := s.setPage leaf node
    if node.size = order then do
      let (s, bro, _) ← s.split order leaf
      let s ← s.updateLastLeaf leaf bro
      let s ← insertIntoParent order fuel trace leaf ((s.pages bro).keyAt 0) bro s
      return (s, leaf)
    else
      return (s, leaf)

/-- `delete_entry`: the record id of the key, or `{-1, -1}`. -/
def deleteEntry (fuel : Nat) (key : Nat) : Outcome (Index × Rid) := do
  let (leaf, _) ← s.findLeaf fuel key
  cassert ((s.pages leaf).isLeaf = true)
  let node := s.pages leaf
  if node.size = 0 ∨ node.contains key = false then
    return (s, ⟨-1, -1⟩)
  else do
    let ret := node.ridAt (node.lowerBound key)
    cassert (ret.pageNo ≠ -1)
    let node ← node.remove key
    return (s.setPage leaf node, ret)

/-- `checkIfDirectlyGetPage`; an entry of the cache that is out of date is removed. -/
def checkIfDirectlyGetPage (key : Nat) : Outcome (Index × Option Rid) :=
  match s.key2leaf key with
  | none => return (s, none)
  | some page => do
    cassert ((s.pages page).isLeaf = true)
    let found ← (s.pages page).leafLookup key
    match found with
    | some rid => return (s, some rid)
    | none => return ({ s with key2leaf := update s.key2leaf key none }, none)

/-- The part of `search` that goes down the tree. -/
def searchTree (fuel : Nat) (key : Nat) : Outcome (Index × Option Rid) := do
  let (leaf, _) ← s.findLeaf fuel key
  let found ← (s.pages leaf).leafLookup key
  match found with
  | none => return (s, none)
  | some rid => return ({ s with key2leaf := update s.key2leaf key (some leaf) }, some rid)

/-- `search`: the cached leaf is asked first. -/
def search (fuel : Nat) (key : Nat) : Outcome (Index × Option Rid) := do
  let (s, found) ← s.checkIfDirectlyGetPage key
  match found with
  | some rid => return (s, some rid)
  | none => s.searchTree fuel key

end Index

/-- The index, and what it should contain. -/
structure Store where
  index : Index
  /-- Ghost: the record id of the last insertion of a key that was not deleted since. -/
  contents : Nat → Option Rid

namespace Store

/-- The initialized index, which contains nothing. -/
def start : Store := ⟨Index.empty, fun _ => none⟩

/-- The calls of an index, each with a bound on the rounds of its loops. -/
inductive Action where
  | insertEntry (fuel key : Nat) (value : Rid)
  | deleteEntry (fuel key : Nat)
  | search (fuel key : Nat)

/-- A call and what it makes of the contents. -/
def step (order : Nat) (s : Store) : Action → Outcome Store
  | .insertEntry fuel key value => do
    let (index, _) ← s.index.insertEntry order fuel key value
    return ⟨index, update s.contents key (some value)⟩
  | .deleteEntry fuel key => do
    let (index, _) ← s.index.deleteEntry fuel key
    return ⟨index, update s.contents key none⟩
  | .search fuel key => do
    let (index, _) ← s.index.search fuel key
    return ⟨index, s.contents⟩

/-- Only keys that are not there are inserted. -/
def FreshKeys (s : Store) : Action → Prop
  | .insertEntry _ key _ => s.contents key = none
  | _ => True

instance (s : Store) (a : Action) : Decidable (s.FreshKeys a) :=
  match a with
  | .insertEntry _ key _ => inferInstanceAs (Decidable (s.contents key = none))
  | .deleteEntry _ _ => .isTrue trivial
  | .search _ _ => .isTrue trivial

end Store

end BLink
