import HybridCloud.Lib.Outcome

/-!
# The search for a deadlock

A transaction that waits for a tuple lock follows the chain of lock holders, from node to node, and
gives up if the chain leads back to itself (`DetectDeadlockByChainWalk`, src/core/dtx/lock_wait.h).
The waits do not change during the walk here.
-/

namespace LockWait

open Outcome Relation

/-- The walk gives up after so many hops. -/
def kMaxChainHops : Nat := 128

/-- `WaitState::flag` -/
inductive WaitFlag where
  | waiting
  | granted
  | reserved
  deriving DecidableEq

/-- `WaitState`, as far as the walk reads it. -/
structure WaitState where
  flag : WaitFlag
  holderTs : Nat
  holderNode : Int

/-- The nodes, and what happens to the walk from outside. -/
structure Cluster where
  computeNodeCount : Int
  /-- `local_waiters_` of every node. -/
  localWaiters : Int → Nat → Option WaitState
  /-- Whether the deadline has been reached at a hop. -/
  expired : Nat → Bool
  /-- Whether the RPC of a hop fails. -/
  failed : Nat → Bool

namespace Cluster

variable (c : Cluster)

/-- `QueryWaiterHolder` on a node: whom `waiterTs` waits for. -/
def queryWaiterHolder (node : Int) (waiterTs : Nat) : Option (Nat × Int) := do
  let st ← c.localWaiters node waiterTs
  if st.flag = .waiting then some (st.holderTs, st.holderNode) else none

/-- Whom `curTs` waits for, asked by RPC on another node. -/
def queryHolderOnNode (hop curTs : Nat) (curNode selfNode : Int) : Option (Nat × Int) :=
  if curNode = selfNode then c.queryWaiterHolder curNode curTs
  else if curNode < 0 ∨ c.computeNodeCount ≤ curNode then none
  else if c.failed hop then none
  else c.queryWaiterHolder curNode curTs

/-- The loop, with the number of hops that are left. -/
def chainWalk (myTs : Nat) (selfNode : Int) : Nat → List Nat → Nat → Int → Outcome Bool
  | 0, _, _, _ => return false
  | left + 1, visited, curTs, curNode =>
    let hop := kMaxChainHops - (left + 1)
    if c.expired hop then return false
    else do
      cassert (hop ≠ kMaxChainHops - 1)
      if curTs = myTs then return true
      else if curTs ∈ visited then return false
      else
        match c.queryHolderOnNode hop curTs curNode selfNode with
        | none => return false
        | some (nextTs, nextNode) =>
          if nextTs = myTs then return true
          else chainWalk myTs selfNode left (curTs :: visited) nextTs nextNode

/-- Does the chain of holders lead back to `myTs`? -/
def detectDeadlockByChainWalk (myTs : Nat) (selfNode : Int) (holderTs : Nat) (holderNode : Int) :
    Outcome Bool :=
  c.chainWalk myTs selfNode kMaxChainHops [myTs] holderTs holderNode

end Cluster

/-! ## The wait-for relation -/

variable {c : Cluster} {wait : Nat → Option (Nat × Int)} {myTs holderTs : Nat}

/-- `t` waits for `h`. -/
def Waits (wait : Nat → Option (Nat × Int)) (t h : Nat) : Prop := ∃ node, wait t = some (h, node)

/-- Node `node` has the wait of transaction `t`, if there is one. -/
def Records (c : Cluster) (wait : Nat → Option (Nat × Int)) (t : Nat) (node : Int) : Prop :=
  0 ≤ node ∧ node < c.computeNodeCount ∧ c.queryWaiterHolder node t = wait t

/-- Following the holders from `holderTs` one comes to `cur`, after the transactions `path`, which are
different from each other and from `myTs`. -/
inductive Walk (wait : Nat → Option (Nat × Int)) (myTs holderTs : Nat) : List Nat → Nat → Prop where
  | start : Walk wait myTs holderTs [] holderTs
  | step {path cur next} : Walk wait myTs holderTs path cur → cur ∉ path → cur ≠ myTs →
      Waits wait cur next → Walk wait myTs holderTs (cur :: path) next

theorem Waits.unique {t h h' : Nat} (hw : Waits wait t h) (hw' : Waits wait t h') : h = h' := by
  obtain ⟨node, hw⟩ := hw
  obtain ⟨node', hw'⟩ := hw'
  rw [hw, Option.some.injEq, Prod.mk.injEq] at hw'
  exact hw'.1

namespace Walk

theorem not_mem {path : List Nat} {cur : Nat} (h : Walk wait myTs holderTs path cur) :
    myTs ∉ path := by
  induction h with
  | start => exact List.not_mem_nil
  | step _ _ hne _ ih => simp [ih, Ne.symm hne]

theorem next_mem {path : List Nat} {cur t u : Nat} (h : Walk wait myTs holderTs path cur)
    (ht : t ∈ path) (hw : Waits wait t u) : u ∈ cur :: path := by
  induction h with
  | start => cases ht
  | @step path cur next _ _ _ hnext ih =>
    rcases List.mem_cons.1 ht with rfl | ht
    · simp [hw.unique hnext]
    · exact List.mem_cons_of_mem _ (ih ht)

/-- A chain that has come back to one of its transactions does not leave them any more. -/
theorem mem_of_reaches {path : List Nat} {cur t : Nat} (h : Walk wait myTs holderTs path cur)
    (hcur : cur ∈ path) (hr : ReflTransGen (Waits wait) cur t) : t ∈ path := by
  induction hr with
  | refl => exact hcur
  | tail _ hw ih =>
    rcases List.mem_cons.1 (h.next_mem ih hw) with rfl | hmem
    · exact hcur
    · exact hmem

end Walk

theorem reaches_iff {cur next : Nat} (hne : cur ≠ myTs) (hw : Waits wait cur next) :
    ReflTransGen (Waits wait) cur myTs ↔ ReflTransGen (Waits wait) next myTs := by
  constructor
  · intro hr
    rcases hr.cases_head with heq | ⟨u, hu, hr⟩
    · exact absurd heq hne
    · rwa [hw.unique hu]
  · exact .head hw

theorem Records.query {t hop : Nat} {node : Int} (selfNode : Int) (h : Records c wait t node)
    (rpc : ∀ hop, c.failed hop = false) : c.queryHolderOnNode hop t node selfNode = wait t := by
  obtain ⟨hpos, hlt, hq⟩ := h
  have hin : ¬ (node < 0 ∨ c.computeNodeCount ≤ node) := by omega
  simp [Cluster.queryHolderOnNode, hin, rpc, hq]

/-- The walk goes on at `cur`; the transactions of the chain so far are those that were visited. -/
theorem chainWalk_spec (selfNode : Int) (rpc : ∀ hop, c.failed hop = false)
    (time : ∀ hop, c.expired hop = false)
    (records : ∀ t h node, wait t = some (h, node) → Records c wait h node)
    (short : ∀ path cur, Walk wait myTs holderTs path cur → path.length < 127) (left : Nat) :
    ∀ {path : List Nat} {cur : Nat} {node : Int}, Walk wait myTs holderTs path cur →
      Records c wait cur node → path.length + left = kMaxChainHops →
      ∃ found, c.chainWalk myTs selfNode left (path ++ [myTs]) cur node = .next found ∧
        (found = true ↔ ReflTransGen (Waits wait) cur myTs) := by
  induction left with
  | zero =>
    intro path cur node hwalk _ hlen
    have := short path cur hwalk
    simp only [kMaxChainHops] at hlen
    omega
  | succ left ih =>
    intro path cur node hwalk hrec hlen
    have hshort := short path cur hwalk
    have hhop : kMaxChainHops - (left + 1) ≠ kMaxChainHops - 1 := by
      simp only [kMaxChainHops] at hlen ⊢
      omega
    simp only [Cluster.chainWalk, time, Bool.false_eq_true, if_false, cassert_bind hhop,
      hrec.query selfNode rpc]
    by_cases hmy : cur = myTs
    · subst hmy
      exact ⟨true, if_pos rfl, by simp [ReflTransGen.refl]⟩
    rw [if_neg hmy]
    by_cases hmem : cur ∈ path
    · refine ⟨false, if_pos (by simp [hmem]), nofun, fun hr => ?_⟩
      exact absurd (hwalk.mem_of_reaches hmem hr) hwalk.not_mem
    rw [if_neg (by simp [hmem, hmy])]
    cases hwait : wait cur with
    | none =>
      refine ⟨false, rfl, nofun, fun hr => ?_⟩
      rcases hr.cases_head with heq | ⟨u, ⟨_, hu⟩, -⟩
      · exact absurd heq hmy
      · rw [hwait] at hu
        cases hu
    | some next =>
      obtain ⟨next, nextNode⟩ := next
      have hw : Waits wait cur next := ⟨nextNode, hwait⟩
      rw [reaches_iff hmy hw]
      by_cases hnext : next = myTs
      · subst hnext
        exact ⟨true, if_pos rfl, by simp [ReflTransGen.refl]⟩
      · rw [← List.cons_append]
        simp only [if_neg hnext]
        exact ih (hwalk.step hmem hmy hw) (records _ _ _ hwait)
          (by rw [List.length_cons]; omega)

/-- The walk finds out whether the chain of holders leads to the caller. For a caller that waits for
`holderTs` this means that it is on a cycle. -/
theorem detectDeadlock_iff {selfNode holderNode : Int} (rpc : ∀ hop, c.failed hop = false)
    (time : ∀ hop, c.expired hop = false)
    (records : ∀ t h node, wait t = some (h, node) → Records c wait h node)
    (holder : Records c wait holderTs holderNode)
    (short : ∀ path cur, Walk wait myTs holderTs path cur → path.length < 127) :
    ∃ found, c.detectDeadlockByChainWalk myTs selfNode holderTs holderNode = .next found ∧
      (found = true ↔ ReflTransGen (Waits wait) holderTs myTs) ∧
      (Waits wait myTs holderTs → (found = true ↔ TransGen (Waits wait) myTs myTs)) := by
  obtain ⟨found, hcall, hiff⟩ :=
    chainWalk_spec selfNode rpc time records short kMaxChainHops .start holder rfl
  refine ⟨found, hcall, hiff, fun hw => hiff.trans ⟨fun hr => .head' hw hr, fun ht => ?_⟩⟩
  obtain ⟨u, hu, hr⟩ := TransGen.head'_iff.1 ht
  rwa [hw.unique hu]

/-- Transactions 2 and 3 wait for each other, and transaction 1 waits behind them. -/
def behindCycle : Nat → Option (Nat × Int)
  | 1 => some (2, 0)
  | 2 => some (3, 0)
  | 3 => some (2, 0)
  | _ => none

/-- The node on which they wait. -/
def oneNode : Cluster where
  computeNodeCount := 1
  localWaiters _ t := (behindCycle t).map fun (h, node) => ⟨.waiting, h, node⟩
  expired _ := false
  failed _ := false

theorem records_behindCycle (t : Nat) : Records oneNode behindCycle t 0 := by
  refine ⟨by decide, by decide, ?_⟩
  simp only [Cluster.queryWaiterHolder, oneNode]
  cases behindCycle t <;> rfl

theorem waits_behindCycle {t h : Nat} {node : Int} (hw : behindCycle t = some (h, node)) :
    (h = 2 ∨ h = 3) ∧ node = 0 := by
  unfold behindCycle at hw
  split at hw <;> cases hw <;> simp

theorem walk_behindCycle (hholder : holderTs = 2 ∨ holderTs = 3) {path : List Nat} {cur : Nat}
    (h : Walk behindCycle myTs holderTs path cur) :
    path.Nodup ∧ path ⊆ [2, 3] ∧ (cur = 2 ∨ cur = 3) := by
  induction h with
  | start => exact ⟨List.nodup_nil, List.nil_subset _, hholder⟩
  | step _ hnew _ hw ih =>
    obtain ⟨hnodup, hpath, hcur⟩ := ih
    obtain ⟨node, hw⟩ := hw
    exact ⟨hnodup.cons hnew, List.cons_subset.2 ⟨by simpa using hcur, hpath⟩,
      (waits_behindCycle hw).1⟩

/-- The walk of transaction 1 runs into the cycle and finds no deadlock; that of transaction 2, which
is on the cycle, finds it. -/
theorem detectDeadlock_iff_behindCycle :
    (oneNode.detectDeadlockByChainWalk 1 0 2 0 = .next false ∧
      ¬ ReflTransGen (Waits behindCycle) 2 1) ∧
    oneNode.detectDeadlockByChainWalk 2 0 3 0 = .next true ∧
      TransGen (Waits behindCycle) 2 2 := by
  have hrec : ∀ t h node, behindCycle t = some (h, node) → Records oneNode behindCycle h node := by
    intro t h node hw
    rw [(waits_behindCycle hw).2]
    exact records_behindCycle h
  have hshort : ∀ {myTs holderTs : Nat}, holderTs = 2 ∨ holderTs = 3 →
      ∀ path cur, Walk behindCycle myTs holderTs path cur → path.length < 127 := by
    intro myTs holderTs hholder path cur hwalk
    obtain ⟨hnodup, hpath, -⟩ := walk_behindCycle hholder hwalk
    exact (hnodup.subperm hpath).length_le.trans_lt (by decide)
  have hfalse : oneNode.detectDeadlockByChainWalk 1 0 2 0 = .next false := rfl
  have htrue : oneNode.detectDeadlockByChainWalk 2 0 3 0 = .next true := rfl
  obtain ⟨found, hwalk, hiff, -⟩ := @detectDeadlock_iff oneNode behindCycle 1 2 0 0
    (fun _ => rfl) (fun _ => rfl) hrec (records_behindCycle 2) (hshort (.inl rfl))
  obtain ⟨found', hwalk', -, hcycle⟩ := @detectDeadlock_iff oneNode behindCycle 2 3 0 0
    (fun _ => rfl) (fun _ => rfl) hrec (records_behindCycle 3) (hshort (.inr rfl))
  obtain rfl := next.inj (hfalse.symm.trans hwalk)
  obtain rfl := next.inj (htrue.symm.trans hwalk')
  exact ⟨⟨hfalse, fun h => Bool.false_ne_true (hiff.2 h)⟩, htrue, (hcycle ⟨0, rfl⟩).1 rfl⟩

end LockWait
