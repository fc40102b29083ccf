import HybridCloud.Lib.Outcome

/-!
# The conditions of a query in its plan

`Planner::make_one_rel` (src/core/sql_executor/optimizer/planner.cc) gives every condition of a query
to the scan of a table or to a join. `pop_conds` takes a bound on its rounds, `fuel`, and is blocked
when that is used up. `indexCols` stands for `get_index_cols`.
-/

namespace Sql.Planner

open Outcome

/-- A comparison. -/
inductive CompOp where
  | OP_EQ | OP_NE | OP_LT | OP_GT | OP_LE | OP_GE

/-- A column of a table. -/
structure TabCol where
  tabName : String
  colName : String

/-- A condition of the WHERE clause. -/
structure Condition (ν : Type) where
  lhsCol : TabCol
  op : CompOp
  isRhsVal : Bool
  rhsCol : TabCol
  rhsVal : ν

/-- The conditions of a query. -/
abbrev Conds (ν : Type) : Type := List (Condition ν)

/-- `nullptr`, `ScanPlan` and `JoinPlan` -/
inductive Plan (ν : Type) where
  | null
  | scan (tableName : String) (filterConds : Conds ν) (indexCols : List String)
  | join (left right : Plan ν) (conds : Conds ν)

variable {ν : Type}

/-- The loop of `pop_conds`; `passed` are the conditions before `it`. In two branches `it` stays where
it is. -/
def popConds (tabName : String) : Nat → Conds ν → Conds ν → Conds ν → Outcome (Conds ν × Conds ν)
  | 0, _, _, _ => .blocked
  | _ + 1, passed, [], tabConds => return (tabConds, passed)
  | fuel + 1, passed, it :: rest, tabConds =>
    if it.isRhsVal then
      if tabName = it.lhsCol.tabName then popConds tabName fuel passed rest (tabConds ++ [it])
      else popConds tabName fuel passed (it :: rest) tabConds
    else if it.lhsCol.tabName = it.rhsCol.tabName then
      if it.rhsCol.tabName = tabName then popConds tabName fuel passed rest (tabConds ++ [it])
      else popConds tabName fuel passed (it :: rest) tabConds
    else popConds tabName fuel (passed ++ [it]) rest tabConds

/-- The comparison with its sides exchanged. -/
def CompOp.swapOp : CompOp → CompOp
  | OP_EQ => OP_EQ
  | OP_NE => OP_NE
  | OP_LT => OP_GT
  | OP_GT => OP_LT
  | OP_LE => OP_GE
  | OP_GE => OP_LE

/-- The condition with its sides exchanged. -/
def Condition.swapped (c : Condition ν) : Condition ν :=
  { c with lhsCol := c.rhsCol, rhsCol := c.lhsCol, op := c.op.swapOp }

/-- No plan. -/
def Plan.isNull : Plan ν → Bool
  | null => true
  | _ => false

/-- The plan is a scan of the table. -/
def Plan.reads (table : String) : Plan ν → Bool
  | scan name _ _ => name = table
  | _ => false

/-- `push_conds`, with the plan afterwards. -/
def pushConds (cond : Condition ν) : Plan ν → Nat × Plan ν
  | .null => (0, .null)
  | .scan name conds cols =>
    (if name = cond.lhsCol.tabName then 1 else if name = cond.rhsCol.tabName then 2 else 0,
      .scan name conds cols)
  | .join l r conds =>
    let (leftRes, left) := pushConds cond l
    let (rightRes, right) := pushConds cond r
    if leftRes = 3 then (3, .join left r conds)
    else if rightRes = 3 then (3, .join left right conds)
    else if leftRes = 0 ∨ rightRes = 0 then (leftRes + rightRes, .join left right conds)
    else (3, .join left right (conds ++ [if leftRes = 2 then cond.swapped else cond]))

/-- `scantbl` and `joined_tables`, which begins with an empty string for each table. -/
structure Joined where
  scantbl : List Bool
  joinedTables : List String

/-- `pop_scan`: the scan of the table is marked as joined. -/
def popScan (scans : List (Plan ν)) (table : String) (j : Joined) : Plan ν × Joined :=
  match scans.findIdx? (·.reads table) with
  | none => (.null, j)
  | some i => (scans.getD i .null, ⟨j.scantbl.set i true, j.joinedTables ++ [table]⟩)

/-- A condition after the first one that is left for the joins. -/
def joinCond (scans : List (Plan ν)) (r : Joined × Plan ν) (it : Condition ν) : Joined × Plan ν :=
  let (j, plan) := r
  let (left, j) := if it.lhsCol.tabName ∈ j.joinedTables then (.null, j)
    else popScan scans it.lhsCol.tabName j
  let isneedreverse := decide (it.rhsCol.tabName ∉ j.joinedTables)
  let (right, j) := if isneedreverse then popScan scans it.rhsCol.tabName j else (.null, j)
  if left.isNull = false ∧ right.isNull = false then
    (j, .join (.join left right [it]) plan [])
  else if left.isNull = false ∨ right.isNull = false then
    if isneedreverse then (j, .join right plan [it.swapped]) else (j, .join left plan [it])
  else (j, (pushConds it plan).2)

/-- The joins, from the first condition on. -/
def joinScans (scans : List (Plan ν)) : Conds ν → Joined × Plan ν
  | [] => (⟨(List.replicate scans.length false).set 0 true, []⟩, scans.getD 0 .null)
  | it :: conds =>
    let (left, j) := popScan scans it.lhsCol.tabName
      ⟨.replicate scans.length false, .replicate scans.length ""⟩
    let (right, j) := popScan scans it.rhsCol.tabName j
    conds.foldl (joinCond scans) (j, .join left right [it])

/-- `make_one_rel` for more than one table, after the scans have been made. -/
def joinTables (scans : List (Plan ν)) (conds : Conds ν) : Plan ν :=
  let (j, plan) := joinScans scans conds
  (scans.zip j.scantbl).foldl (fun plan x => if x.2 then plan else .join x.1 plan []) plan

section

variable (indexCols : String → Conds ν → List String) (fuel : Nat)

/-- A scan of each table, with the conditions on it alone. -/
def scanTables : List String → Conds ν → Outcome (List (Plan ν) × Conds ν)
  | [], conds => return ([], conds)
  | table :: tables, conds => do
    let (currCond, conds) ← popConds table fuel [] conds []
    let (scans, conds) ← scanTables tables conds
    return (.scan table currCond (indexCols table currCond) :: scans, conds)

/-- `make_one_rel`. -/
def makeOneRel (tables : List String) (conds : Conds ν) : Outcome (Plan ν) :=
  if 2 < tables.length then .abort
  else do
    let (scans, conds) ← scanTables indexCols fuel tables conds
    if let [scan] := scans then return scan
    return joinTables scans conds

end

namespace Condition

/-- The columns belong to one table. -/
def single (c : Condition ν) : Bool := c.isRhsVal || c.lhsCol.tabName = c.rhsCol.tabName

/-- The columns all belong to table `t`. -/
def belongs (t : String) (c : Condition ν) : Bool := c.single && c.lhsCol.tabName = t

end Condition

section Pop

variable {t : String} {c : Condition ν} {fuel : Nat} {passed rest popped : Conds ν}

theorem popConds_cons : popConds t (fuel + 1) passed (c :: rest) popped =
    if c.belongs t then popConds t fuel passed rest (popped ++ [c])
    else if c.single then popConds t fuel passed (c :: rest) popped
    else popConds t fuel (passed ++ [c]) rest popped := by
  rw [popConds]
  by_cases hval : c.isRhsVal = true
  · simp [hval, Condition.belongs, Condition.single, eq_comm]
  · by_cases hsame : c.lhsCol.tabName = c.rhsCol.tabName
    · simp [hval, hsame, Condition.belongs, Condition.single]
    · simp [hval, hsame, Condition.belongs, Condition.single]

/-- A condition of another table alone is never passed. -/
theorem popConds_blocked (hmem : c ∈ rest) (hc : c.single = true) (ht : c.lhsCol.tabName ≠ t) :
    popConds t fuel passed rest popped = .blocked := by
  induction fuel generalizing passed rest popped with
  | zero => rfl
  | succ fuel ih =>
    obtain _ | ⟨x, rest⟩ := rest
    · cases hmem
    · rw [popConds_cons]
      rcases List.mem_cons.1 hmem with rfl | hmem'
      · simp [Condition.belongs, hc, ht, ih hmem]
      · rw [ih hmem', ih hmem, ih hmem', ite_self, ite_self]

theorem popConds_next (passed popped : Conds ν)
    (h : ∀ c ∈ rest, c.single = true → c.lhsCol.tabName = t) (hfuel : rest.length < fuel) :
    popConds t fuel passed rest popped =
      .next (popped ++ rest.filter (·.belongs t), passed ++ rest.filter (!·.belongs t)) := by
  induction rest generalizing fuel passed popped with
  | nil =>
    obtain _ | fuel := fuel
    · cases hfuel
    · simp [popConds]
  | cons x rest ih =>
    obtain _ | fuel := fuel
    · cases hfuel
    · have htail := fun c hc => h c (List.mem_cons_of_mem x hc)
      have hlen : rest.length < fuel := Nat.lt_of_succ_lt_succ hfuel
      rw [popConds_cons, ih _ _ htail hlen, ih _ _ htail hlen]
      by_cases hx : x.single = true
      · simp [Condition.belongs, hx, h x List.mem_cons_self hx]
      · simp [Condition.belongs, hx]

end Pop

/-- All columns of the condition are columns of the tables. -/
def Condition.Over (tables : List String) (c : Condition ν) : Prop :=
  c.lhsCol.tabName ∈ tables ∧ (c.isRhsVal = false → c.rhsCol.tabName ∈ tables)

/-- The condition joins the tables `a` and `b`. -/
def Condition.Joins (a b : String) (c : Condition ν) : Prop :=
  c.single = false ∧ ((c.lhsCol.tabName = a ∧ c.rhsCol.tabName = b) ∨
    c.lhsCol.tabName = b ∧ c.rhsCol.tabName = a)

/-- A condition of two tables, turned so that the column of `t` is on the left. -/
def Condition.oriented (t : String) (c : Condition ν) : Condition ν :=
  if c.single = true ∨ c.lhsCol.tabName = t then c else c.swapped

/-- All conditions in a plan. -/
def Plan.conds : Plan ν → Conds ν
  | null => []
  | scan _ conds _ => conds
  | join l r conds => l.conds ++ r.conds ++ conds

section Joins

variable {a b : String} {c : Condition ν} {scans : List (Plan ν)} {j : Joined} {A B cs : Conds ν}
  {ca cb : List String}

theorem Condition.Joins.ne (h : c.Joins a b) : a ≠ b := by
  obtain ⟨hsingle, ⟨hl, hr⟩ | ⟨hl, hr⟩⟩ := h
  all_goals
    rintro rfl
    simp [single, hl, hr] at hsingle

theorem Condition.Over.joins (h : c.Over [a, b]) (hsingle : c.single = false) : c.Joins a b := by
  refine ⟨hsingle, ?_⟩
  simp only [single, Bool.or_eq_false_iff, decide_eq_false_iff_not] at hsingle
  have hl := h.1
  have hr := h.2 hsingle.1
  simp only [List.mem_cons, List.not_mem_nil, or_false] at hl hr
  grind

theorem foldl_joinCond {conds : Conds ν} (h : ∀ c ∈ conds, c.Joins a b) (ha : a ∈ j.joinedTables)
    (hb : b ∈ j.joinedTables) :
    conds.foldl (joinCond scans) (j, .join (.scan a A ca) (.scan b B cb) cs) =
      (j, .join (.scan a A ca) (.scan b B cb) (cs ++ conds.map (·.oriented a))) := by
  induction conds generalizing cs with
  | nil => simp
  | cons c conds ih =>
    have hcond : joinCond scans (j, .join (.scan a A ca) (.scan b B cb) cs) c =
        (j, .join (.scan a A ca) (.scan b B cb) (cs ++ [c.oriented a])) := by
      have hne := (h c List.mem_cons_self).ne
      obtain ⟨hsingle, ⟨hl, hr⟩ | ⟨hl, hr⟩⟩ := h c List.mem_cons_self
      all_goals
        simp [joinCond, pushConds, Condition.oriented, Plan.isNull, hl, hr, ha, hb, hne, hne.symm,
          hsingle]
    rw [List.foldl_cons, hcond, ih fun c hc => h c (List.mem_cons_of_mem _ hc)]
    simp

theorem joinTables_conds (A : Conds ν) (ca cb : List String) {cross : Conds ν}
    (h : ∀ c ∈ cross, c.Joins a b) : ∃ tab,
      (joinTables [.scan a A ca, .scan b [] cb] cross).conds = A ++ cross.map (·.oriented tab) := by
  obtain _ | ⟨c, cross⟩ := cross
  · exact ⟨a, by simp [joinTables, joinScans, Plan.conds]⟩
  · have hrest := fun x hx => h x (List.mem_cons_of_mem c hx)
    have hrest' : ∀ x ∈ cross, x.Joins b a := fun x hx => ⟨(hrest x hx).1, (hrest x hx).2.symm⟩
    have hne := (h c List.mem_cons_self).ne
    refine ⟨c.lhsCol.tabName, ?_⟩
    obtain ⟨-, ⟨hl, hr⟩ | ⟨hl, hr⟩⟩ := h c List.mem_cons_self
    all_goals
      simp [joinTables, joinScans, popScan, Plan.reads, List.findIdx?_cons, hl, hr, hne,
        foldl_joinCond hrest, foldl_joinCond hrest', Plan.conds, Condition.oriented]

end Joins

/-- A plan is made, and it has every condition once. -/
def Planned (indexCols : String → Conds ν → List String) (tables : List String) (conds : Conds ν) :
    Prop :=
  ∃ fuel plan tab, makeOneRel indexCols fuel tables conds = .next plan ∧
    plan.conds.Perm (conds.map (·.oriented tab))

section Query

variable (indexCols : String → Conds ν → List String) {t : String} {conds : Conds ν}

theorem perm_oriented (t : String) (conds : Conds ν) (tab : String) :
    (conds.filter (·.belongs t) ++ (conds.filter (!·.belongs t)).map (·.oriented tab)).Perm
      (conds.map (·.oriented tab)) := by
  have hsame : (conds.filter (·.belongs t)).map (·.oriented tab) = conds.filter (·.belongs t) := by
    refine (List.map_congr_left fun c hc => ?_).trans (List.map_id _)
    have hc' := List.of_mem_filter hc
    simp only [Condition.belongs, Bool.and_eq_true] at hc'
    exact if_pos (.inl hc'.1)
  rw [← hsame, ← List.map_append]
  exact (List.filter_append_perm _ conds).map _

theorem planned {tables : List String} (htables : tables.length ≤ 1)
    (hover : ∀ c ∈ conds, c.Over (t :: tables))
    (h : ∀ c ∈ conds, c.single = true → c.lhsCol.tabName = t) :
    Planned indexCols (t :: tables) conds := by
  have hpop := popConds_next [] [] h (Nat.lt_succ_self conds.length)
  have hjoins : ∀ u, t :: tables ⊆ [t, u] → ∀ c ∈ conds.filter (!·.belongs t), c.Joins t u := by
    intro u hsub c hc
    obtain ⟨hmem, hnot⟩ := List.mem_filter.1 hc
    refine Condition.Over.joins ⟨hsub (hover c hmem).1, fun hval => hsub ((hover c hmem).2 hval)⟩ ?_
    by_contra hsingle
    simp [Condition.belongs, hsingle, h c hmem (by simpa using hsingle)] at hnot
  obtain _ | ⟨u, _ | ⟨v, tables⟩⟩ := tables
  · have hnone : conds.filter (!·.belongs t) = [] :=
      List.eq_nil_iff_forall_not_mem.2 fun c hc => (hjoins t (by simp) c hc).ne rfl
    refine ⟨conds.length + 1, .scan t (conds.filter (·.belongs t))
      (indexCols t (conds.filter (·.belongs t))), t, ?_, ?_⟩
    · simp [makeOneRel, scanTables, hpop]
    · simpa [hnone, Plan.conds] using perm_oriented t conds t
  · have hcross := hjoins u (by simp)
    have hpop' : popConds u (conds.length + 1) [] (conds.filter (!·.belongs t)) [] =
        .next ([], conds.filter (!·.belongs t)) := by
      rw [popConds_next _ _ (fun c hc hsingle => by simp [(hcross c hc).1] at hsingle)
        (Nat.lt_succ_of_le (List.length_filter_le ..))]
      congr 2
      · exact List.filter_eq_nil_iff.2 fun c hc => by simp [Condition.belongs, (hcross c hc).1]
      · exact List.filter_eq_self.2 fun c hc => by simp [Condition.belongs, (hcross c hc).1]
    obtain ⟨tab, hconds⟩ := joinTables_conds (conds.filter (·.belongs t))
      (indexCols t (conds.filter (·.belongs t))) (indexCols u []) hcross
    refine ⟨conds.length + 1, _, tab, ?_, hconds ▸ perm_oriented t conds tab⟩
    simp [makeOneRel, scanTables, hpop, hpop']
  · simp at htables

/-- All rounds of `pop_conds` make progress exactly if every condition of one table is one of `t`.
Then it takes these and leaves the others, and the plan of a query has every condition once. -/
theorem conds_partitioned (t : String) (conds : Conds ν) :
    ((∃ fuel, popConds t fuel [] conds [] =
        .next (conds.filter (·.belongs t), conds.filter (!·.belongs t))) ↔
      ∀ c ∈ conds, c.single = true → c.lhsCol.tabName = t) ∧
    ∀ tables : List String, tables.length ≤ 1 → (∀ c ∈ conds, c.Over (t :: tables)) →
      (Planned indexCols (t :: tables) conds ↔
        ∀ c ∈ conds, c.single = true → c.lhsCol.tabName = t) := by
  have hblocked : ∀ fuel, (∃ r, popConds t fuel [] conds [] = .next r) →
      ∀ c ∈ conds, c.single = true → c.lhsCol.tabName = t := by
    rintro fuel ⟨r, hr⟩ c hc hsingle
    by_contra ht
    rw [popConds_blocked hc hsingle ht] at hr
    cases hr
  refine ⟨⟨fun ⟨fuel, hr⟩ => hblocked fuel ⟨_, hr⟩, fun h =>
    ⟨_, popConds_next [] [] h (Nat.lt_succ_self _)⟩⟩, fun tables hlen hover =>
      ⟨?_, planned indexCols hlen hover⟩⟩
  rintro ⟨fuel, plan, tab, hplan, -⟩
  rw [makeOneRel, if_neg (by simp; omega)] at hplan
  obtain ⟨_, hscan, -⟩ := bind_eq_next.1 hplan
  obtain ⟨r, hr, -⟩ := bind_eq_next.1 hscan
  exact hblocked fuel ⟨r, hr⟩

end Query

/-- `a.x = 1` -/
def firstIsOne : Condition Nat := ⟨⟨"a", "x"⟩, .OP_EQ, true, ⟨"", ""⟩, 1⟩

/-- `b.y < a.x` -/
def joinsBoth : Condition Nat := ⟨⟨"b", "y"⟩, .OP_LT, false, ⟨"a", "x"⟩, 0⟩

theorem conds_partitioned_join : Planned (fun _ _ => []) ["a", "b"] [firstIsOne, joinsBoth] :=
  ((conds_partitioned (fun _ _ => []) "a" [firstIsOne, joinsBoth]).2 ["b"] (by decide)
    (by simp [Condition.Over, firstIsOne, joinsBoth])).2
    (by simp [Condition.single, firstIsOne, joinsBoth])

/-- If table `b` comes first, `a.x = 1` stops the loop. -/
theorem pop_conds_stuck :
    (∀ fuel, popConds "b" fuel [] [joinsBoth, firstIsOne] [] = .blocked) ∧
    ∀ fuel, makeOneRel (fun _ _ => []) fuel ["b", "a"] [joinsBoth, firstIsOne] = .blocked := by
  have hstuck : ∀ fuel, popConds "b" fuel [] [joinsBoth, firstIsOne] [] = .blocked := fun _ =>
    popConds_blocked (c := firstIsOne) (by simp) rfl (by decide)
  exact ⟨hstuck, fun fuel => by simp [makeOneRel, scanTables, hstuck]⟩

end Sql.Planner
