import HybridCloud.Storage.WalFormat

/-!
# Admission and scan of a WAL

A file that consists of admitted batches is a sequence of records, each as long as its header says
(`WellFramed`). The scan of a file counts its complete records.
-/

namespace Storage.Wal

open Outcome

/-- The bytes of one record of the node's WAL. -/
structure WellFramed (node : Nat) (log : Bytes) : Prop where
  header : LOG_HEADER_SIZE ≤ log.length
  length : logTotLen log = log.length
  producer : logNodeId log = node

variable {a b : Bytes}

theorem getLE_append {offset n : Nat} (h : offset + n ≤ a.length) :
    getLE (a ++ b) offset n = getLE a offset n := by
  unfold getLE
  have hdrop : (a ++ b).drop offset = a.drop offset ++ b :=
    List.drop_append_of_le_length (by omega)
  have htake : (a.drop offset ++ b).take n = (a.drop offset).take n :=
    List.take_append_of_le_length (by rw [List.length_drop]; omega)
  rw [hdrop, htake]

theorem logTotLen_append (h : LOG_HEADER_SIZE ≤ a.length) : logTotLen (a ++ b) = logTotLen a := by
  unfold LOG_HEADER_SIZE at h
  exact getLE_append (by unfold OFFSET_LOG_TOT_LEN; omega)

theorem logNodeId_append (h : LOG_HEADER_SIZE ≤ a.length) : logNodeId (a ++ b) = logNodeId a := by
  unfold LOG_HEADER_SIZE at h
  exact getLE_append (by unfold OFFSET_LOG_NODE_ID; omega)

variable {log : Bytes}

theorem logTotLen_take {n : Nat} (hn : LOG_HEADER_SIZE ≤ n) (h : LOG_HEADER_SIZE ≤ log.length) :
    logTotLen (log.take n) = logTotLen log := by
  have hlen : LOG_HEADER_SIZE ≤ (log.take n).length := by
    rw [List.length_take]
    omega
  have happ : logTotLen (log.take n ++ log.drop n) = logTotLen (log.take n) :=
    logTotLen_append hlen
  rw [List.take_append_drop] at happ
  exact happ.symm

namespace WellFramed

variable {node : Nat} {log rest : Bytes}

section

variable (h : WellFramed node log)
include h

theorem ne_nil : log ≠ [] := by
  rintro rfl
  have := h.header
  simp [LOG_HEADER_SIZE] at this

theorem length_pos : 0 < log.length :=
  List.length_pos_iff.2 h.ne_nil

theorem logTotLen_append : logTotLen (log ++ rest) = log.length := by
  rw [Wal.logTotLen_append h.header, h.length]

theorem logNodeId_append : logNodeId (log ++ rest) = node := by
  rw [Wal.logNodeId_append h.header, h.producer]

end

end WellFramed

section Parsers

variable {node : Nat} {logs : List Bytes}

theorem checkBatch_next : ∀ {fuel : Nat} {data : Bytes}, checkBatch node fuel data = .next () →
    (splitRecords fuel data).flatten = data ∧
      ∀ log ∈ splitRecords fuel data, WellFramed node log := by
  intro fuel
  induction fuel with
  | zero =>
    intro data h
    cases data with
    | nil => exact ⟨rfl, nofun⟩
    | cons b tail => cases h
  | succ fuel ih =>
    intro data h
    cases data with
    | nil => exact ⟨rfl, nofun⟩
    | cons b tail =>
      simp only [checkBatch, bind_eq_next, cassert_eq_next] at h
      obtain ⟨-, hheader, -, hok, h⟩ := h
      simp only [not_or, ne_eq, not_not, Nat.not_lt] at hok
      obtain ⟨hnode, hmin, hmax⟩ := hok
      obtain ⟨hflat, hframed⟩ := ih h
      unfold splitRecords
      have hlen : ((b :: tail).take (logTotLen (b :: tail))).length = logTotLen (b :: tail) :=
        List.length_take_of_le hmax
      refine ⟨?_, fun log hlog => ?_⟩
      · rw [List.flatten_cons, hflat, List.take_append_drop]
      · rcases List.mem_cons.1 hlog with rfl | hlog
        · have hhead : LOG_HEADER_SIZE ≤
              ((b :: tail).take (logTotLen (b :: tail))).length := by rw [hlen]; exact hmin
          refine ⟨hhead, ?_, ?_⟩
          · rw [logTotLen_take hmin hheader, hlen]
          · have happ : logNodeId ((b :: tail).take (logTotLen (b :: tail)) ++
                (b :: tail).drop (logTotLen (b :: tail))) = _ := Wal.logNodeId_append hhead
            rw [List.take_append_drop] at happ
            rw [← happ]
            exact hnode
        · exact hframed log hlog

theorem checkProducer_next {data : Bytes} (h : checkProducer data = .next node) :
    (records data).flatten = data ∧ ∀ log ∈ records data, WellFramed node log := by
  simp only [checkProducer, bind_eq_next, cassert_eq_next, pure_def, next.injEq] at h
  obtain ⟨-, -, -, -, ⟨⟩, hcheck, rfl⟩ := h
  exact checkBatch_next hcheck

/-- The beginning of a record, at which the scan stops. -/
structure Torn (node : Nat) (rest : Bytes) : Prop where
  header : LOG_HEADER_SIZE ≤ rest.length → LOG_HEADER_SIZE ≤ logTotLen rest ∧
    logTotLen rest ≤ LOG_REPLAY_BUFFER_SIZE ∧ logNodeId rest = node ∧ rest.length < logTotLen rest

theorem torn_nil : Torn node [] := ⟨fun h => absurd h (by decide)⟩

variable {rest : Bytes}

theorem Torn.scan (h : Torn node rest) (fuel : Nat) : scan node fuel rest = .next 0 := by
  cases fuel with
  | zero => rfl
  | succ fuel =>
    unfold Wal.scan
    split
    · rfl
    · obtain ⟨hmin, hmax, hnode, hlen⟩ := h.header (by omega)
      rw [cassert_bind (by omega), if_pos hlen]
      rfl

/-- The scan counts the records and leaves out what is behind the last one. -/
theorem scan_flatten (h : ∀ log ∈ logs, WellFramed node log)
    (hfit : ∀ log ∈ logs, log.length ≤ LOG_REPLAY_BUFFER_SIZE) (torn : Torn node rest) :
    ∀ fuel, logs.flatten.length ≤ fuel →
      scan node fuel (logs.flatten ++ rest) = .next logs.flatten.length := by
  induction logs with
  | nil =>
    intro fuel _
    exact torn.scan fuel
  | cons log logs ih =>
    intro fuel hfuel
    have hlog := h log List.mem_cons_self
    have hheader := hlog.header
    have hsize := hfit log List.mem_cons_self
    have hpos := hlog.length_pos
    rw [List.flatten_cons, List.length_append] at hfuel ⊢
    obtain ⟨fuel, rfl⟩ : ∃ n, fuel = n + 1 := ⟨fuel - 1, by omega⟩
    have hrest := ih (fun l hl => h l (List.mem_cons_of_mem _ hl))
      (fun l hl => hfit l (List.mem_cons_of_mem _ hl)) fuel (by omega)
    unfold scan
    rw [List.append_assoc, if_neg (by rw [List.length_append]; omega), hlog.logTotLen_append,
      hlog.logNodeId_append]
    rw [cassert_bind (by omega), if_neg (by rw [List.length_append]; omega), List.drop_left, hrest]
    rfl

/-- The records at the front of a list that lie in the first `size` bytes. -/
def inBuffer : Nat → List Bytes → List Bytes
  | _, [] => []
  | size, log :: logs =>
    if log.length ≤ size then log :: inBuffer (size - log.length) logs else []

theorem inBuffer_append_drop (logs : List Bytes) :
    ∀ size, ∃ rest, logs = inBuffer size logs ++ rest := by
  induction logs with
  | nil => exact fun size => ⟨[], rfl⟩
  | cons log logs ih =>
    intro size
    unfold inBuffer
    split
    · obtain ⟨rest, hrest⟩ := ih (size - log.length)
      exact ⟨rest, by rw [List.cons_append, ← hrest]⟩
    · exact ⟨log :: logs, rfl⟩

end Parsers

/-- A BATCHEND record of node 0. -/
def batchEnd : Bytes :=
  [0, 0, 0, 0, 0, 0, 0, 0, 8, 0, 0, 0, 0, 0, 0, 0, 0, 0, 0, 0, 44, 0, 0, 0,
    0, 0, 0, 0, 0, 0, 0, 0, 0, 0, 0, 0, 0, 0, 0, 0, 0, 0, 0, 0]

/-- One round of `Checksum`. -/
def mix (hash : Nat) (b : UInt8) : Nat := (hash ^^^ b.toNat) * 1099511628211 % 2 ^ 64

variable {h h' : Nat} {x y : UInt8}

theorem mix_lt (h : Nat) (x : UInt8) : mix h x < 2 ^ 64 := Nat.mod_lt _ (by decide)

theorem xor_of_mix (hh : h < 2 ^ 64) (hh' : h' < 2 ^ 64) (heq : mix h x = mix h' y) :
    h ^^^ x.toNat = h' ^^^ y.toNat := by
  have hb : ∀ x : UInt8, x.toNat < 2 ^ 64 := fun x => x.toNat_lt.trans (by decide)
  -- the prime is odd
  have hmod : h ^^^ x.toNat ≡ h' ^^^ y.toNat [MOD 2 ^ 64] :=
    Nat.ModEq.cancel_right_of_coprime (by decide) heq
  exact hmod.eq_of_lt_of_lt (Nat.xor_lt_two_pow hh (hb x)) (Nat.xor_lt_two_pow hh' (hb y))

theorem foldl_mix_inj (bs : Bytes) (hh : h < 2 ^ 64) (hh' : h' < 2 ^ 64)
    (heq : bs.foldl mix h = bs.foldl mix h') : h = h' := by
  induction bs generalizing h h' with
  | nil => exact heq
  | cons x bs ih => exact Nat.xor_left_injective (xor_of_mix hh hh' (ih (mix_lt h x) (mix_lt h' x) heq))

/-- A PREPARED record in which one byte was changed has another checksum. -/
theorem checksum_eq_iff (pre post : Bytes) (x y : UInt8) :
    checksum (pre ++ x :: post) = checksum (pre ++ y :: post) ↔ x = y := by
  refine ⟨fun heq => ?_, fun hxy => by rw [hxy]⟩
  rw [checksum, checksum, List.foldl_append, List.foldl_append] at heq
  have hpre : pre.foldl mix 14695981039346656037 < 2 ^ 64 :=
    List.foldlRecOn (motive := (· < 2 ^ 64)) pre mix (by decide) fun h _ x _ => mix_lt h x
  have hxor := xor_of_mix hpre hpre (foldl_mix_inj post (mix_lt _ x) (mix_lt _ y) heq)
  exact UInt8.toNat_inj.1 (Nat.xor_right_injective hxor)

end Storage.Wal
