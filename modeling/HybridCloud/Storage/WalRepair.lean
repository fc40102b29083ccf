import HybridCloud.Storage.Proofs.WalFormatProofs

/-!
# The WAL of a node over crashes

A crash cuts off the batch that `AppendAndSync` (src/core/storage/log_manager.cc) is writing. The
constructor of `LogReplay` (src/core/storage/logreplay.cc) removes a record that is not complete and
keeps the complete ones before it, although nobody was told that they are durable. `LogManager` and
`LogReplay` each keep the length of the file.
-/

namespace Storage.WalRepair

open Outcome Wal

/-- The WAL of a node, and what the storage server knows of it while it runs. -/
structure Server where
  running : Bool
  file : Bytes
  /-- `LogManager::Stream::end`, from the first `GetStream` on. -/
  logEnd : Option Nat
  /-- `LogReplay::Stream::durable_end`, from `RegisterStream` on. -/
  durableEnd : Option Nat
  /-- The batches whose `AppendAndSync` has returned. -/
  acknowledged : List Bytes

/-- What happens to the server. -/
inductive Action where
  | append (data : Bytes)
  /-- The server stops when `written` bytes of a batch are in the file. -/
  | crash (data : Bytes) (written : Nat)
  | restart

namespace Server

/-- The WAL file is empty. -/
def init : Server := ⟨true, [], none, none, []⟩

/-- `AppendAndSync` of a batch of this node. `GetStream` asks for the size of the file only once. -/
def appendAndSync (node : Nat) (s : Server) (data : Bytes) : Outcome Server :=
  if data = [] then return s
  else do
    let producer ← checkProducer data
    await (producer = node)
    let logEnd := s.logEnd.getD s.file.length + data.length
    return { s with
      file := s.file ++ data
      logEnd := some logEnd
      durableEnd := some logEnd
      acknowledged := s.acknowledged ++ [data] }

/-- A crash in the middle of a batch. -/
def crash (node : Nat) (s : Server) (data : Bytes) (written : Nat) : Outcome Server := do
  let producer ← checkProducer data
  await (producer = node ∧ written < data.length)
  return { s with
    running := false
    file := s.file ++ data.take written
    logEnd := none
    durableEnd := none }

/-- The constructor of `LogReplay` up to its reading loop. -/
def restart (node : Nat) (s : Server) : Outcome Server := do
  let complete ← scan node s.file.length s.file
  return { s with
    running := true
    file := s.file.take complete
    logEnd := none
    durableEnd := some complete }

end Server

/-- One step. -/
def step (node : Nat) (s : Server) : Action → Outcome Server
  | .append data => do
    await (s.running = true)
    s.appendAndSync node data
  | .crash data written => do
    await (s.running = true)
    s.crash node data written
  | .restart => do
    await (s.running = false)
    s.restart node

/-- The records of the batch fit into the buffer of replay. -/
def Fits : Action → Prop
  | .append data | .crash data _ => ∀ log ∈ records data, log.length ≤ LOG_REPLAY_BUFFER_SIZE
  | .restart => True

/-- The bytes are complete records of the node. -/
def Complete (node : Nat) (bytes : Bytes) : Prop :=
  ∃ logs : List Bytes, logs.flatten = bytes ∧ ∀ log ∈ logs, WellFramed node log

variable {node : Nat} {s s' : Server}

/-! ## Complete and torn records -/

theorem torn_take {log : Bytes} {n : Nat} (h : WellFramed node log)
    (hfit : log.length ≤ LOG_REPLAY_BUFFER_SIZE) (hn : n < log.length) :
    Torn node (log.take n) := by
  have hlen : (log.take n).length = n := List.length_take_of_le (by omega)
  refine ⟨fun hheader => ?_⟩
  have hnode := logNodeId_append (b := log.drop n) hheader
  rw [List.take_append_drop, h.producer] at hnode
  rw [logTotLen_take (by omega) h.header, h.length, ← hnode]
  exact ⟨h.header, hfit, rfl, by omega⟩

theorem take_flatten {logs : List Bytes} (h : ∀ log ∈ logs, WellFramed node log)
    (hfit : ∀ log ∈ logs, log.length ≤ LOG_REPLAY_BUFFER_SIZE) :
    ∀ n, ∃ torn, logs.flatten.take n = (inBuffer n logs).flatten ++ torn ∧ Torn node torn := by
  induction logs with
  | nil => exact fun n => ⟨[], by simp [inBuffer], torn_nil⟩
  | cons log logs ih =>
    intro n
    rw [List.flatten_cons, inBuffer, List.take_append]
    by_cases hn : log.length ≤ n
    · obtain ⟨torn, htake, htorn⟩ := ih (fun l hl => h l (List.mem_cons_of_mem _ hl))
        (fun l hl => hfit l (List.mem_cons_of_mem _ hl)) (n - log.length)
      refine ⟨torn, ?_, htorn⟩
      rw [if_pos hn, List.take_of_length_le hn, htake, List.flatten_cons, List.append_assoc]
    · refine ⟨log.take n, ?_, torn_take (h log List.mem_cons_self) (hfit log List.mem_cons_self)
        (by omega)⟩
      rw [if_neg hn, Nat.sub_eq_zero_of_le (by omega), List.take_zero, List.append_nil]
      rfl

theorem length_le_of_prefix {torn : Bytes} (htorn : Torn node torn) {logs' : List Bytes}
    (h' : ∀ log ∈ logs', WellFramed node log) :
    ∀ {logs : List Bytes}, (∀ log ∈ logs, WellFramed node log) →
      logs'.flatten <+: logs.flatten ++ torn → logs'.flatten.length ≤ logs.flatten.length := by
  induction logs' with
  | nil => exact fun _ _ => Nat.zero_le _
  | cons log' logs' ih =>
    rintro logs h ⟨rest, hrest⟩
    have hlog' := h' log' List.mem_cons_self
    rw [List.flatten_cons, List.append_assoc] at hrest
    have hlen' : logTotLen (log' ++ (logs'.flatten ++ rest)) = log'.length :=
      hlog'.logTotLen_append
    cases logs with
    | nil =>
      -- the torn record would be a complete one
      have hheader := hlog'.header
      have hlen := congrArg List.length hrest
      simp only [List.flatten_nil, List.nil_append, List.length_append] at hrest hlen
      obtain ⟨-, -, -, hshort⟩ := htorn.header (by omega)
      rw [← hrest, hlen', List.length_append] at hshort
      omega
    | cons log logs =>
      have hlog := h log List.mem_cons_self
      rw [List.flatten_cons, List.append_assoc] at hrest
      rw [hrest, hlog.logTotLen_append] at hlen'
      obtain ⟨rfl, htail⟩ := List.append_inj hrest hlen'.symm
      have hle := ih (fun l hl => h' l (List.mem_cons_of_mem _ hl))
        (fun l hl => h l (List.mem_cons_of_mem _ hl)) ⟨rest, htail⟩
      simp only [List.flatten_cons, List.length_append]
      omega

/-! ## Runs -/

/-- The file consists of the records of the batches, of which the acknowledged ones are some, and of a
torn record; without it if the server runs. -/
structure Inv (node : Nat) (s : Server) (batches : List (List Bytes)) (torn : Bytes) : Prop where
  file : s.file = batches.flatten.flatten ++ torn
  framed : ∀ log ∈ batches.flatten, WellFramed node log
  fits : ∀ log ∈ batches.flatten, log.length ≤ LOG_REPLAY_BUFFER_SIZE
  acknowledged : s.acknowledged.Sublist (batches.map List.flatten)
  tail : Torn node torn
  running : s.running = true → torn = [] ∧ s.durableEnd.getD 0 = s.file.length ∧
    s.logEnd.getD s.file.length = s.file.length

namespace Inv

variable {batches : List (List Bytes)} {torn : Bytes}

theorem restart (h : Inv node s batches torn) :
    s.restart node = .next { s with
      running := true
      file := batches.flatten.flatten
      logEnd := none
      durableEnd := some batches.flatten.flatten.length } := by
  have hscan := scan_flatten h.framed h.fits h.tail s.file.length
    (by rw [h.file, List.length_append]; omega)
  rw [← h.file] at hscan
  unfold Server.restart
  rw [hscan, h.file]
  simp only [next_bind, List.take_left]
  rfl

theorem extend (h : Inv node s batches []) {logs : List Bytes} {torn : Bytes}
    (hframed : ∀ log ∈ logs, WellFramed node log)
    (hfits : ∀ log ∈ logs, log.length ≤ LOG_REPLAY_BUFFER_SIZE) (htorn : Torn node torn)
    (hfile : s'.file = s.file ++ (logs.flatten ++ torn))
    (hack : s'.acknowledged.Sublist (batches.map List.flatten ++ [logs.flatten]))
    (hrun : s'.running = true → torn = [] ∧ s'.durableEnd.getD 0 = s'.file.length ∧
      s'.logEnd.getD s'.file.length = s'.file.length) :
    Inv node s' (batches ++ [logs]) torn where
  file := by
    rw [hfile, h.file]
    simp
  framed log hlog := by
    rw [List.flatten_append, List.flatten_singleton, List.mem_append] at hlog
    exact hlog.elim (h.framed log) (hframed log)
  fits log hlog := by
    rw [List.flatten_append, List.flatten_singleton, List.mem_append] at hlog
    exact hlog.elim (h.fits log) (hfits log)
  acknowledged := by
    rw [List.map_append]
    exact hack
  tail := htorn
  running := hrun

end Inv

theorem inv_step {a : Action} (h : ∃ batches torn, Inv node s batches torn) (hfit : Fits a)
    (hs : step node s a = .next s') : ∃ batches torn, Inv node s' batches torn := by
  obtain ⟨batches, torn, h⟩ := h
  cases a with
  | append data =>
    simp only [step, bind_eq_next, await_eq_next] at hs
    obtain ⟨-, hrun, hs⟩ := hs
    unfold Server.appendAndSync at hs
    split at hs
    · obtain rfl := next.inj hs
      exact ⟨batches, torn, h⟩
    · simp only [bind_eq_next, await_eq_next, pure_def, next.injEq] at hs
      obtain ⟨_, hcheck, -, rfl, rfl⟩ := hs
      obtain ⟨hflat, hframed⟩ := checkProducer_next hcheck
      obtain ⟨rfl, -, hend⟩ := h.running hrun
      refine ⟨batches ++ [records data], [], h.extend hframed hfit torn_nil ?_ ?_ fun _ => ?_⟩
      · rw [hflat, List.append_nil]
      · rw [hflat]
        exact h.acknowledged.append (List.Sublist.refl _)
      · simp [hend]
  | crash data written =>
    simp only [step, Server.crash, bind_eq_next, await_eq_next, pure_def, next.injEq] at hs
    obtain ⟨-, hrun, _, hcheck, -, ⟨rfl, -⟩, rfl⟩ := hs
    obtain ⟨hflat, hframed⟩ := checkProducer_next hcheck
    obtain ⟨rfl, -⟩ := h.running hrun
    obtain ⟨torn, htake, htorn⟩ := take_flatten hframed hfit written
    obtain ⟨rest, hrest⟩ := inBuffer_append_drop (records data) written
    have hmem : ∀ log ∈ inBuffer written (records data), log ∈ records data := by
      intro log hlog
      rw [hrest]
      exact List.mem_append_left _ hlog
    rw [hflat] at htake
    refine ⟨batches ++ [inBuffer written (records data)], torn,
      h.extend (fun log hlog => hframed log (hmem log hlog))
        (fun log hlog => hfit log (hmem log hlog)) htorn ?_ ?_ (by simp)⟩
    · rw [← htake]
    · exact h.acknowledged.trans (List.sublist_append_left _ _)
  | restart =>
    simp only [step, h.restart, bind_eq_next, next.injEq] at hs
    obtain ⟨-, -, rfl⟩ := hs
    exact ⟨batches, [], by simp, h.framed, h.fits, h.acknowledged, torn_nil, fun _ => by simp⟩

/-- The server finds complete records in the file, among them the acknowledged batches unchanged and in
their order, and behind them less than a record. A restart keeps exactly these records and does not
fail; while the server runs there is nothing else in the file, and both offsets are its length. -/
theorem wal_tail_repaired (run : Run (step node) (fun _ a => Fits a) .init s) :
    ∃ batches : List Bytes,
      (∀ batch ∈ batches, Complete node batch) ∧ s.acknowledged.Sublist batches ∧
      batches.flatten <+: s.file ∧
      (∀ bytes, bytes <+: s.file → Complete node bytes → bytes.length ≤ batches.flatten.length) ∧
      s.restart node = .next { s with
        running := true
        file := batches.flatten
        logEnd := none
        durableEnd := some batches.flatten.length } ∧
      (s.running = true → s.file = batches.flatten ∧ s.durableEnd.getD 0 = s.file.length ∧
        s.logEnd.getD s.file.length = s.file.length) := by
  have init : Inv node .init [] [] :=
    ⟨rfl, nofun, nofun, List.Sublist.refl _, torn_nil, fun _ => ⟨rfl, rfl, rfl⟩⟩
  obtain ⟨batches, torn, h⟩ := run.invariant ⟨[], [], init⟩ inv_step
  refine ⟨batches.map List.flatten, ?_, h.acknowledged, ?_⟩
  · intro batch hbatch
    obtain ⟨logs, hlogs, rfl⟩ := List.mem_map.1 hbatch
    exact ⟨logs, rfl, fun log hlog => h.framed log (List.mem_flatten.2 ⟨logs, hlogs, hlog⟩)⟩
  rw [← List.flatten_flatten]
  refine ⟨⟨torn, h.file.symm⟩, ?_, h.restart, fun hrun => ?_⟩
  · rintro bytes hbytes ⟨logs, rfl, hlogs⟩
    rw [h.file] at hbytes
    exact length_le_of_prefix h.tail hlogs h.framed hbytes
  · obtain ⟨rfl, hends⟩ := h.running hrun
    exact ⟨by rw [h.file, List.append_nil], hends⟩

/-- One batch is written, a second one is cut off in its second record. -/
theorem wal_tail_repaired_secondBatch :
    ∃ s, Run (step 0) (fun _ a => Fits a) .init s ∧ s.running = false ∧
      s.file = batchEnd ++ (batchEnd ++ batchEnd.take 30) ∧
      ∃ batches : List Bytes, s.acknowledged.Sublist batches ∧
        s.restart 0 = .next { s with
          running := true
          file := batches.flatten
          logEnd := none
          durableEnd := some batches.flatten.length } := by
  have hfit : ∀ log ∈ records batchEnd, log.length ≤ LOG_REPLAY_BUFFER_SIZE := by decide +kernel
  have hfit' : ∀ log ∈ records (batchEnd ++ batchEnd), log.length ≤ LOG_REPLAY_BUFFER_SIZE := by
    decide +kernel
  have run : Run (step 0) (fun _ a => Fits a) .init
      ⟨false, batchEnd ++ (batchEnd ++ batchEnd.take 30), none, none, [batchEnd]⟩ :=
    (Run.start.step (a := .append batchEnd) hfit rfl).step
      (a := .crash (batchEnd ++ batchEnd) 74) hfit' rfl
  obtain ⟨batches, -, hack, -, -, hrestart, -⟩ := wal_tail_repaired run
  exact ⟨_, run, rfl, rfl, batches, hack, hrestart⟩

end Storage.WalRepair
