import HybridCloud.Storage.LogReplay

/-!
# Two ways to redo a record

Replay takes the redo of one record as a parameter. If another redo does what `applySingleLog` does
to the records that are left, on every disk that redo can lead to, then all of replay does.
-/

namespace Storage

open Outcome

namespace LogReplay

/-- On the disks of `I`, `apply` does to a record of `R` what `applySingleLog` does, and redo does not
leave `I`. -/
structure AppliesAlike (I : Disk → Prop) (R : LogRecord → Prop)
    (apply : LogReplay → PageKey → LogRecord → Outcome LogReplay) : Prop where
  same : ∀ {s key log}, I s.disk → R log → log.pageForLog = some key →
    apply s key log = s.applySingleLog key log
  keeps : ∀ {d : Disk} {key ws}, I d → I (d.performAll key ws)

/-- The disk is in `I`, and all records that are parked or not yet read are in `R`. -/
structure Covers (I : Disk → Prop) (R : LogRecord → Prop) (s : LogReplay) : Prop where
  disk : I s.disk
  waiting : ∀ log ∈ s.waiting, R log
  rest : ∀ n, ∀ log ∈ (s.streams n).rest, R log

variable {I : Disk → Prop} {R : LogRecord → Prop} {s : LogReplay} {log : LogRecord} {key : PageKey}
  {apply : LogReplay → PageKey → LogRecord → Outcome LogReplay} {files : List WalFile}

/-- A stream is replaced. -/
theorem Covers.setStream (hs : Covers I R s) {node : Nat} {st : Stream} (h : ∀ log ∈ st.rest, R log) :
    Covers I R { s with streams := Function.update s.streams node st } where
  disk := hs.disk
  waiting := hs.waiting
  rest := (Function.forall_update_iff s.streams fun _ st => ∀ log ∈ st.rest, R log).2
    ⟨h, fun n _ => hs.rest n⟩

theorem applySingleLog_eq_next {s' : LogReplay} (hs : s.applySingleLog key log = .next s') :
    ∃ ws, s'.disk = s.disk.performAll key ws ∧ s'.waiting = s.waiting ∧ s'.streams = s.streams := by
  simp only [applySingleLog, bind_eq_next, pure_def, next.injEq] at hs
  obtain ⟨_, -, _, -, ws, -, rfl⟩ := hs
  exact ⟨ws, rfl, rfl, rfl⟩

section

variable (h : AppliesAlike I R apply)
include h

theorem apply_alike (hs : Covers I R s) (hlog : R log) (hkey : log.pageForLog = some key) :
    Alike (Covers I R) (apply s key log) (s.applySingleLog key log) := by
  refine ⟨h.same hs.disk hlog hkey, fun s' hs' => ?_⟩
  obtain ⟨ws, hdisk, hwaiting, hstreams⟩ := applySingleLog_eq_next hs'
  exact ⟨hdisk ▸ h.keeps hs.disk, hwaiting ▸ hs.waiting, hstreams ▸ hs.rest⟩

theorem applyChain_alike {fuel : Nat} (hs : Covers I R s) (hlog : R log)
    (hkey : log.pageForLog = some key) :
    Alike (Covers I R) (applyChain apply fuel key log s)
      (applyChain applySingleLog fuel key log s) := by
  induction fuel generalizing s log with
  | zero => exact .of_self fun _ h => by cases h
  | succ fuel ih =>
    refine (apply_alike h hs hlog hkey).bind fun s₁ hs₁ => ?_
    cases hfind : s₁.waiting.find? (isSuccessor key log.lsn) with
    | none => exact .of_next hs₁
    | some follower =>
      have hfollower := hs₁.waiting follower (List.mem_of_find?_eq_some hfind)
      have hsucc := List.find?_some hfind
      simp only [isSuccessor, Bool.and_eq_true, beq_iff_eq] at hsucc
      exact ih ⟨hs₁.disk, fun r hr => hs₁.waiting r (List.mem_of_mem_erase hr), hs₁.rest⟩
        hfollower hsucc.1

/-- `Dispatch` does the same with either redo. -/
theorem dispatch_alike (hs : Covers I R s) (hlog : R log) :
    Alike (Covers I R) (s.dispatch apply log) (s.dispatch applySingleLog log) := by
  unfold dispatch
  cases hkey : log.pageForLog with
  | none =>
    cases log.body with
    | newPage table => exact .of_abort
    | _ => exact .of_next hs
  | some key =>
    refine (Alike.of_self fun _ _ => trivial).bind fun page _ => ?_
    split
    · exact .of_next hs
    · split
      · refine (Alike.of_self fun _ _ => trivial).bind fun _ _ => .of_next ⟨hs.disk, ?_, hs.rest⟩
        intro r hr
        rcases List.mem_append.1 hr with hr | hr
        · exact hs.waiting r hr
        · exact List.mem_singleton.1 hr ▸ hlog
      · exact (Alike.of_self fun _ _ => trivial).bind fun _ _ => applyChain_alike h hs hlog hkey

theorem readRecords_alike {node size : Nat} {rest : List LogRecord} (hs : Covers I R s)
    (hrest : ∀ log ∈ rest, R log) :
    Alike (fun r => Covers I R r.1) (readRecords apply node rest size s)
      (readRecords applySingleLog node rest size s) := by
  induction rest generalizing s size with
  | nil => exact .of_next hs
  | cons log rest ih =>
    unfold readRecords
    split
    · exact .of_next hs
    · refine (Alike.of_self fun _ _ => trivial).bind fun _ _ =>
        (dispatch_alike h hs (hrest log List.mem_cons_self)).bind fun s₁ hs₁ => ?_
      exact (ih hs₁ fun r hr => hrest r (List.mem_cons_of_mem _ hr)).bind fun r hr => .of_next hr

theorem readStream_alike {node : Nat} (hs : Covers I R s) :
    Alike (fun r => Covers I R r.1) (s.readStream apply node)
      (s.readStream applySingleLog node) := by
  simp only [readStream]
  split
  · exact .of_next hs
  · refine (Alike.of_self fun _ _ => trivial).bind fun _ _ =>
      (readRecords_alike h hs (hs.rest node)).bind fun r hr =>
        (Alike.of_self fun _ _ => trivial).bind fun _ _ => .of_next (hr.setStream ?_)
    exact fun log hlog => hs.rest node log (List.mem_of_mem_drop hlog)

theorem stepWith_alike {a : Action} (hs : Covers I R s) :
    Alike (Covers I R) (s.stepWith apply a) (s.step a) := by
  cases a with
  | publishDurable node durableEnd => exact .of_next (hs.setStream (hs.rest node))
  | readStream node => exact (readStream_alike h hs).bind fun r hr => .of_next hr

end

theorem covers_registerAll {d : Disk} (hd : I d) (hfiles : ∀ f ∈ files, ∀ log ∈ f.records, R log)
    (e : WalFile → Nat) : Covers I R (registerAll d files e) := by
  suffices ∀ s : LogReplay, Covers I R s →
      Covers I R (files.foldl (fun s f => s.registerStream f (e f)) s) by
    refine this _ ⟨hd, ?_, ?_⟩
    · intro log hlog
      cases hlog
    · intro n log hlog
      cases hlog
  induction files with
  | nil => exact fun s hs => hs
  | cons f files ih =>
    intro s hs
    exact ih (fun g hg => hfiles g (List.mem_cons_of_mem _ hg)) _
      (hs.setStream (hfiles f List.mem_cons_self))

/-- A run with `apply` is a run with `applySingleLog`. -/
theorem run_alike (h : AppliesAlike I R apply) {d : Disk} (hd : I d)
    (hfiles : ∀ f ∈ files, ∀ log ∈ f.records, R log) {e : WalFile → Nat}
    (run : Run (stepWith apply) Allowed (registerAll d files e) s) :
    Covers I R s ∧ Run step Allowed (registerAll d files e) s := by
  induction run with
  | start => exact ⟨covers_registerAll hd hfiles e, .start⟩
  | step _ ok taken ih =>
    obtain ⟨hs, run⟩ := ih
    obtain ⟨heq, hcovers⟩ := stepWith_alike h hs
    rw [heq] at taken
    exact ⟨hcovers _ taken, run.step ok taken⟩

end LogReplay

end Storage
