import HybridCloud.Storage.CreatePage

/-!
# What concurrent calls of `CreatePage` leave behind

Every call writes the number of pages that it knows of, so the header ends up with the number of the
call that writes last. It is right exactly if that is the call with the largest page number.
-/

namespace Storage

open Outcome

namespace CreatePageState

variable {tablePath : String} {fileHdr₀ : RmFileHdr} {s s' : CreatePageState} {c : Nat}

/-- The numbers that have been given out are those of the calls, and the header is that of the call
that wrote it last. -/
structure Inv (tablePath : String) (fileHdr₀ : RmFileHdr) (s : CreatePageState) : Prop where
  le : fileHdr₀.numPages ≤ s.fd2pageno
  given : ∀ n, (∃ c, (s.calls c).newPageNo = some n) ↔ fileHdr₀.numPages ≤ n ∧ n < s.fd2pageno
  distinct : ∀ c c' n, (s.calls c).newPageNo = some n → (s.calls c').newPageNo = some n → c = c'
  header : s.fileHdr.numPages = (s.hdrWrites.head?.map (· + 1)).getD fileHdr₀.numPages
  writers : ∀ n ∈ s.hdrWrites, updatesFileHdr tablePath = true ∧ n < s.fd2pageno
  reading : ∀ c n fileHdr, s.calls c = .hdrRead n fileHdr → updatesFileHdr tablePath = true

theorem inv_start : Inv tablePath fileHdr₀ (start fileHdr₀) where
  le := Nat.le_refl _
  given n := by
    constructor
    · rintro ⟨c, hc⟩
      cases hc
    · rintro ⟨hle, hlt⟩
      exact absurd hlt (Nat.not_lt.2 hle)
  distinct := nofun
  header := rfl
  writers := nofun
  reading := nofun

theorem setCall_self (call : CreatePageCall) : (s.setCall c call).calls c = call :=
  Function.update_self ..

theorem setCall_of_ne (call : CreatePageCall) {c' : Nat} (h : c' ≠ c) :
    (s.setCall c call).calls c' = s.calls c' :=
  Function.update_of_ne h ..

theorem newPageNo_setCall {call : CreatePageCall} (h : call.newPageNo = (s.calls c).newPageNo)
    (c' : Nat) : ((s.setCall c call).calls c').newPageNo = (s.calls c').newPageNo := by
  by_cases hc : c' = c
  · subst hc
    rw [setCall_self, h]
  · rw [setCall_of_ne call hc]

section

variable (h : Inv tablePath fileHdr₀ s)
include h

theorem Inv.goes_on {call : CreatePageCall}
    (hcall : call.newPageNo = (s.calls c).newPageNo)
    (hreading : ∀ n fileHdr, call = .hdrRead n fileHdr → updatesFileHdr tablePath = true) :
    Inv tablePath fileHdr₀ (s.setCall c call) where
  le := h.le
  given n := by
    simp only [newPageNo_setCall hcall]
    exact h.given n
  distinct c₁ c₂ n := by
    simp only [newPageNo_setCall hcall]
    exact h.distinct c₁ c₂ n
  header := h.header
  writers := h.writers
  reading c' n fileHdr hn := by
    by_cases hc : c' = c
    · subst hc
      rw [setCall_self] at hn
      exact hreading n fileHdr hn
    · rw [setCall_of_ne call hc] at hn
      exact h.reading c' n fileHdr hn

theorem Inv.allocate (hcall : s.calls c = .idle) :
    Inv tablePath fileHdr₀
      ({ s with fd2pageno := s.fd2pageno + 1 }.setCall c (.allocated s.fd2pageno)) where
  le := Nat.le_succ_of_le h.le
  given n := by
    constructor
    · rintro ⟨c', hc'⟩
      by_cases hc : c' = c
      · subst hc
        rw [setCall_self] at hc'
        obtain rfl : s.fd2pageno = n := Option.some.inj hc'
        exact ⟨h.le, Nat.lt_succ_self _⟩
      · rw [setCall_of_ne _ hc] at hc'
        obtain ⟨hle, hlt⟩ := (h.given n).1 ⟨c', hc'⟩
        exact ⟨hle, Nat.lt_succ_of_lt hlt⟩
    · rintro ⟨hle, hlt⟩
      rcases Nat.lt_succ_iff_lt_or_eq.1 hlt with hlt | rfl
      · obtain ⟨c', hc'⟩ := (h.given n).2 ⟨hle, hlt⟩
        refine ⟨c', ?_⟩
        rw [setCall_of_ne]
        · exact hc'
        · rintro rfl
          rw [hcall] at hc'
          cases hc'
      · refine ⟨c, ?_⟩
        rw [setCall_self]
        rfl
  distinct c₁ c₂ n h₁ h₂ := by
    have hfresh : ∀ c', (s.calls c').newPageNo ≠ some s.fd2pageno := by
      intro c' hc'
      exact Nat.lt_irrefl _ ((h.given _).1 ⟨c', hc'⟩).2
    by_cases hc₁ : c₁ = c
    · subst hc₁
      rw [setCall_self] at h₁
      obtain rfl : s.fd2pageno = n := Option.some.inj h₁
      by_contra hne
      rw [setCall_of_ne _ (Ne.symm hne)] at h₂
      exact hfresh c₂ h₂
    · rw [setCall_of_ne _ hc₁] at h₁
      by_cases hc₂ : c₂ = c
      · subst hc₂
        rw [setCall_self] at h₂
        obtain rfl : s.fd2pageno = n := Option.some.inj h₂
        exact absurd h₁ (hfresh c₁)
      · rw [setCall_of_ne _ hc₂] at h₂
        exact h.distinct c₁ c₂ n h₁ h₂
  header := h.header
  writers n hn := ⟨(h.writers n hn).1, Nat.lt_succ_of_lt (h.writers n hn).2⟩
  reading c' n fileHdr hn := by
    by_cases hc : c' = c
    · subst hc
      rw [setCall_self] at hn
      cases hn
    · rw [setCall_of_ne _ hc] at hn
      exact h.reading c' n fileHdr hn

theorem Inv.updateHdr (htable : updatesFileHdr tablePath = true)
    {newPageNo : Nat} (hlt : newPageNo < s.fd2pageno) (fileHdr : RmFileHdr) :
    Inv tablePath fileHdr₀ { s with
      fileHdr := { fileHdr with numPages := newPageNo + 1 }
      hdrWrites := newPageNo :: s.hdrWrites } where
  le := h.le
  given := h.given
  distinct := h.distinct
  header := rfl
  writers n hn := by
    rcases List.mem_cons.1 hn with rfl | hn
    · exact ⟨htable, hlt⟩
    · exact h.writers n hn
  reading := h.reading

theorem Inv.writeZeroPage (hpage0 : 0 < fileHdr₀.numPages)
    {newPageNo : Nat} (hcall : s.calls c = .allocated newPageNo) :
    s.writeZeroPage newPageNo = s := by
  have hle := ((h.given newPageNo).1 ⟨c, by rw [hcall]; rfl⟩).1
  exact if_neg (by omega)

theorem Inv.step (hpage0 : 0 < fileHdr₀.numPages)
    (hs : s.step tablePath c = .next s') : Inv tablePath fileHdr₀ s' := by
  unfold CreatePageState.step at hs
  split at hs
  · rename_i hcall
    obtain rfl := next.inj hs
    exact h.allocate hcall
  · rename_i newPageNo hcall
    rw [h.writeZeroPage hpage0 hcall] at hs
    obtain rfl := next.inj hs
    refine h.goes_on ?_ nofun
    rw [hcall]
    rfl
  · rename_i newPageNo hcall
    split at hs
    · rename_i htable
      obtain rfl := next.inj hs
      refine h.goes_on ?_ fun _ _ _ => htable
      rw [hcall]
      rfl
    · obtain rfl := next.inj hs
      refine h.goes_on ?_ nofun
      rw [hcall]
      rfl
  · rename_i newPageNo fileHdr hcall
    obtain rfl := next.inj hs
    have hgiven : ∃ c, (s.calls c).newPageNo = some newPageNo := ⟨c, by rw [hcall]; rfl⟩
    refine (h.updateHdr (h.reading c _ _ hcall) ((h.given _).1 hgiven).2 fileHdr).goes_on ?_ nofun
    rw [hcall]
    rfl
  · cases hs

end

/-- Once all calls have returned: their page numbers are distinct and contiguous, and the file header
has the number of pages exactly if it is kept for this table and the call with the largest page number
was the last one to write it. -/
theorem createPage_numbers_and_header (hpage0 : 0 < fileHdr₀.numPages)
    (run : Run (CreatePageState.step tablePath) (fun _ _ => True) (start fileHdr₀) s)
    (hquiet : s.Quiet) (hcalled : fileHdr₀.numPages < s.fd2pageno) :
    (∀ c c' n, s.calls c = .returned n → s.calls c' = .returned n → c = c') ∧
    (∀ n, (∃ c, s.calls c = .returned n) ↔ fileHdr₀.numPages ≤ n ∧ n < s.fd2pageno) ∧
    (s.fileHdr.numPages = s.fd2pageno ↔
      updatesFileHdr tablePath = true ∧ s.hdrWrites.head? = some (s.fd2pageno - 1)) := by
  have h : Inv tablePath fileHdr₀ s :=
    run.invariant inv_start fun hinv _ hs => hinv.step hpage0 hs
  refine ⟨?_, ?_, ?_⟩
  · intro c c' n hc hc'
    refine h.distinct c c' n ?_ ?_
    · rw [hc]
      rfl
    · rw [hc']
      rfl
  · intro n
    rw [← h.given n]
    refine exists_congr fun c => ?_
    rcases hquiet c with hc | ⟨m, hc⟩
    · rw [hc]
      exact iff_of_false nofun nofun
    · rw [hc]
      simp [CreatePageCall.newPageNo]
  · rw [h.header]
    cases hwrites : s.hdrWrites.head? with
    | none =>
      refine iff_of_false ?_ nofun
      show fileHdr₀.numPages ≠ s.fd2pageno
      omega
    | some n =>
      have hn : n ∈ s.hdrWrites := List.mem_of_mem_head? hwrites
      rw [Option.some.injEq, and_iff_right (h.writers n hn).1]
      show n + 1 = s.fd2pageno ↔ _
      omega

theorem step_calls_of_ne {c' : Nat} (hne : c' ≠ c) (hs : s.step tablePath c = .next s') :
    s'.calls c' = s.calls c' := by
  unfold CreatePageState.step at hs
  split at hs
  · obtain rfl := next.inj hs
    exact setCall_of_ne _ hne
  · obtain rfl := next.inj hs
    rw [setCall_of_ne _ hne]
    unfold CreatePageState.writeZeroPage
    split <;> rfl
  · split at hs
    · obtain rfl := next.inj hs
      exact setCall_of_ne _ hne
    · obtain rfl := next.inj hs
      exact setCall_of_ne _ hne
  · obtain rfl := next.inj hs
    exact setCall_of_ne _ hne
  · cases hs

theorem quiet_of_follow (as : List Nat)
    (hs : follow (CreatePageState.step tablePath) (fun _ _ => True) as (start fileHdr₀) = .next s)
    (hreturned : ∀ c ∈ as, ∃ n, s.calls c = .returned n) : s.Quiet := by
  have hidle : ∀ (as : List Nat) (s₁ s₂ : CreatePageState) (c : Nat), c ∉ as →
      follow (CreatePageState.step tablePath) (fun _ _ => True) as s₁ = .next s₂ →
      s₂.calls c = s₁.calls c := by
    intro as
    induction as with
    | nil =>
      intro s₁ s₂ c _ hs
      obtain rfl := next.inj hs
      rfl
    | cons a as ih =>
      intro s₁ s₂ c hc hs
      obtain ⟨hne, hc⟩ := not_or.1 (mt List.mem_cons.2 hc)
      simp only [follow, bind_eq_next] at hs
      obtain ⟨_, -, s₃, hstep, hrest⟩ := hs
      rw [ih s₃ s₂ c hc hrest]
      exact step_calls_of_ne hne hstep
  intro c
  by_cases hc : c ∈ as
  · exact .inr (hreturned c hc)
  · exact .inl (hidle as _ _ c hc hs)

/-- The page number that a call has returned. -/
def returnedPage (s : CreatePageState) (c : Nat) : Option Nat :=
  match s.calls c with
  | .returned n => some n
  | _ => none

theorem returned_of_returnedPage {n : Nat} (h : s.returnedPage c = some n) :
    s.calls c = .returned n := by
  unfold returnedPage at h
  split at h
  · rename_i m hcall
    rw [hcall, Option.some.inj h]
  · cases h

/-- Two calls one after the other. -/
theorem createPage_numbers_and_header_in_turn : ∃ s,
    Run (CreatePageState.step "orders") (fun _ _ => True) (start ⟨73, 1, 50, 7⟩) s ∧ s.Quiet ∧
    s.fd2pageno = 3 ∧
    (s.fileHdr.numPages = 3 ↔ updatesFileHdr "orders" = true ∧ s.hdrWrites.head? = some 2) := by
  obtain ⟨s, hs, htest⟩ := Outcome.of_completes
    (x := follow (CreatePageState.step "orders") (fun _ _ => True) [0, 0, 0, 0, 1, 1, 1, 1]
      (start ⟨73, 1, 50, 7⟩))
    (P := fun s => s.fd2pageno = 3 ∧ s.returnedPage 0 = some 1 ∧ s.returnedPage 1 = some 2)
    (by decide +kernel)
  obtain ⟨hcount, h₀, h₁⟩ := of_decide_eq_true htest
  have hquiet : s.Quiet := by
    refine quiet_of_follow _ hs fun c hc => ?_
    have hc : c = 0 ∨ c = 1 := by simpa using hc
    rcases hc with rfl | rfl
    · exact ⟨1, returned_of_returnedPage h₀⟩
    · exact ⟨2, returned_of_returnedPage h₁⟩
  have hrun := Run.of_follow _ hs
  have hmain := createPage_numbers_and_header (by decide) hrun hquiet (by rw [hcount]; decide)
  rw [hcount] at hmain
  exact ⟨s, hrun, hquiet, hcount, hmain.2.2⟩

/-- Two ways to a wrong header. The calls 0 and 1 take the pages 1 and 2, and call 0 writes the header
after call 1: it says that there are two pages. A call for a table with the name `user_blogs` creates
page 1, and the header still says that there is one page. -/
theorem createPage_header_wrong :
    (∃ s, Run (CreatePageState.step "orders") (fun _ _ => True) (start ⟨73, 1, 50, 7⟩) s ∧
      s.calls 0 = .returned 1 ∧ s.calls 1 = .returned 2 ∧ s.Quiet ∧ s.fileHdr.numPages = 2) ∧
    (∃ s, Run (CreatePageState.step "user_blogs") (fun _ _ => True) (start ⟨73, 1, 50, 7⟩) s ∧
      s.calls 0 = .returned 1 ∧ s.Quiet ∧ s.fileHdr.numPages = 1) := by
  constructor
  · obtain ⟨s, hs, htest⟩ := Outcome.of_completes
      (x := follow (CreatePageState.step "orders") (fun _ _ => True) [0, 1, 0, 1, 1, 1, 0, 0]
        (start ⟨73, 1, 50, 7⟩))
      (P := fun s => s.fileHdr.numPages = 2 ∧ s.returnedPage 0 = some 1 ∧ s.returnedPage 1 = some 2)
      (by decide +kernel)
    obtain ⟨hheader, h₀, h₁⟩ := of_decide_eq_true htest
    have h₀ := returned_of_returnedPage h₀
    have h₁ := returned_of_returnedPage h₁
    refine ⟨s, Run.of_follow _ hs, h₀, h₁, quiet_of_follow _ hs fun c hc => ?_, hheader⟩
    have hc : c = 0 ∨ c = 1 := by
      simp only [List.mem_cons, List.not_mem_nil, or_false] at hc
      omega
    rcases hc with rfl | rfl
    · exact ⟨1, h₀⟩
    · exact ⟨2, h₁⟩
  · obtain ⟨s, hs, htest⟩ := Outcome.of_completes
      (x := follow (CreatePageState.step "user_blogs") (fun _ _ => True) [0, 0, 0] (start ⟨73, 1, 50, 7⟩))
      (P := fun s => s.fileHdr.numPages = 1 ∧ s.returnedPage 0 = some 1)
      (by decide +kernel)
    obtain ⟨hheader, h₀⟩ := of_decide_eq_true htest
    have h₀ := returned_of_returnedPage h₀
    refine ⟨s, Run.of_follow _ hs, h₀, quiet_of_follow _ hs fun c hc => ?_, hheader⟩
    have hc : c = 0 := by simpa using hc
    subst hc
    exact ⟨1, h₀⟩

end CreatePageState

end Storage
