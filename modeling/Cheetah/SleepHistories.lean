import Cheetah.WorkerSleepInvariant

/-! What a step of the scheduling loops does to the `history_t` of its worker. -/
namespace Cheetah

/-- The history that a worker keeps while it is in the scheduling loop. -/
def SleepPhase.historyOf : SleepPhase → Option History
  | .outside | .waiting => none
  | .stealing h | .sampling h | .deciding h | .trying h _ | .napping h | .woken h | .working h =>
    some h

/-- One update of the history of worker `w`, with what is true of the counts where it happens. -/
inductive HistoryChange (n : ℕ) (aarch64 : Bool) (w : ℕ) : History → History → Prop
  | missed {h : History} (fails : ℕ) : HistoryChange n aarch64 w h { h with fails := fails }
  | reengaged {h : History} (word : Word) (thieves : ℕ) (hp : h.Paced)
      (hfails : h.fails ≥ sentinelThreshold) (hlt : getSentinel word < n) :
      HistoryChange n aarch64 w h (maybeReengageWorkers w n word thieves h).1
  | sampled {h : History} (word : Word) (hpos : 0 < getSentinel word)
      (hle : getSentinel word ≤ n) : HistoryChange n aarch64 w h (sampleCounts n word h)
  | disengaged {h : History} (word : Word) (elapsed : ℕ) (ht : h.Tired)
      (hpos : 0 < getSentinel word) (hle : getSentinel word ≤ n) :
      HistoryChange n aarch64 w h (afterDisengage aarch64 elapsed word h)
  | worked {h : History} (elapsed : ℕ) (hp : h.Paced) :
      HistoryChange n aarch64 w h (afterWork aarch64 elapsed h)

section Histories

variable {n : ℕ} {s t : SleepState} {aarch64 : Bool} {w : ℕ} {h : History}

/-- A sentinel is counted in the lower half of the word. -/
theorem SleepInv.sentinel_pos (hi : SleepInv n s) (hpos : 0 < n) (hn : n < 2^32)
    (hsen : (s.phase w).isSentinel = true) :
    0 < getSentinel s.word ∧ getSentinel s.word ≤ n := by
  have hw : w < n := by
    apply hi.lt
    intro hout
    rw [hout] at hsen
    cases hsen
  rw [(hi.halves hpos hn).2]
  exact ⟨tally_pos hw hsen, tally_le _ _ _⟩

/-- The word after `add_to_sentinels(-1)` of a sentinel. -/
theorem SleepInv.sentinel_sub (hi : SleepInv n s) (hpos : 0 < n) (hn : n < 2^32)
    (hsen : (s.phase w).isSentinel = true) :
    getSentinel (s.word + (-1)) + 1 = getSentinel s.word ∧
      getDisengaged (s.word + (-1)) = getDisengaged s.word := by
  obtain ⟨hdis, hcount⟩ := hi.halves hpos hn
  have hlt := (hi.counts hpos).1
  obtain ⟨hone, hle⟩ := hi.sentinel_pos hpos hn hsen
  rw [hcount] at hone hle
  obtain ⟨m, hm⟩ := Nat.exists_eq_add_of_lt hone
  rw [Nat.zero_add] at hm
  rw [hcount, hdis, hi.word, hm, packed_sub_sentinel, getSentinel_packed (by omega) (by omega),
    getDisengaged_packed (by omega) (by omega)]
  exact ⟨rfl, rfl⟩

theorem SleepInv.reengage_lt (hi : SleepInv n s) (hpos : 0 < n) (hn : n < 2^32)
    (hsen : (s.phase w).isSentinel = true) : getSentinel (s.word + (-1)) < n := by
  have hsub := (hi.sentinel_sub hpos hn hsen).1
  have hle := (hi.sentinel_pos hpos hn hsen).2
  omega

/-- A phase with samples to take is that of a sentinel. -/
theorem SleepPhase.Ok.sampling_ge (ho : (SleepPhase.sampling h).Ok) :
    h.fails ≥ sentinelThreshold := by
  rcases ho with ⟨hf, -⟩ | ht
  · exact Nat.le_of_eq hf.symm
  · exact ht.sentinel

/-- A worker that moves leaves the histories of the others alone. -/
theorem historyOf_update {phase : ℕ → SleepPhase} {u : ℕ} {q : SleepPhase} {h' : History}
    (hu : (Function.update phase w q u).historyOf = some h') :
    u = w ∧ q.historyOf = some h' ∨ (phase u).historyOf = some h' := by
  by_cases heq : u = w
  · subst heq
    rw [Function.update_self] at hu
    exact .inl ⟨rfl, hu⟩
  · rw [Function.update_of_ne heq] at hu
    exact .inr hu

/-- Whose phase a step changes, and how the history of the new phase comes about. -/
theorem SleepInv.change_history (hi : SleepInv n s) (hpos : 0 < n) (hn : n < 2^32)
    (hst : SleepStep n aarch64 s t) : ∃ w q, t.phase = Function.update s.phase w q ∧
      ∀ h', q.historyOf = some h' → (∃ wakeVal, h' = { fails := initFails n wakeVal }) ∨
        ∃ h₀, (s.phase w).historyOf = some h₀ ∧ (h' = h₀ ∨ HistoryChange n aarch64 w h₀ h') := by
  cases hst with
  | disengageWorker w hw hp => exact ⟨w, .waiting, rfl, fun _ hh => by cases hh⟩
  | reengageWorker w hp | resetFails w hp => exact ⟨w, .outside, rfl, fun _ hh => by cases hh⟩
  | longjmp hp => exact ⟨0, .outside, rfl, fun _ hh => by cases hh⟩
  | initFails w wakeVal hw hp =>
    exact ⟨w, _, rfl, fun h' hh => .inl ⟨wakeVal, (Option.some.inj hh).symm⟩⟩
  | @stole w thieves h hp =>
    have hok : h.Paced := hi.ok_of hp
    have hold : (s.phase w).historyOf = some h := by rw [hp, SleepPhase.historyOf]
    by_cases hge : h.fails ≥ sentinelThreshold
    · rw [if_pos hge]
      refine ⟨w, _, rfl, fun h' hh => .inr ⟨h, hold, .inr ?_⟩⟩
      rw [← Option.some.inj hh]
      refine .reengaged _ thieves hok hge (hi.reengage_lt (w := w) hpos hn ?_)
      rw [hp]
      exact decide_eq_true hge
    · rw [if_neg hge]
      exact ⟨w, _, rfl, fun h' hh => .inr ⟨h, hold, .inl (Option.some.inj hh).symm⟩⟩
  | @failed w h hp hno =>
    have hold : (s.phase w).historyOf = some h := by rw [hp, SleepPhase.historyOf]
    refine ⟨w, _, rfl, fun h' hh => .inr ⟨h, hold, .inr ?_⟩⟩
    rw [← Option.some.inj hh]
    exact .missed _
  | @failedSample w h hp hmod hmax =>
    have hold : (s.phase w).historyOf = some h := by rw [hp, SleepPhase.historyOf]
    refine ⟨w, _, rfl, fun h' hh => .inr ⟨h, hold, .inr ?_⟩⟩
    rw [← Option.some.inj hh]
    exact .missed _
  | @sample w h hp =>
    have hold : (s.phase w).historyOf = some h := by rw [hp, SleepPhase.historyOf]
    refine ⟨w, _, rfl, fun h' hh => .inr ⟨h, hold, .inr ?_⟩⟩
    have hsame : sampleCounts n s.word h = h' := by
      split_ifs at hh
      · exact Option.some.inj hh
      · exact Option.some.inj hh
    rw [← hsame]
    have hcounts := hi.sentinel_pos (w := w) hpos hn (by
      rw [hp]
      exact decide_eq_true (SleepPhase.Ok.sampling_ge (hi.ok_of hp)))
    exact .sampled _ hcounts.1 hcounts.2
  | @maybeDisengage w h hp =>
    have hold : (s.phase w).historyOf = some h := by rw [hp, SleepPhase.historyOf]
    refine ⟨w, _, rfl, fun h' hh => .inr ⟨h, hold, .inl ?_⟩⟩
    split_ifs at hh
    · exact (Option.some.inj hh).symm
    · exact (Option.some.inj hh).symm
  | @tryFails w h seen hp | @tryDisengage w h seen hp heq | @wake w h hp =>
    have hold : (s.phase w).historyOf = some h := by rw [hp, SleepPhase.historyOf]
    exact ⟨w, _, rfl, fun h' hh => .inr ⟨h, hold, .inl (Option.some.inj hh).symm⟩⟩
  | @afterDisengage w elapsed h hp =>
    have hold : (s.phase w).historyOf = some h := by rw [hp, SleepPhase.historyOf]
    have ht : h.Tired := hi.ok_of hp
    have hcounts := hi.sentinel_pos (w := w) hpos hn (by
      rw [hp]
      exact decide_eq_true ht.sentinel)
    refine ⟨w, _, rfl, fun h' hh => .inr ⟨h, hold, .inr ?_⟩⟩
    rw [← Option.some.inj hh]
    exact .disengaged _ elapsed ht hcounts.1 hcounts.2
  | @afterWork w elapsed h hp =>
    have hold : (s.phase w).historyOf = some h := by rw [hp, SleepPhase.historyOf]
    refine ⟨w, _, rfl, fun h' hh => .inr ⟨h, hold, .inr ?_⟩⟩
    rw [← Option.some.inj hh]
    exact .worked elapsed (hi.ok_of hp)

/-- A history is fresh, or comes from the one before by at most one update. -/
theorem SleepInv.history_change (hi : SleepInv n s) (hpos : 0 < n) (hn : n < 2^32)
    (hst : SleepStep n aarch64 s t) {u : ℕ} {h' : History}
    (hu : (t.phase u).historyOf = some h') :
    (∃ wakeVal, h' = { fails := initFails n wakeVal }) ∨
      ∃ h₀, (s.phase u).historyOf = some h₀ ∧ (h' = h₀ ∨ HistoryChange n aarch64 u h₀ h') := by
  obtain ⟨w, q, hphase, hnew⟩ := hi.change_history hpos hn hst
  rw [hphase] at hu
  obtain ⟨rfl, hq⟩ | hold := historyOf_update hu
  · exact hnew h' hq
  · exact .inr ⟨h', hold, .inl rfl⟩

theorem sleepInv_of_reaches (hpos : 0 < n) (hn : n < 2^32)
    (hrun : Reaches (SleepStep n aarch64) sleepInit s) : SleepInv n s :=
  hrun.preserves (fun _ _ hi hst => hi.step hpos hn hst) (sleepInit_inv n)

/-- What is true of a fresh history and kept by every update is true of every history. -/
theorem history_preserves (hpos : 0 < n) (hn : n < 2^32) {P : History → Prop}
    (hfresh : ∀ wakeVal, P { fails := initFails n wakeVal })
    (hchange : ∀ w h h', HistoryChange n aarch64 w h h' → P h → P h')
    (hrun : Reaches (SleepStep n aarch64) sleepInit s) :
    ∀ w h, (s.phase w).historyOf = some h → P h := by
  suffices hboth : SleepInv n s ∧ ∀ w h, (s.phase w).historyOf = some h → P h from hboth.2
  have hstep (a b : SleepState)
      (hab : SleepInv n a ∧ ∀ w h, (a.phase w).historyOf = some h → P h)
      (hst : SleepStep n aarch64 a b) :
      SleepInv n b ∧ ∀ w h, (b.phase w).historyOf = some h → P h := by
    refine ⟨hab.1.step hpos hn hst, fun w h hw => ?_⟩
    rcases hab.1.history_change hpos hn hst hw with ⟨wakeVal, rfl⟩ | ⟨h₀, hold, rfl | hchanged⟩
    · exact hfresh wakeVal
    · exact hab.2 w h hold
    · exact hchange w h₀ h hchanged (hab.2 w h₀ hold)
  exact hrun.preserves hstep ⟨sleepInit_inv n, fun _ _ hw => by cases hw⟩

end Histories

end Cheetah
