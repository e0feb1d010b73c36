import Cheetah.WorkerSleep

/-! The packed counts are exact in every state of the scheduling loops. -/
namespace Cheetah

section Local

variable {n : ℕ} {h : History}

def History.Clear (h : History) : Prop := h.inefficientHistory = 0 ∧ h.efficientHistory = 0

/-- The fail count of a worker that steals, waits for its steal attempts or works. -/
structure History.Paced (h : History) : Prop where
  dvd : h.fails % attempts = 0
  le : h.fails ≤ maxFails + sentinelThreshold - attempts
  clear : h.fails < sentinelThreshold → h.Clear

/-- The fail count of a worker that may disengage: with it sleep time is subtracted safely. -/
structure History.Tired (h : History) : Prop where
  dvd : h.fails % attempts = 0
  le : h.fails ≤ maxFails
  ge : 2 * sentinelThreshold ≤ h.fails

/-- What the phase of a worker says about its fail count. -/
def SleepPhase.Ok : SleepPhase → Prop
  | .outside | .waiting => True
  | .stealing h | .working h => h.Paced
  | .sampling h => h.fails = sentinelThreshold ∧ h.Clear ∨ h.Tired
  | .deciding h | .trying h _ | .napping h | .woken h => h.Tired

theorem maxFails_eq : maxFails = 16384 := by decide

theorem getScaledElapsed_dvd (aarch64 : Bool) (elapsed : ℕ) :
    getScaledElapsed aarch64 elapsed % attempts = 0 := Nat.mul_mod_left _ _

/-- One sample makes no history of more than one bit. -/
theorem popcount_first_sample (sample : Bool) : popcount (pushSample 0 sample) ≤ 1 := by
  cases sample <;> decide

theorem History.Tired.paced (ht : h.Tired) : h.Paced where
  dvd := ht.dvd
  le := by
    have := ht.le
    unfold sentinelThreshold attempts
    omega
  clear := by
    have := ht.ge
    unfold sentinelThreshold at *
    omega

/-- A first sample never makes a worker disengage. -/
theorem wantsDisengage_clear {self : ℕ} {word : Word} (hc : h.Clear) :
    wantsDisengage self n word (sampleCounts n word h) = false := by
  have hle := popcount_first_sample (isInefficient (getWorkerCounts word n))
  have hno : ¬ (popcount (sampleCounts n word h).inefficientHistory : ℤ) -
      popcount (sampleCounts n word h).efficientHistory > historyThreshold := by
    simp only [sampleCounts, hc.1]
    unfold historyThreshold historyLength
    omega
  rw [wantsDisengage, decide_eq_false hno, Bool.and_false]

theorem paced_sampleCounts {word : Word}
    (ho : h.fails = sentinelThreshold ∧ h.Clear ∨ h.Tired) : (sampleCounts n word h).Paced := by
  rcases ho with ⟨hf, -⟩ | ht
  · refine ⟨?_, ?_, ?_⟩
    · change h.fails % attempts = 0
      rw [hf]
      rfl
    · change h.fails ≤ _
      rw [hf]
      decide
    · change h.fails < _ → _
      omega
  · have hp := ht.paced
    exact ⟨hp.dvd, hp.le, fun hlt => absurd ht.ge (by
      change h.fails < _ at hlt
      unfold sentinelThreshold at *
      omega)⟩

theorem paced_initFails (n wakeVal : ℕ) : History.Paced { fails := initFails n wakeVal } := by
  refine ⟨?_, ?_, fun _ => ⟨rfl, rfl⟩⟩
  · dsimp only [initFails]
    split_ifs <;> rfl
  · dsimp only [initFails]
    split_ifs <;> decide

/-- The cap on the fail count, and the threshold that follows it. -/
theorem fails_reengage (n self thieves : ℕ) (word : Word) (hge : h.fails ≥ sentinelThreshold) :
    (maybeReengageWorkers self n word thieves h).1.fails = sentinelThreshold ∧
      (maybeReengageWorkers self n word thieves h).1.sampleThreshold = 2 * sentinelThreshold := by
  have hsame : (if h.fails ≥ h.sampleThreshold then
      h.recordSentinels ((getWorkerCounts word n).sentinels + 1) else h).fails = h.fails := by
    split_ifs <;> rfl
  have hcap : (if h.fails > sentinelThreshold then sentinelThreshold else h.fails) =
      sentinelThreshold := by
    split_ifs
    · rfl
    · omega
  unfold maybeReengageWorkers
  dsimp only
  rw [hsame, hcap]
  exact ⟨rfl, rfl⟩

theorem paced_reengage {self thieves : ℕ} {word : Word}
    (hge : h.fails ≥ sentinelThreshold) :
    (maybeReengageWorkers self n word thieves h).1.Paced := by
  have hfails := (fails_reengage n self thieves word hge).1
  refine ⟨?_, ?_, ?_⟩
  · rw [hfails]
    rfl
  · rw [hfails]
    decide
  · rw [hfails]
    exact fun hlt => absurd hlt (Nat.lt_irrefl _)

/-- After a wake-up the worker is still a sentinel. -/
theorem paced_afterDisengage {aarch64 : Bool} {elapsed : ℕ} {word : Word} (ht : h.Tired) :
    (afterDisengage aarch64 elapsed word h).Paced ∧
      (afterDisengage aarch64 elapsed word h).fails ≥ sentinelThreshold := by
  have hfails : (afterDisengage aarch64 elapsed word h).fails =
      if getScaledElapsed aarch64 elapsed < sentinelThreshold then
        usub h.fails (getScaledElapsed aarch64 elapsed)
      else disengageThreshold - sentinelThreshold := by
    unfold afterDisengage
    dsimp only
    split_ifs <;> rfl
  have hdvd := getScaledElapsed_dvd aarch64 elapsed
  have ht1 := ht.dvd
  have ht2 := ht.le
  have ht3 := ht.ge
  rw [maxFails_eq] at ht2
  generalize getScaledElapsed aarch64 elapsed = scaled at hfails hdvd
  have hge : (afterDisengage aarch64 elapsed word h).fails ≥ sentinelThreshold ∧
      (afterDisengage aarch64 elapsed word h).fails % attempts = 0 ∧
      (afterDisengage aarch64 elapsed word h).fails ≤ maxFails := by
    rw [hfails, maxFails_eq]
    unfold disengageThreshold historyThreshold historyLength sentinelThreshold attempts usub at *
    split_ifs <;> omega
  refine ⟨⟨hge.2.1, ?_, ?_⟩, hge.1⟩
  · have := hge.2.2
    unfold sentinelThreshold attempts
    omega
  · intro hlt
    exact absurd hge.1 (Nat.not_le.mpr hlt)

theorem paced_afterWork {aarch64 : Bool} {elapsed : ℕ} (hp : h.Paced) :
    (afterWork aarch64 elapsed h).Paced := by
  have hdvd := getScaledElapsed_dvd aarch64 elapsed
  have hp1 := hp.dvd
  have hp2 := hp.le
  rw [maxFails_eq] at hp2
  unfold afterWork
  split_ifs with hmin
  · have hfails : (decreaseFailsByWork aarch64 elapsed h).fails % attempts = 0 ∧
        (decreaseFailsByWork aarch64 elapsed h).fails ≤ h.fails := by
      unfold decreaseFailsByWork
      dsimp only
      generalize getScaledElapsed aarch64 elapsed = scaled at hdvd
      unfold sentinelThreshold attempts usub at *
      split_ifs <;> omega
    have hle : (decreaseFailsByWork aarch64 elapsed h).fails ≤
        maxFails + sentinelThreshold - attempts := Nat.le_trans hfails.2 hp.le
    dsimp only
    split_ifs with hlt
    · exact ⟨hfails.1, hle, fun _ => ⟨rfl, rfl⟩⟩
    · exact ⟨hfails.1, hle, fun h => absurd h hlt⟩
  · refine ⟨rfl, Nat.zero_le _, fun _ => ?_⟩
    exact hp.clear (by
      unfold sentinelThreshold
      unfold attempts at hmin
      omega)

theorem History.Tired.sentinel (ht : h.Tired) : h.fails ≥ sentinelThreshold := by
  have := ht.ge
  unfold sentinelThreshold at *
  omega

/-- A round of failed attempts after which no samples are due. -/
theorem paced_failed (hp : h.Paced)
    (hno : ¬ (h.fails + attempts) % sentinelThreshold = 0 ∨ h.fails + attempts > maxFails) :
    let fails := if (h.fails + attempts) % sentinelThreshold = 0 then maxFails
      else h.fails + attempts
    History.Paced { h with fails := fails } ∧
      decide (fails ≥ sentinelThreshold) = decide (h.fails ≥ sentinelThreshold) := by
  intro fails
  have hdvd := hp.dvd
  have hle := hp.le
  have hfails : fails % attempts = 0 ∧ fails ≤ maxFails + sentinelThreshold - attempts ∧
      (fails ≥ sentinelThreshold ↔ h.fails ≥ sentinelThreshold) := by
    rw [maxFails_eq] at hno hle ⊢
    dsimp only [fails]
    rw [maxFails_eq]
    unfold sentinelThreshold attempts at *
    split_ifs <;> omega
  exact ⟨⟨hfails.1, hfails.2.1, fun hlt => hp.clear (Nat.not_le.mp fun hge =>
    Nat.not_le.mpr hlt (hfails.2.2.mpr hge))⟩, decide_eq_decide.mpr hfails.2.2⟩

/-- A round of failed attempts after which samples are due. -/
theorem ok_failedSample (hp : h.Paced) (hmod : (h.fails + attempts) % sentinelThreshold = 0)
    (hmax : ¬ h.fails + attempts > maxFails) :
    (SleepPhase.sampling { h with fails := h.fails + attempts }).Ok := by
  have hdvd := hp.dvd
  by_cases heq : h.fails + attempts = sentinelThreshold
  · refine Or.inl ⟨heq, hp.clear ?_⟩
    unfold attempts at heq
    omega
  · refine Or.inr ⟨?_, Nat.not_lt.mp hmax, ?_⟩
    · change (h.fails + attempts) % attempts = 0
      unfold attempts at *
      omega
    · change 2 * sentinelThreshold ≤ h.fails + attempts
      unfold sentinelThreshold attempts at *
      omega

end Local

namespace SleepPhase

/-- A phase that worker 0 never enters. -/
def leaves : SleepPhase → Bool
  | .waiting | .deciding _ | .trying _ _ | .napping _ | .woken _ => true
  | _ => false

/-- The word that the compare-exchange of the worker expects. -/
def expected : SleepPhase → Option Word
  | .trying _ seen => some seen
  | _ => none

end SleepPhase

structure SleepInv (n : ℕ) (s : SleepState) : Prop where
  word : s.word = packed (tally n s.phase SleepPhase.isDisengaged)
    (tally n s.phase SleepPhase.isSentinel)
  lt : ∀ w, s.phase w ≠ .outside → w < n
  boss : (s.phase 0).leaves = false
  expected : ∀ w seen, (s.phase w).expected = some seen →
    isInefficient (getWorkerCounts seen n) = true
  ok : ∀ w, (s.phase w).Ok

section Steps

variable {n : ℕ} {s t : SleepState} {aarch64 : Bool}

/-- Worker `w` goes to phase `q`, and the word follows. -/
theorem SleepInv.move (hi : SleepInv n s) {w : ℕ} {q : SleepPhase} {word : Word} (hw : w < n)
    (hok : q.Ok) (hboss : w = 0 → q.leaves = false)
    (hexp : ∀ seen, q.expected = some seen → isInefficient (getWorkerCounts seen n) = true)
    (hword : word = packed (tally n (Function.update s.phase w q) SleepPhase.isDisengaged)
      (tally n (Function.update s.phase w q) SleepPhase.isSentinel)) :
    SleepInv n { s.setPhase w q with word := word } where
  word := hword
  lt := by
    intro u
    change Function.update s.phase w q u ≠ _ → _
    by_cases hu : u = w
    · rw [hu]
      exact fun _ => hw
    · rw [Function.update_of_ne hu]
      exact hi.lt u
  boss := by
    change (Function.update s.phase w q 0).leaves = false
    by_cases hu : 0 = w
    · subst hu
      rw [Function.update_self]
      exact hboss rfl
    · rw [Function.update_of_ne hu]
      exact hi.boss
  expected := by
    intro u
    change ∀ seen, (Function.update s.phase w q u).expected = some seen → _
    by_cases hu : u = w
    · rw [hu, Function.update_self]
      exact hexp
    · rw [Function.update_of_ne hu]
      exact hi.expected u
  ok := by
    intro u
    change (Function.update s.phase w q u).Ok
    by_cases hu : u = w
    · rw [hu, Function.update_self]
      exact hok
    · rw [Function.update_of_ne hu]
      exact hi.ok u

/-- A move that changes neither count. -/
theorem SleepInv.relabel (hi : SleepInv n s) {w : ℕ} {p q : SleepPhase} (hp : s.phase w = p)
    (hw : w < n) (hok : q.Ok) (hboss : w = 0 → q.leaves = false)
    (hexp : ∀ seen, q.expected = some seen → isInefficient (getWorkerCounts seen n) = true)
    (hdis : q.isDisengaged = p.isDisengaged) (hsen : q.isSentinel = p.isSentinel) :
    SleepInv n (s.setPhase w q) := by
  refine hi.move hw hok hboss hexp ?_
  rw [tally_update_same hw (by rw [hdis, hp]), tally_update_same hw (by rw [hsen, hp])]
  exact hi.word

/-- A move that makes the worker a sentinel. -/
theorem SleepInv.addSentinel (hi : SleepInv n s) {w : ℕ} {p q : SleepPhase} (hp : s.phase w = p)
    (hw : w < n) (hok : q.Ok) (hboss : w = 0 → q.leaves = false)
    (hexp : ∀ seen, q.expected = some seen → isInefficient (getWorkerCounts seen n) = true)
    (hdis : q.isDisengaged = p.isDisengaged) (hold : p.isSentinel = false)
    (hnew : q.isSentinel = true) : SleepInv n { s.setPhase w q with word := s.word + 1 } := by
  refine hi.move hw hok hboss hexp ?_
  rw [tally_update_same hw (by rw [hdis, hp]), tally_update_add hw (by rw [hp, hold]) hnew,
    hi.word, packed_add_sentinel]

/-- A move by which the worker is no longer a sentinel. -/
theorem SleepInv.subSentinel (hi : SleepInv n s) {w : ℕ} {p q : SleepPhase} (hp : s.phase w = p)
    (hw : w < n) (hok : q.Ok) (hboss : w = 0 → q.leaves = false)
    (hexp : ∀ seen, q.expected = some seen → isInefficient (getWorkerCounts seen n) = true)
    (hdis : q.isDisengaged = p.isDisengaged) (hold : p.isSentinel = true)
    (hnew : q.isSentinel = false) :
    SleepInv n { s.setPhase w q with word := s.word + (-1) } := by
  refine hi.move hw hok hboss hexp ?_
  have hsub := tally_update_sub (f := s.phase) (p := SleepPhase.isSentinel) hw
    (by rw [hp, hold]) hnew
  rw [tally_update_same hw (by rw [hdis, hp]), hi.word, ← hsub, packed_sub_sentinel]

/-- Nobody is disengaged and a sentinel, and worker 0 is never disengaged. -/
theorem SleepInv.counts (hi : SleepInv n s) (hpos : 0 < n) :
    tally n s.phase SleepPhase.isDisengaged < n ∧
      tally n s.phase SleepPhase.isSentinel + tally n s.phase SleepPhase.isDisengaged ≤ n := by
  refine ⟨tally_lt hpos ?_, tally_add_le fun w _ h => ?_⟩
  · have hb := hi.boss
    cases h0 : s.phase 0 <;> rw [h0] at hb <;> first | exact Bool.false_ne_true | cases hb
  · obtain ⟨hsen, hdis⟩ := h
    cases hw : s.phase w <;> rw [hw] at hsen hdis <;>
      first | exact absurd hsen Bool.false_ne_true | cases hdis

theorem SleepInv.halves (hi : SleepInv n s) (hpos : 0 < n) (hn : n < 2^32) :
    getDisengaged s.word = tally n s.phase SleepPhase.isDisengaged ∧
      getSentinel s.word = tally n s.phase SleepPhase.isSentinel := by
  obtain ⟨hlt, hle⟩ := hi.counts hpos
  rw [hi.word, getDisengaged_packed (by omega) (by omega), getSentinel_packed (by omega) (by omega)]
  exact ⟨rfl, rfl⟩

theorem SleepInv.ok_of (hi : SleepInv n s) {w : ℕ} {p : SleepPhase} (hp : s.phase w = p) :
    p.Ok := hp ▸ hi.ok w

theorem SleepInv.step (hi : SleepInv n s) (hpos : 0 < n) (hn : n < 2^32)
    (hst : SleepStep n aarch64 s t) : SleepInv n t := by
  obtain ⟨hlt, hle⟩ := hi.counts hpos
  obtain ⟨hdis, hsen⟩ := hi.halves hpos hn
  have hb := hi.boss
  have hnot0 {w : ℕ} (hl : (s.phase w).leaves = true) : w ≠ 0 := by
    rintro rfl
    rw [hb] at hl
    cases hl
  cases hst with
  | disengageWorker w hw hp =>
    refine hi.move hw.2 trivial (fun h => absurd h (by omega)) (fun _ h => by cases h) ?_
    rw [tally_update_add hw.2 (by rw [hp]; rfl) rfl, tally_update_same hw.2 (by rw [hp]; rfl),
      hi.word, packed_add_disengaged]
  | reengageWorker w hp =>
    have hw := hi.lt w (by rw [hp]; exact SleepPhase.noConfusion)
    refine hi.move hw trivial (fun _ => rfl) (fun _ h => by cases h) ?_
    have hsame : tally n (Function.update s.phase w .outside) SleepPhase.isSentinel =
        tally n s.phase SleepPhase.isSentinel := tally_update_same hw (by rw [hp]; rfl)
    have hdec : tally n (Function.update s.phase w .outside) SleepPhase.isDisengaged + 1 =
        tally n s.phase SleepPhase.isDisengaged := tally_update_sub hw (by rw [hp]; rfl) rfl
    rw [hsame, hi.word, ← hdec, packed_sub_disengaged]
  | initFails w wakeVal hw hp =>
    have hpaced := paced_initFails n wakeVal
    by_cases hwake : wakeVal ≤ n / 2
    · rw [if_pos hwake]
      exact hi.addSentinel hp hw hpaced (fun _ => rfl) (fun _ h => by cases h) rfl rfl
        (by simp [SleepPhase.isSentinel, initFails, hwake])
    · rw [if_neg hwake]
      exact hi.relabel hp hw hpaced (fun _ => rfl) (fun _ h => by cases h) rfl
        (by simp [SleepPhase.isSentinel, initFails, hwake, sentinelThreshold])
  | resetFails w hp =>
    have hw := hi.lt w (by rw [hp]; exact SleepPhase.noConfusion)
    split_ifs with hge
    · exact hi.subSentinel hp hw trivial (fun _ => rfl) (fun _ h => by cases h) rfl
        (decide_eq_true hge) rfl
    · exact hi.relabel hp hw trivial (fun _ => rfl) (fun _ h => by cases h) rfl
        (decide_eq_false hge).symm
  | stole w thieves hp =>
    have hw := hi.lt w (by rw [hp]; exact SleepPhase.noConfusion)
    have hok := hi.ok_of hp
    split_ifs with hge
    · exact hi.subSentinel hp hw (paced_reengage hge) (fun _ => rfl) (fun _ h => by cases h)
        rfl (decide_eq_true hge) rfl
    · exact hi.relabel hp hw hok (fun _ => rfl) (fun _ h => by cases h) rfl
        (decide_eq_false hge).symm
  | failed w hp hno =>
    have hw := hi.lt w (by rw [hp]; exact SleepPhase.noConfusion)
    obtain ⟨hpaced, hsame⟩ := paced_failed (hi.ok_of hp) hno
    exact hi.relabel hp hw hpaced (fun _ => rfl) (fun _ h => by cases h) rfl hsame
  | failedSample w hp hmod hmax =>
    have hw := hi.lt w (by rw [hp]; exact SleepPhase.noConfusion)
    have hok := ok_failedSample (hi.ok_of hp) hmod hmax
    split_ifs with heq
    · refine hi.addSentinel hp hw hok (fun _ => rfl) (fun _ h => by cases h) rfl ?_ ?_
      · refine decide_eq_false ?_
        unfold sentinelThreshold attempts at *
        omega
      · exact decide_eq_true (Nat.le_of_eq heq)
    · refine hi.relabel hp hw hok (fun _ => rfl) (fun _ h => by cases h) rfl ?_
      change decide (_ + attempts ≥ sentinelThreshold) = decide (_ ≥ sentinelThreshold)
      rw [decide_eq_decide]
      unfold sentinelThreshold attempts at *
      omega
  | sample w hp =>
    have hw := hi.lt w (by rw [hp]; exact SleepPhase.noConfusion)
    have hok := hi.ok_of hp
    split_ifs with hwant
    · rcases hok with ⟨hf, hc⟩ | ht
      · rw [wantsDisengage_clear hc] at hwant
        cases hwant
      · refine hi.relabel hp hw ⟨ht.dvd, ht.le, ht.ge⟩ (fun h => ?_) (fun _ h => by cases h)
          rfl rfl
        subst h
        cases hwant
    · exact hi.relabel hp hw (paced_sampleCounts hok) (fun _ => rfl) (fun _ h => by cases h)
        rfl rfl
  | maybeDisengage w hp =>
    have hw := hi.lt w (by rw [hp]; exact SleepPhase.noConfusion)
    have hok : History.Tired _ := hi.ok_of hp
    split_ifs with hineff
    · exact hi.relabel hp hw hok (fun h => absurd h (hnot0 (by rw [hp]; rfl)))
        (fun seen h => Option.some.inj h ▸ hineff) rfl rfl
    · exact hi.relabel hp hw hok.paced (fun _ => rfl) (fun _ h => by cases h) rfl rfl
  | tryFails w hp =>
    have hw := hi.lt w (by rw [hp]; exact SleepPhase.noConfusion)
    have hok : History.Tired _ := hi.ok_of hp
    exact hi.relabel hp hw hok (fun h => absurd h (hnot0 (by rw [hp]; rfl)))
      (fun _ h => by cases h) rfl rfl
  | @tryDisengage w h seen hp heq =>
    have hw := hi.lt w (by rw [hp]; exact SleepPhase.noConfusion)
    have hok : History.Tired _ := hi.ok_of hp
    have hineff := hi.expected w _ (by rw [hp]; rfl)
    have hgt := one_lt_of_inefficient hineff
    refine hi.move hw hok (fun h => absurd h (hnot0 (by rw [hp]; rfl))) (fun _ h => by cases h) ?_
    rw [← heq, hsen] at hgt
    have hinc : tally n (Function.update s.phase w (.napping h)) SleepPhase.isDisengaged =
        tally n s.phase SleepPhase.isDisengaged + 1 :=
      tally_update_add hw (by rw [hp]; rfl) rfl
    have hdec : tally n (Function.update s.phase w (.napping h)) SleepPhase.isSentinel + 1 =
        tally n s.phase SleepPhase.isSentinel :=
      tally_update_sub hw (by rw [hp]; exact decide_eq_true hok.sentinel) rfl
    rw [← heq, hdis, hsen, packed_exchange (by omega) (by omega) (by omega), hinc, ← hdec,
      Nat.add_sub_cancel]
  | @wake w h hp =>
    have hw := hi.lt w (by rw [hp]; exact SleepPhase.noConfusion)
    have hok : History.Tired _ := hi.ok_of hp
    refine hi.move hw hok (fun h => absurd h (hnot0 (by rw [hp]; rfl))) (fun _ h => by cases h) ?_
    have hinc : tally n (Function.update s.phase w (.woken h)) SleepPhase.isSentinel =
        tally n s.phase SleepPhase.isSentinel + 1 :=
      tally_update_add hw (by rw [hp]; rfl) (decide_eq_true hok.sentinel)
    have hdec : tally n (Function.update s.phase w (.woken h)) SleepPhase.isDisengaged + 1 =
        tally n s.phase SleepPhase.isDisengaged := tally_update_sub hw (by rw [hp]; rfl) rfl
    rw [hi.word, ← hdec, packed_wake, hinc]
  | afterDisengage w elapsed hp =>
    have hw := hi.lt w (by rw [hp]; exact SleepPhase.noConfusion)
    have hok : History.Tired _ := hi.ok_of hp
    obtain ⟨hpaced, hge⟩ := paced_afterDisengage hok
    refine hi.relabel hp hw hpaced (fun _ => rfl) (fun _ h => by cases h) rfl ?_
    exact (decide_eq_true hge).trans (decide_eq_true hok.sentinel).symm
  | afterWork w elapsed hp =>
    have hw := hi.lt w (by rw [hp]; exact SleepPhase.noConfusion)
    have hok : History.Paced _ := hi.ok_of hp
    split_ifs with hge
    · exact hi.addSentinel hp hw (paced_afterWork hok) (fun _ => rfl) (fun _ h => by cases h) rfl
        rfl (decide_eq_true hge)
    · exact hi.relabel hp hw (paced_afterWork hok) (fun _ => rfl) (fun _ h => by cases h) rfl
        (decide_eq_false hge)
  | longjmp hp =>
    exact hi.relabel hp hpos trivial (fun _ => rfl) (fun _ h => by cases h) rfl rfl

theorem sleepInit_inv (n : ℕ) : SleepInv n sleepInit := by
  have hzero {p : SleepPhase → Bool} (h : p .outside = false) :
      tally n sleepInit.phase p = 0 := by
    induction n with
    | zero => rfl
    | succ n ih => rw [tally_succ, ih, sleepInit, h, if_neg Bool.false_ne_true]
  refine ⟨?_, fun w h => absurd rfl h, rfl, fun w seen h => (by cases h), fun w => trivial⟩
  rw [hzero rfl, hzero rfl]
  rfl

/-- A worker becomes disengaged by one of two steps only. -/
theorem SleepStep.disengages (hst : SleepStep n aarch64 s t) : ∃ w q,
    t.phase = Function.update s.phase w q ∧ (w < n ∨ s.phase w ≠ .outside) ∧
      (q.isDisengaged = false ∨ s.phase w = .outside ∧ q = .waiting ∨
        ∃ h, s.phase w = .trying h s.word ∧ q = .napping h) := by
  cases hst with
  | disengageWorker w hw hp => exact ⟨w, _, rfl, Or.inl hw.2, Or.inr (Or.inl ⟨hp, rfl⟩)⟩
  | initFails w wakeVal hw hp => exact ⟨w, _, rfl, Or.inl hw, Or.inl rfl⟩
  | @tryDisengage w h seen hp heq =>
    subst heq
    exact ⟨w, _, rfl, Or.inr (by rw [hp]; exact SleepPhase.noConfusion),
      Or.inr (Or.inr ⟨h, hp, rfl⟩)⟩
  | longjmp hp =>
    exact ⟨0, _, rfl, Or.inr (by rw [hp]; exact SleepPhase.noConfusion), Or.inl rfl⟩
  | stole w thieves hp =>
    have hne : s.phase w ≠ .outside := by rw [hp]; exact SleepPhase.noConfusion
    split_ifs
    · exact ⟨w, _, rfl, Or.inr hne, Or.inl rfl⟩
    · exact ⟨w, _, rfl, Or.inr hne, Or.inl rfl⟩
  | sample w hp =>
    refine ⟨w, _, rfl, Or.inr (by rw [hp]; exact SleepPhase.noConfusion), Or.inl ?_⟩
    split_ifs <;> rfl
  | maybeDisengage w hp =>
    refine ⟨w, _, rfl, Or.inr (by rw [hp]; exact SleepPhase.noConfusion), Or.inl ?_⟩
    split_ifs <;> rfl
  | reengageWorker w hp | resetFails w hp | failed w hp hno | failedSample w hp hmod hmax
  | tryFails w hp | wake w hp | afterDisengage w elapsed hp | afterWork w elapsed hp =>
    exact ⟨w, _, rfl, Or.inr (by rw [hp]; exact SleepPhase.noConfusion), Or.inl rfl⟩

/-- A step that disengages a worker leaves a sentinel if there was one. -/
theorem SleepInv.keeps_sentinel (hi : SleepInv n s) (hpos : 0 < n) (hn : n < 2^32)
    (hst : SleepStep n aarch64 s t) (hmore : getDisengaged s.word < getDisengaged t.word)
    (hsent : 0 < getSentinel s.word) : 0 < getSentinel t.word := by
  obtain ⟨hdis, hsen⟩ := hi.halves hpos hn
  obtain ⟨hdis', hsen'⟩ := (hi.step hpos hn hst).halves hpos hn
  obtain ⟨w, q, hphase, hw, hq⟩ := hst.disengages
  have hw : w < n := hw.elim id (hi.lt w)
  have hchange (p : SleepPhase → Bool) := tally_update (p := p) (f := s.phase) hw q
  rw [hdis, hdis', hphase] at hmore
  rw [hsen] at hsent
  rw [hsen', hphase]
  have hd := hchange SleepPhase.isDisengaged
  have hs := hchange SleepPhase.isSentinel
  rcases hq with hq | ⟨hp, rfl⟩ | ⟨h, hp, rfl⟩
  · rw [hq, if_neg Bool.false_ne_true] at hd
    omega
  · rw [hp, show SleepPhase.isSentinel .outside = false from rfl,
      show SleepPhase.isSentinel .waiting = false from rfl] at hs
    omega
  · have hgt := one_lt_of_inefficient (hi.expected w _ (by rw [hp]; rfl))
    rw [hsen] at hgt
    rw [show SleepPhase.isSentinel (.napping h) = false from rfl, if_neg Bool.false_ne_true] at hs
    split_ifs at hs <;> omega

/-- The packed counts in every state of the scheduling loops: each half is exact, the
assertions of `get_worker_counts` hold, and no disengagement takes the last sentinel. -/
theorem packedCounts_exact (hpos : 0 < n) (hn : n < 2^32)
    (hrun : Reaches (SleepStep n aarch64) sleepInit s) :
    getDisengaged s.word = tally n s.phase SleepPhase.isDisengaged ∧
      getSentinel s.word = tally n s.phase SleepPhase.isSentinel ∧
      WorkerCountsOk s.word n ∧
      ∀ t, SleepStep n aarch64 s t → getDisengaged s.word < getDisengaged t.word →
        0 < getSentinel s.word → 0 < getSentinel t.word := by
  have hi : SleepInv n s :=
    hrun.preserves (fun s t hi hst => hi.step hpos hn hst) (sleepInit_inv n)
  obtain ⟨hdis, hsen⟩ := hi.halves hpos hn
  obtain ⟨hlt, hle⟩ := hi.counts hpos
  refine ⟨hdis, hsen, ⟨?_, ?_, ?_⟩, fun t hst => hi.keeps_sentinel hpos hn hst⟩
  · rwa [hdis]
  · rw [hsen]
    omega
  · rwa [hdis, hsen]

/-- Worker 1 of 2 waits while worker 0 enters the scheduling loop as a sentinel. -/
theorem packedCounts_exact_two : ∃ s, Reaches (SleepStep 2 false) sleepInit s ∧
    getDisengaged s.word = 1 ∧ (getDisengaged s.word = tally 2 s.phase SleepPhase.isDisengaged ∧
      getSentinel s.word = tally 2 s.phase SleepPhase.isSentinel ∧
      WorkerCountsOk s.word 2 ∧
      ∀ t, SleepStep 2 false s t → getDisengaged s.word < getDisengaged t.word →
        0 < getSentinel s.word → 0 < getSentinel t.word) := by
  have hwait := @SleepStep.disengageWorker 2 false sleepInit 1 (by decide) rfl
  have hrun := (Relation.ReflTransGen.single hwait).tail (.initFails 0 0 (by decide) rfl)
  exact ⟨_, hrun, rfl, packedCounts_exact (by decide) (by decide) hrun⟩

end Steps

end Cheetah
