import CppMetrics.Core.MeterLedger

/-! What a rate read does to the reports that come after it. Two runs share some calls and have
rate reads of their own between them. The getters tick the meter, and the guard
`age > TICK_INTERVAL` disagrees with the division `age / TICK_INTERVAL` at exact multiples of the
interval, so a read can put a tick off past a later call. -/

namespace CppMetrics.Meter

/-- A call of a run: shared with the other run, or a rate read of this one only. -/
inductive Visit
  | shared (c : TimedCall)
  | extra (r : Rate) (time : UInt64)

def Visit.time : Visit → UInt64
  | .shared c => c.time
  | .extra _ time => time

def sharedCalls : List Visit → List TimedCall
  | [] => []
  | .shared c :: vs => c :: sharedCalls vs
  | .extra _ _ :: vs => sharedCalls vs

/-! ### The condition on the readings -/

/-- Whether a call at `t` has its tick put off, given the previous call: its reading and whether
its own tick was put off. The construction counts as a call. -/
def putOff (start : ℕ) (prev : ℕ × Bool) (t : ℕ) : Bool :=
  if t = prev.1 then prev.2
  else (t - start) % TICK_INTERVAL.toNat = 0 ∧
    (t < prev.1 + TICK_INTERVAL.toNat ∨ (t = prev.1 + TICK_INTERVAL.toNat ∧ prev.2 = false))

def putOffs (start : ℕ) : ℕ × Bool → List Visit → List Bool
  | _, [] => []
  | prev, .shared c :: vs =>
    putOff start prev c.time.toNat ::
      putOffs start (c.time.toNat, putOff start prev c.time.toNat) vs
  | prev, .extra _ t :: vs => putOffs start (t.toNat, putOff start prev t.toNat) vs

/-! ### Tick counts -/

/-- How often the meter has been ticked after a call `age` nanoseconds after the start. -/
def ticksAfter (k age : ℕ) : ℕ :=
  if k * TICK_INTERVAL.toNat + TICK_INTERVAL.toNat < age then age / TICK_INTERVAL.toNat else k

def tickCounts (start : ℕ) : ℕ → List Visit → List ℕ
  | _, [] => []
  | k, .shared c :: vs =>
    ticksAfter k (c.time.toNat - start) ::
      tickCounts start (ticksAfter k (c.time.toNat - start)) vs
  | k, .extra _ t :: vs => tickCounts start (ticksAfter k (t.toNat - start)) vs

theorem le_ticksAfter (k age : ℕ) : k ≤ ticksAfter k age := by
  unfold ticksAfter
  split_ifs with h
  · exact (Nat.le_div_iff_mul_le (by simp)).mpr (by omega)
  · exact le_rfl

theorem ticksAfter_mul_le {k age : ℕ} (h : k * TICK_INTERVAL.toNat ≤ age) :
    ticksAfter k age * TICK_INTERVAL.toNat ≤ age := by
  unfold ticksAfter
  split_ifs
  · exact Nat.div_mul_le_self _ _
  · exact h

/-- After a call the count is the number of whole intervals, less one if the tick was put off. -/
def Counted (start k : ℕ) (prev : ℕ × Bool) : Prop :=
  start ≤ prev.1 ∧ k = (prev.1 - start) / TICK_INTERVAL.toNat - prev.2.toNat ∧
    (prev.2 = true → (prev.1 - start) % TICK_INTERVAL.toNat = 0 ∧
      1 ≤ (prev.1 - start) / TICK_INTERVAL.toNat)

theorem Counted.step {start k t : ℕ} {prev : ℕ × Bool} (h : Counted start k prev)
    (hle : prev.1 ≤ t) :
    Counted start (ticksAfter k (t - start)) (t, putOff start prev t) := by
  obtain ⟨e, lag⟩ := prev
  obtain ⟨hstart, hk, hlag⟩ := h
  dsimp only at hstart hk hlag hle
  unfold Counted putOff ticksAfter
  rw [TICK_INTERVAL_toNat] at *
  dsimp only
  by_cases hsame : t = e
  · subst hsame
    rw [if_pos rfl]
    cases lag
    · simp only [Bool.toNat_false] at hk ⊢
      refine ⟨hstart, ?_, fun h => by cases h⟩
      split_ifs <;> omega
    · obtain ⟨hmod, hpos⟩ := hlag rfl
      simp only [Bool.toNat_true] at hk ⊢
      refine ⟨hstart, ?_, fun _ => ⟨hmod, hpos⟩⟩
      split_ifs <;> omega
  · rw [if_neg hsame]
    by_cases hput : (t - start) % 5000000000 = 0 ∧
        (t < e + 5000000000 ∨ t = e + 5000000000 ∧ lag = false)
    · rw [decide_eq_true hput]
      simp only [Bool.toNat_true]
      cases lag
      · simp only [Bool.toNat_false] at hk
        refine ⟨by omega, ?_, fun _ => ⟨hput.1, by omega⟩⟩
        split_ifs <;> omega
      · -- two multiples of the interval are not less than one interval apart
        obtain ⟨hmod, -⟩ := hlag rfl
        have hlt : t < e + 5000000000 := hput.2.resolve_right fun h => by cases h.2
        omega
    · rw [decide_eq_false hput]
      simp only [Bool.toNat_false]
      refine ⟨by omega, ?_, fun h => by cases h⟩
      cases lag
      · simp only [Bool.toNat_false, and_true] at hk hput
        split_ifs <;> omega
      · obtain ⟨hmod, hpos⟩ := hlag rfl
        simp only [Bool.toNat_true, Bool.true_eq_false, and_false, or_false] at hk hput
        split_ifs <;> omega

theorem tickCounts_eq_zipWith {start k : ℕ} {prev : ℕ × Bool} (h : Counted start k prev)
    (vs : List Visit) (hmono : (prev.1 :: vs.map fun v => v.time.toNat).Pairwise (· ≤ ·)) :
    tickCounts start k vs =
        List.zipWith (fun c b => (c.time.toNat - start) / TICK_INTERVAL.toNat - Bool.toNat b)
          (sharedCalls vs) (putOffs start prev vs) ∧
      putOffs start prev vs =
        List.zipWith (fun c k => decide (k < (c.time.toNat - start) / TICK_INTERVAL.toNat))
          (sharedCalls vs) (tickCounts start k vs) := by
  induction vs generalizing k prev with
  | nil => exact ⟨rfl, rfl⟩
  | cons v vs ih =>
    rw [List.map_cons, List.pairwise_cons] at hmono
    have hstep := h.step (hmono.1 _ List.mem_cons_self)
    obtain ⟨ihk, ihp⟩ := ih hstep hmono.2
    cases v with
    | extra r t => exact ⟨ihk, ihp⟩
    | shared c =>
      obtain ⟨-, hk, hlag⟩ := hstep
      dsimp only [Visit.time] at hk hlag ihk ihp
      simp only [tickCounts, putOffs, sharedCalls, List.zipWith_cons_cons, List.cons.injEq]
      refine ⟨⟨hk, ihk⟩, ?_, ihp⟩
      cases hb : putOff start prev c.time.toNat
      · rw [hb, Bool.toNat_false] at hk
        exact (decide_eq_false (by omega)).symm
      · rw [hb, Bool.toNat_true] at hk
        have hpos := (hlag hb).2
        exact (decide_eq_true (by omega)).symm

/-! ### Two runs -/

section

variable {K : Type*}

def setLastTick (x : UInt64) (m : Meter (Audit K)) : Meter (Audit K) := { m with lastTick := x }

theorem setLastTick_rate (x : UInt64) (m : Meter (Audit K)) (r : Rate) :
    (m.setLastTick x).rate r = m.rate r := by
  cases r <;> rfl

theorem setLastTick_setLastTick (x y : UInt64) (m : Meter (Audit K)) :
    (m.setLastTick x).setLastTick y = m.setLastTick y := rfl

variable [Field K]

def afterTick (m : Meter (Audit K)) : Call → Meter (Audit K)
  | .mark n =>
    { m with
      count := m.count + n
      m1Rate := Averager.update n m.m1Rate
      m5Rate := Averager.update n m.m5Rate
      m15Rate := Averager.update n m.m15Rate }
  | .getRate _ => m

theorem perform_eq_afterTick (m : Meter (Audit K)) (c : TimedCall) :
    m.perform c = (m.tickIfNecessary c.time).afterTick c.call := by
  obtain ⟨time, call⟩ := c
  cases call <;> rfl

def returned (m : Meter (Audit K)) (c : TimedCall) : Option K :=
  match c.call with
  | .mark _ => none
  | .getRate r => some (getRateOf r c.time (m.map Audit.ewma)).1

/-- The updates that the ticks applied so far have consumed, one list a tick. -/
def consumed (m : Meter (Audit K)) (r : Rate) : List (List UInt64) := (m.rate r).batches

def sharedView : Meter (Audit K) → List Visit → List (Option K × (Rate → List (List UInt64)))
  | _, [] => []
  | m, .shared c :: vs => (returned m c, (m.perform c).consumed) :: sharedView (m.perform c) vs
  | m, .extra r t :: vs => sharedView (m.perform ⟨t, .getRate r⟩) vs

def sharedReturns (m : Meter (Audit K)) (vs : List Visit) : List (Option K) :=
  (sharedView m vs).map Prod.fst

def sharedConsumed (m : Meter (Audit K)) (vs : List Visit) :
    List (Rate → List (List UInt64)) :=
  (sharedView m vs).map Prod.snd

theorem iterate_tick_setLastTick (i : ℕ) (m : Meter (Audit K)) (x : UInt64) :
    tick^[i] (m.setLastTick x) = (tick^[i] m).setLastTick x := by
  induction i generalizing m with
  | zero => rfl
  | succ i ih => exact ih m.tick

def advance (i : ℕ) (m : Meter (Audit K)) : Meter (Audit K) :=
  (tick^[i] m).setLastTick (m.lastTick + UInt64.ofNat (i * TICK_INTERVAL.toNat))

theorem advance_lastTick (i : ℕ) (m : Meter (Audit K)) :
    (advance i m).lastTick = m.lastTick + UInt64.ofNat (i * TICK_INTERVAL.toNat) := rfl

theorem advance_advance (i j : ℕ) (m : Meter (Audit K)) :
    advance j (advance i m) = advance (i + j) m := by
  rw [advance, advance_lastTick, advance, iterate_tick_setLastTick, setLastTick_setLastTick,
    ← Function.iterate_add_apply, Nat.add_comm j i, UInt64.add_assoc, ← UInt64.ofNat_add,
    ← Nat.add_mul, advance]

theorem advance_zero (m : Meter (Audit K)) : advance 0 m = m := by
  have h : m.lastTick + UInt64.ofNat (0 * TICK_INTERVAL.toNat) = m.lastTick := by simp
  rw [advance, h]
  rfl

theorem tickIfNecessary_eq_advance {m : Meter (Audit K)} {start k : ℕ} {t : UInt64}
    (hm : m.lastTick.toNat = start + k * TICK_INTERVAL.toNat)
    (hle : start + k * TICK_INTERVAL.toNat ≤ t.toNat) :
    m.tickIfNecessary t = advance (ticksAfter k (t.toNat - start) - k) m ∧
      (m.tickIfNecessary t).lastTick.toNat =
        start + ticksAfter k (t.toNat - start) * TICK_INTERVAL.toNat := by
  have hold : m.lastTick ≤ t := UInt64.le_iff_toNat_le.mpr (hm ▸ hle)
  have hreq := requiredTicks_toNat hold
  have hnew := newTick_toNat hold
  have hage := lt_tickAge_iff hold
  unfold tickIfNecessary ticksAfter
  dsimp only
  by_cases hdue : k * TICK_INTERVAL.toNat + TICK_INTERVAL.toNat < t.toNat - start
  · -- the ticks owed are the whole intervals that the `k` ticks do not cover
    have hk : (t.toNat - start) / TICK_INTERVAL.toNat =
        k + (requiredTicks m.lastTick t).toNat := by
      have hsplit : t.toNat - start =
          t.toNat - m.lastTick.toNat + TICK_INTERVAL.toNat * k := by
        rw [Nat.mul_comm]
        omega
      rw [hsplit, Nat.add_mul_div_left _ _ (by simp), hreq, Nat.add_comm]
    have hadd : newTick m.lastTick t =
        m.lastTick + UInt64.ofNat ((requiredTicks m.lastTick t).toNat * TICK_INTERVAL.toNat) := by
      rw [← UInt64.toNat_inj, UInt64.toNat_add, UInt64.toNat_ofNat', Nat.add_mod_mod, ← hnew,
        Nat.mod_eq_of_lt (UInt64.toNat_lt _)]
    rw [if_pos hdue, if_pos (hage.mpr (by omega)), hk, Nat.add_sub_cancel_left]
    refine ⟨?_, ?_⟩
    · rw [hadd]
      exact iterate_tick_setLastTick _ _ _
    · rw [iterate_tick_lastTick, hnew, hm, Nat.add_mul, Nat.add_assoc]
  · rw [if_neg hdue, if_neg (fun h => hdue (by have := hage.mp h; omega)), Nat.sub_self,
      advance_zero]
    exact ⟨rfl, hm⟩

theorem afterTick_lastTick (m : Meter (Audit K)) (c : Call) :
    (m.afterTick c).lastTick = m.lastTick := by
  cases c <;> rfl

/-- The shared calls of a run as the calls and their tick counts alone determine it. -/
def replay : ℕ → Meter (Audit K) → List (TimedCall × ℕ) →
    List (Option K × (Rate → List (List UInt64)))
  | _, _, [] => []
  | k, m, (c, k') :: cs =>
    let m' := advance (k' - k) m
    (match c.call with
      | .mark _ => none
      | .getRate r => some ((m'.rate r).ewma.getRate nanosPerSecond),
      (m'.afterTick c.call).consumed) :: replay k' (m'.afterTick c.call) cs

theorem returned_eq (m : Meter (Audit K)) (c : TimedCall) :
    returned m c =
      match c.call with
      | .mark _ => none
      | .getRate r => some (((m.tickIfNecessary c.time).rate r).ewma.getRate nanosPerSecond) := by
  obtain ⟨time, call⟩ := c
  cases call with
  | mark n => rfl
  | getRate r =>
    simp only [returned, getRateOf, ← map_tickIfNecessary Audit.forgets_ewma]
    cases r <;> rfl

/-- Reads between two shared calls only bring forward ticks that the second would have made. -/
theorem sharedView_eq_replay {m : Meter (Audit K)} {start k i now : ℕ} (vs : List Visit)
    (hm : (advance i m).lastTick.toNat = start + (k + i) * TICK_INTERVAL.toNat)
    (hnow : start + (k + i) * TICK_INTERVAL.toNat ≤ now)
    (hmono : (now :: vs.map fun v => v.time.toNat).Pairwise (· ≤ ·)) :
    sharedView (advance i m) vs =
      replay k m ((sharedCalls vs).zip (tickCounts start (k + i) vs)) := by
  induction vs generalizing m k i now with
  | nil => rfl
  | cons v vs ih =>
    rw [List.map_cons, List.pairwise_cons] at hmono
    have hle : start + (k + i) * TICK_INTERVAL.toNat ≤ v.time.toNat :=
      hnow.trans (hmono.1 _ List.mem_cons_self)
    obtain ⟨htick, hlast⟩ := tickIfNecessary_eq_advance hm hle
    have hgrow := le_ticksAfter (k + i) (v.time.toNat - start)
    have hbound : ticksAfter (k + i) (v.time.toNat - start) * TICK_INTERVAL.toNat ≤
        v.time.toNat - start := ticksAfter_mul_le (by omega)
    rw [htick, advance_advance] at hlast
    cases v with
    | extra r t =>
      dsimp only [Visit.time] at hle htick hlast hgrow hbound hmono
      simp only [sharedView, sharedCalls, tickCounts, perform_eq_afterTick, afterTick, htick,
        advance_advance]
      generalize ticksAfter (k + i) (t.toNat - start) = k' at *
      obtain ⟨j, rfl⟩ := Nat.exists_eq_add_of_le hgrow
      rw [Nat.add_sub_cancel_left, Nat.add_assoc] at *
      -- the read leaves `j` more ticks done that the next shared call would have made
      have hnext : start + (k + (i + j)) * TICK_INTERVAL.toNat ≤ t.toNat := by omega
      exact ih hlast hnext hmono.2
    | shared c =>
      dsimp only [Visit.time] at hle htick hlast hgrow hbound hmono
      simp only [sharedView, sharedCalls, tickCounts, perform_eq_afterTick, returned_eq, htick,
        advance_advance, List.zip_cons_cons, replay]
      generalize ticksAfter (k + i) (c.time.toNat - start) = k' at *
      obtain ⟨j, rfl⟩ := Nat.exists_eq_add_of_le hgrow
      rw [Nat.add_sub_cancel_left, Nat.add_assoc, Nat.add_sub_cancel_left] at *
      have hnext : start + (k + (i + j)) * TICK_INTERVAL.toNat ≤ c.time.toNat := by omega
      have hview := ih (m := (advance (i + j) m).afterTick c.call) (k := k + (i + j)) (i := 0)
        (by rw [advance_zero, afterTick_lastTick]; exact hlast) hnext hmono.2
      rw [advance_zero] at hview
      exact congrArg _ hview

theorem advance_rate (i : ℕ) (m : Meter (Audit K)) (r : Rate) :
    (advance i m).rate r = Averager.tick^[i] (m.rate r) := by
  rw [advance, setLastTick_rate, iterate_tick_rate]

theorem advance_consumed_length (i : ℕ) (m : Meter (Audit K)) (r : Rate) :
    ((advance i m).consumed r).length = (m.consumed r).length + i := by
  have htick : ∀ a : Audit K, (Averager.tick^[i] a).batches.length = a.batches.length + i := by
    induction i with
    | zero => exact fun _ => rfl
    | succ i ih =>
      intro a
      rw [Function.iterate_succ_apply, ih]
      show (a.batches ++ [a.pending]).length + i = _
      rw [List.length_append, List.length_singleton]
      omega
  rw [consumed, advance_rate, htick, consumed]

theorem afterTick_consumed (m : Meter (Audit K)) (c : Call) :
    (m.afterTick c).consumed = m.consumed := by
  funext r
  cases c <;> cases r <;> rfl

theorem sharedConsumed_length {m : Meter (Audit K)} {start k now : ℕ} (vs : List Visit)
    (hm : m.lastTick.toNat = start + k * TICK_INTERVAL.toNat)
    (hlen : (m.consumed .m1).length = k) (hnow : start + k * TICK_INTERVAL.toNat ≤ now)
    (hmono : (now :: vs.map fun v => v.time.toNat).Pairwise (· ≤ ·)) :
    (sharedConsumed m vs).map (fun f => (f .m1).length) = tickCounts start k vs := by
  induction vs generalizing m k now with
  | nil => rfl
  | cons v vs ih =>
    rw [List.map_cons, List.pairwise_cons] at hmono
    have hle : start + k * TICK_INTERVAL.toNat ≤ v.time.toNat :=
      hnow.trans (hmono.1 _ List.mem_cons_self)
    obtain ⟨htick, hlast⟩ := tickIfNecessary_eq_advance hm hle
    have hbound : ticksAfter k (v.time.toNat - start) * TICK_INTERVAL.toNat ≤
        v.time.toNat - start := ticksAfter_mul_le (by omega)
    have hnext : start + ticksAfter k (v.time.toNat - start) * TICK_INTERVAL.toNat ≤
        v.time.toNat := by omega
    have hcount : ((m.tickIfNecessary v.time).consumed .m1).length =
        ticksAfter k (v.time.toNat - start) := by
      rw [htick, advance_consumed_length, hlen]
      exact Nat.add_sub_cancel' (le_ticksAfter k _)
    cases v with
    | extra r t => exact ih hlast hcount hnext hmono.2
    | shared c =>
      have hrest := ih (m := m.perform c) (k := ticksAfter k (c.time.toNat - start))
        (by rw [perform_eq_afterTick, afterTick_lastTick]; exact hlast)
        (by rw [perform_eq_afterTick, afterTick_consumed]; exact hcount) hnext hmono.2
      have hhead : ((m.perform c).consumed .m1).length = ticksAfter k (c.time.toNat - start) := by
        rw [perform_eq_afterTick, afterTick_consumed]
        exact hcount
      exact congrArg₂ List.cons hhead hrest

theorem pairwise_toNat {start : UInt64} {vs : List Visit}
    (h : (start :: vs.map Visit.time).Pairwise (· ≤ ·)) :
    (start.toNat :: vs.map fun v => v.time.toNat).Pairwise (· ≤ ·) := by
  have h' := List.pairwise_map.mpr (h.imp fun hab => UInt64.le_iff_toNat_le.mp hab)
  rw [List.map_cons, List.map_map] at h'
  exact h'

theorem sharedView_audited (A : EWMA.Alphas K) (rateUnit : Int64) (start : UInt64)
    (vs : List Visit) (h : (start :: vs.map Visit.time).Pairwise (· ≤ ·)) :
    sharedView (audited A rateUnit start) vs =
      replay 0 (audited A rateUnit start)
        ((sharedCalls vs).zip (tickCounts start.toNat 0 vs)) := by
  have hlast : (advance 0 (audited A rateUnit start)).lastTick.toNat =
      start.toNat + (0 + 0) * TICK_INTERVAL.toNat := by
    rw [advance_zero]
    simp [audited, new]
  have hview := sharedView_eq_replay vs hlast (by simp) (pairwise_toNat h)
  rwa [advance_zero] at hview

/-- Of two runs with the same shared calls, whatever rate reads each has of its own: the shared
calls return the same values and find the same updates consumed by the same ticks if and only if
the two runs put the same shared calls' ticks off. -/
theorem reads_unobserved_iff (A : EWMA.Alphas K) (rateUnit : Int64) (start : UInt64)
    (vs ws : List Visit) (hshared : sharedCalls vs = sharedCalls ws)
    (hvs : (start :: vs.map Visit.time).Pairwise (· ≤ ·))
    (hws : (start :: ws.map Visit.time).Pairwise (· ≤ ·)) :
    (sharedReturns (audited A rateUnit start) vs = sharedReturns (audited A rateUnit start) ws ∧
        sharedConsumed (audited A rateUnit start) vs =
          sharedConsumed (audited A rateUnit start) ws) ↔
      putOffs start.toNat (start.toNat, false) vs =
        putOffs start.toNat (start.toNat, false) ws := by
  have hstart : Counted start.toNat 0 (start.toNat, false) :=
    ⟨le_rfl, by simp, fun h => by cases h⟩
  obtain ⟨hkv, hpv⟩ := tickCounts_eq_zipWith hstart vs (pairwise_toNat hvs)
  obtain ⟨hkw, hpw⟩ := tickCounts_eq_zipWith hstart ws (pairwise_toNat hws)
  constructor
  · rintro ⟨-, hconsumed⟩
    have hlast : (audited A rateUnit start).lastTick.toNat =
        start.toNat + 0 * TICK_INTERVAL.toNat := by simp [audited, new]
    have hlenv := sharedConsumed_length vs hlast rfl (by simp) (pairwise_toNat hvs)
    have hlenw := sharedConsumed_length ws hlast rfl (by simp) (pairwise_toNat hws)
    rw [hpv, hpw, ← hlenv, ← hlenw, hconsumed, hshared]
  · intro hput
    have hview : sharedView (audited A rateUnit start) vs =
        sharedView (audited A rateUnit start) ws := by
      rw [sharedView_audited _ _ _ _ hvs, sharedView_audited _ _ _ _ hws, hkv, hkw, hput, hshared]
    exact ⟨congrArg (List.map Prod.fst) hview, congrArg (List.map Prod.snd) hview⟩

end

def unread : List Visit :=
  [.shared ⟨1000, .mark 5⟩, .shared ⟨10000000000, .getRate .m1⟩]

def readEarly : List Visit :=
  [.shared ⟨1000, .mark 5⟩, .extra .m1 4000000000, .shared ⟨10000000000, .getRate .m1⟩]

theorem reads_unobserved_iff_readEarly :
    sharedReturns (audited (⟨1 / 2, 1 / 3, 1 / 4⟩ : EWMA.Alphas ℚ) 1000000000 0) unread =
      sharedReturns (audited (⟨1 / 2, 1 / 3, 1 / 4⟩ : EWMA.Alphas ℚ) 1000000000 0) readEarly :=
  ((reads_unobserved_iff _ _ 0 unread readEarly rfl (by decide) (by decide)).mpr (by decide)).1

def read : List Visit :=
  [.shared ⟨1000, .mark 5⟩, .extra .m1 6000000000, .shared ⟨10000000000, .getRate .m1⟩]

/-- Nobody looked, two ticks; somebody looked, and the second tick is put off: the rate that both
runs read at the same time differs by the factor `1 - M1_ALPHA`. -/
theorem read_is_observed :
    sharedCalls unread = sharedCalls read ∧
      ((0 : UInt64) :: unread.map Visit.time).Pairwise (· ≤ ·) ∧
      ((0 : UInt64) :: read.map Visit.time).Pairwise (· ≤ ·) ∧
      sharedReturns (audited EWMA.Alphas.source 1000000000 0) unread ≠
        sharedReturns (audited EWMA.Alphas.source 1000000000 0) read := by
  refine ⟨rfl, by decide, by decide, ?_⟩
  have hticks : tickCounts 0 0 unread = [0, 2] := by decide
  have hticks' : tickCounts 0 0 read = [0, 1] := by decide
  unfold sharedReturns
  rw [sharedView_audited _ _ _ _ (by decide), sharedView_audited _ _ _ _ (by decide),
    UInt64.toNat_zero, hticks, hticks']
  let e := EWMA.update 5 (EWMA.oneMinuteEWMA EWMA.Alphas.source)
  have hmarked : ((advance (0 - 0) (audited EWMA.Alphas.source 1000000000 0)).afterTick
      (.mark 5)).rate .m1 = ⟨e, [], [], [5]⟩ := by
    rw [Nat.sub_zero, advance_zero]
    rfl
  intro h
  have hfinal := congrArg List.getLast? h
  simp only [replay, sharedCalls, unread, read, List.zip_cons_cons, List.zip_nil_right,
    List.map_cons, List.map_nil, advance_rate, hmarked] at hfinal
  have hrates : e.tick.tick.ewma * (nanosPerSecond : ℤ) = e.tick.ewma * (nanosPerSecond : ℤ) :=
    Option.some.inj (Option.some.inj hfinal)
  have hpos : 0 < EWMA.alphaOf EWMA.ONE_MINUTE := (EWMA.alphaOf_mem_Ioo (by decide)).1
  have hdecay : e.tick.tick.ewma = (1 - EWMA.alphaOf EWMA.ONE_MINUTE) * e.tick.ewma :=
    EWMA.tick_tick_ewma rfl
  have hfirst : e.tick.ewma = 5 / 5000000000 := by
    have hcount : (5 : UInt64).toNat = 5 := by decide
    have hinterval : EWMA.defaultInterval.toNat = 5000000000 := by decide
    show EWMA.instantRate 5 EWMA.defaultInterval = _
    rw [EWMA.instantRate, hinterval, hcount]
    norm_num
  rw [hdecay, hfirst, nanosPerSecond] at hrates
  norm_num at hrates
  linarith

end CppMetrics.Meter
