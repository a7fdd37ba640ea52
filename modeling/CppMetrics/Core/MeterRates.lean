import CppMetrics.Core.EwmaHistory
import CppMetrics.Core.MeterLosses

/-! What a rate is when threads interleave. Ticks of one average come between each other, and some
have no effect; what is left is always the average of a single thread that has made some of them. -/

namespace CppMetrics.Meter

/-- The counts that the ticks of an average have taken, and those that make up its rate, in the
order in which they came to it. -/
structure Ticks where
  taken : List UInt64
  kept : List UInt64

/-- What the threads have done: the intervals they have claimed, the events they were called with,
and the ticks of each average. -/
structure RateLog where
  claims : Claims
  marked : ℕ
  ticks : Rate → Ticks

def RateLog.start (start : UInt64) : RateLog := ⟨⟨0, start⟩, 0, fun _ => ⟨[], []⟩⟩

section

variable {K : Type*}

def TickPc.hand : TickPc K → Multiset UInt64
  | .loadInitialized count | .loadEwma count | .compareExchange count _ | .storeEwma count =>
    {count}
  | .exchange | .storeInitialized => 0

/-- Where a thread is in a tick of the average `r`. -/
def inside (r : Rate) : Pc K → Option (TickPc K)
  | .ticking _ _ r' pc => if r = r' then some pc else none
  | _ => none

def inHand (r : Rate) (pc : Pc K) : Multiset UInt64 := (inside r pc).elim 0 TickPc.hand

def due (r : Rate) : Pc K → ℕ
  | .ticking _ left r' .exchange => left + if r ∈ toUpdate r' then 1 else 0
  | .ticking _ left r' _ => left + if r ∈ toUpdate r' ∧ r ≠ r' then 1 else 0
  | _ => 0

def toCome (r : Rate) : Pc K → ℕ
  | .idle | .loadRate _ => 0
  | .loadTick c | .readClock c _ | .compareExchange c _ _ | .ticking c _ _ _ => c.events
  | .addCount n => n.toNat
  | .updating n r' => if r ∈ toUpdate r' then n.toNat else 0

/-- The calls of a single thread that ticks once for each count. -/
def callsOf (counts : List UInt64) : List EWMA.Call :=
  counts.flatMap fun n => [.update n, .tick]

end

variable {K : Type*} [Field K] [DecidableEq K] {ι : Type*} [DecidableEq ι]

def TickPc.record (e : EWMA K) (x : Ticks) : TickPc K → Ticks
  | .exchange => { x with taken := x.taken ++ [e.uncounted] }
  | .compareExchange count curEwma =>
    if e.ewma = curEwma then { x with kept := x.kept ++ [count] } else x
  -- the average begins again with this count
  | .storeEwma count => { x with kept := [count] }
  | _ => x

def recordStep (ticks : Rate → Ticks) (m : Meter (EWMA K)) : Pc K → Rate → Ticks
  | .ticking _ _ r pc => Function.update ticks r (pc.record (m.rate r) (ticks r))
  | _ => ticks

def RateLog.note (g : RateLog) (s : State ι K) : Action ι → RateLog
  | .advance now => { g with claims := g.claims.note s (.advance now) }
  | .call i c => ⟨g.claims.note s (.call i c), g.marked + c.events, g.ticks⟩
  | .step i => ⟨g.claims.note s (.step i), g.marked, recordStep g.ticks s.meter (s.pc i)⟩

/-! ### One thread that ticks once for each count -/

section

omit [DecidableEq K]

variable {e : EWMA K}

theorem performAll_callsOf_concat (e : EWMA K) (counts : List UInt64) (n : UInt64) :
    e.performAll (callsOf (counts ++ [n])) = ((e.performAll (callsOf counts)).update n).tick := by
  rw [callsOf, List.flatMap_append, EWMA.performAll, List.foldl_append, List.flatMap_singleton]
  rfl

/-- A thread that has ticked has nothing left to count, and the average has its first rate. -/
structure Settled (e : EWMA K) (counts : List UInt64) (e' : EWMA K) : Prop where
  uncounted : e'.uncounted = 0
  initialized : e'.initialized = !counts.isEmpty
  alpha : e'.alpha = e.alpha
  interval : e'.intervalNanos = e.intervalNanos

theorem settled_performAll (he : e.uncounted = 0) (hinit : e.initialized = false)
    (counts : List UInt64) : Settled e counts (e.performAll (callsOf counts)) := by
  induction counts using List.reverseRecOn with
  | nil => exact ⟨he, hinit, rfl, rfl⟩
  | append_singleton counts n ih =>
    rw [performAll_callsOf_concat]
    refine ⟨EWMA.tick_uncounted _, ?_, ?_, ?_⟩
    · rw [EWMA.tick_initialized]
      simp
    · rw [EWMA.tick_alpha]
      exact ih.alpha
    · rw [EWMA.tick_intervalNanos]
      exact ih.interval

theorem performAll_singleton_ewma (he : e.uncounted = 0) (hinit : e.initialized = false)
    (n : UInt64) :
    (e.performAll (callsOf [n])).ewma = EWMA.instantRate n e.intervalNanos := by
  show ((e.update n).tick).ewma = _
  have hstart : (e.update n).initialized = false := hinit
  rw [EWMA.tick, hstart, EWMA.update_uncounted, he, zero_add]
  rfl

theorem performAll_concat_ewma (he : e.uncounted = 0) (hinit : e.initialized = false)
    {counts : List UInt64} (hne : counts ≠ []) (n : UInt64) :
    (e.performAll (callsOf (counts ++ [n]))).ewma =
      EWMA.blend e.alpha (e.performAll (callsOf counts)).ewma
        (EWMA.instantRate n e.intervalNanos) := by
  have hsettled := settled_performAll he hinit counts
  have hticked : ((e.performAll (callsOf counts)).update n).initialized = true := by
    refine hsettled.initialized.trans ?_
    simpa using hne
  rw [performAll_callsOf_concat, EWMA.tick, hticked, EWMA.update_uncounted, hsettled.uncounted,
    zero_add, ← hsettled.alpha, ← hsettled.interval]
  rfl

end

/-! ### One tick of one average -/

structure Averages (fresh : EWMA K) (x : Ticks) (e : EWMA K) : Prop where
  ewma : e.ewma = (fresh.performAll (callsOf x.kept)).ewma
  kept : e.initialized = true → x.kept ≠ []
  alpha : e.alpha = fresh.alpha
  interval : e.intervalNanos = fresh.intervalNanos

def TickPc.Seen (x : Ticks) : TickPc K → Prop
  | .loadEwma _ | .compareExchange _ _ | .storeInitialized => x.kept ≠ []
  | _ => True

structure TickStep (fresh e : EWMA K) (x : Ticks) (pc : TickPc K) : Prop where
  averages : Averages fresh (pc.record e x) (pc.step e).1
  grows : x.kept ≠ [] → (pc.record e x).kept ≠ []
  seen : ∀ pc', (pc.step e).2 = some pc' → pc'.Seen (pc.record e x)
  once : ∀ others : Multiset UInt64, x.kept + pc.hand + others ≤ x.taken →
    (pc.record e x).kept + (pc.step e).2.elim 0 TickPc.hand + others ≤ (pc.record e x).taken
  events : ((pc.record e x).taken.map UInt64.toNat).sum + (pc.step e).1.uncounted.toNat =
    (x.taken.map UInt64.toNat).sum + e.uncounted.toNat

variable {fresh e : EWMA K} {x : Ticks}

omit [DecidableEq K] in
theorem Averages.blend (h : Averages fresh x e) (hcount : fresh.uncounted = 0)
    (hinit : fresh.initialized = false) (hne : x.kept ≠ []) (n : UInt64) :
    Averages fresh { x with kept := x.kept ++ [n] }
      { e with ewma := EWMA.blend e.alpha e.ewma (EWMA.instantRate n e.intervalNanos) } where
  ewma := by
    rw [performAll_concat_ewma hcount hinit hne, ← h.ewma, ← h.alpha, ← h.interval]
  kept _ := by simp
  alpha := h.alpha
  interval := h.interval

theorem Averages.tickStep (h : Averages fresh x e) (hcount : fresh.uncounted = 0)
    (hinit : fresh.initialized = false) {pc : TickPc K} (hpc : pc.Seen x) :
    TickStep fresh e x pc := by
  cases pc with
  | exchange =>
    refine ⟨⟨h.ewma, h.kept, h.alpha, h.interval⟩, id, ?_, fun others hle => ?_, ?_⟩
    · rintro _ ⟨⟩
      trivial
    · have htaken : ((x.taken ++ [e.uncounted] : List UInt64) : Multiset UInt64) =
          x.taken + {e.uncounted} := (Multiset.coe_add _ _).symm
      show (x.kept : Multiset UInt64) + {e.uncounted} + others ≤
        ((x.taken ++ [e.uncounted] : List UInt64) : Multiset UInt64)
      rw [TickPc.hand, add_zero] at hle
      rw [htaken, add_right_comm]
      exact add_le_add_left hle _
    · simp [TickPc.record, TickPc.step]
  | loadInitialized count =>
    refine ⟨h, id, ?_, fun others hle => ?_, rfl⟩
    · rintro _ ⟨⟩
      split_ifs with hfirst
      · exact h.kept hfirst
      · trivial
    · refine le_of_eq_of_le ?_ hle
      cases hfirst : e.initialized <;> simp [TickPc.step, TickPc.record, TickPc.hand, hfirst]
  | loadEwma count =>
    refine ⟨h, id, ?_, fun others hle => hle, rfl⟩
    rintro _ ⟨⟩
    exact hpc
  | compareExchange count curEwma =>
    unfold TickPc.Seen at hpc
    by_cases heq : e.ewma = curEwma
    · subst heq
      refine ⟨?_, fun _ => ?_, fun _ hnext => (nomatch hnext), fun others hle => ?_, ?_⟩
      · simpa [TickPc.step, TickPc.record] using h.blend hcount hinit hpc count
      · simp [TickPc.record]
      · have hkept : ((x.kept ++ [count] : List UInt64) : Multiset UInt64) = x.kept + {count} :=
          (Multiset.coe_add _ _).symm
        simpa [TickPc.step, TickPc.record, TickPc.hand, hkept] using hle
      · simp [TickPc.step, TickPc.record]
    · refine ⟨?_, ?_, fun _ hnext => (nomatch hnext), fun others hle => ?_, ?_⟩
      · simpa [TickPc.step, TickPc.record, heq] using h
      · simp [TickPc.record, heq]
      · simp only [TickPc.step, TickPc.record, heq, if_false, Option.elim_none, add_zero]
        refine le_trans (add_le_add_left ?_ others) hle
        exact Multiset.le_add_right _ _
      · simp [TickPc.step, TickPc.record, heq]
  | storeEwma count =>
    refine ⟨⟨?_, fun _ => List.cons_ne_nil _ _, h.alpha, h.interval⟩,
      fun _ => List.cons_ne_nil _ _, ?_, fun others hle => ?_, rfl⟩
    · show EWMA.instantRate count e.intervalNanos = _
      rw [h.interval]
      exact (performAll_singleton_ewma hcount hinit count).symm
    · rintro _ ⟨⟩
      exact List.cons_ne_nil _ _
    · show ({count} : Multiset UInt64) + 0 + others ≤ x.taken
      rw [add_zero]
      refine le_trans (add_le_add_left ?_ others) hle
      exact Multiset.le_add_left _ _
  | storeInitialized =>
    exact ⟨⟨h.ewma, fun _ => hpc, h.alpha, h.interval⟩, id, fun _ hnext => (nomatch hnext),
      fun others hle => hle, rfl⟩

/-! ### One operation of a thread, seen from one average -/

section

omit [Field K] [DecidableEq K]

/-- The thread is in no tick of the average `r`, or has not taken a count yet. -/
def Outside (r : Rate) (pc : Pc K) : Prop := ∀ tick, inside r pc = some tick → tick = .exchange

instance (r : Rate) (pc : Pc K) : Decidable (Outside r pc) :=
  match h : inside r pc with
  | none => isTrue fun _ htick => nomatch h.symm.trans htick
  | some .exchange => isTrue fun _ htick => Option.some.inj (htick.symm.trans h)
  | some (.loadInitialized _) | some (.loadEwma _) | some (.compareExchange _ _)
  | some (.storeEwma _) | some .storeInitialized => isFalse fun hout => nomatch hout _ h

theorem Outside.of_none {r : Rate} {pc : Pc K} (h : inside r pc = none) : Outside r pc := by
  intro tick htick
  cases h.symm.trans htick

theorem Outside.inHand_eq_zero {r : Rate} {pc : Pc K} (h : Outside r pc) : inHand r pc = 0 := by
  unfold inHand
  cases hin : inside r pc with
  | none => rfl
  | some tick =>
    rw [h tick hin]
    rfl

theorem outside_afterTicks (r : Rate) (c : Call) : Outside r (afterTicks c : Pc K) :=
  .of_none (by cases c <;> rfl)

theorem outside_exchange (r r' : Rate) (c : Call) (left : ℕ) :
    Outside r (.ticking c left r' .exchange : Pc K) := by
  intro tick htick
  rw [inside] at htick
  split_ifs at htick
  exact (Option.some.inj htick).symm

theorem outside_loop (r : Rate) (c : Call) (left : ℕ) : Outside r (loop c left : Pc K) := by
  cases left with
  | zero => exact outside_afterTicks r c
  | succ left => exact outside_exchange r .m1 c left

theorem outside_nextAverage (r r' : Rate) (c : Call) (left : ℕ) :
    Outside r (nextAverage c left r' : Pc K) := by
  cases r' with
  | m1 => exact outside_exchange r .m5 c left
  | m5 => exact outside_exchange r .m15 c left
  | m15 => exact outside_loop r c left

theorem due_afterTicks (r : Rate) (c : Call) : due r (afterTicks c : Pc K) = 0 := by
  cases c <;> rfl

theorem due_loop (r : Rate) (c : Call) (left : ℕ) : due r (loop c left : Pc K) = left := by
  cases left with
  | zero => exact due_afterTicks r c
  | succ left => cases r <;> rfl

theorem due_nextAverage (r r' : Rate) (c : Call) (left : ℕ) :
    due r (nextAverage c left r' : Pc K) =
      left + if r ∈ toUpdate r' ∧ r ≠ r' then 1 else 0 := by
  cases r' with
  | m1 => cases r <;> rfl
  | m5 => cases r <;> rfl
  | m15 => cases r <;> exact due_loop _ c left

theorem toCome_afterTicks (r : Rate) (c : Call) : toCome r (afterTicks c : Pc K) = c.events := by
  cases c <;> rfl

theorem toCome_loop (r : Rate) (c : Call) (left : ℕ) :
    toCome r (loop c left : Pc K) = c.events := by
  cases left with
  | zero => exact toCome_afterTicks r c
  | succ left => rfl

theorem toCome_nextAverage (r r' : Rate) (c : Call) (left : ℕ) :
    toCome r (nextAverage c left r' : Pc K) = c.events := by
  cases r' with
  | m1 => rfl
  | m5 => rfl
  | m15 => exact toCome_loop r c left

theorem toCome_nextUpdate (r r' : Rate) (n : UInt64) :
    toCome r (nextUpdate n r' : Pc K) + (if r = r' then n.toNat else 0) =
      toCome r (.updating n r' : Pc K) := by
  cases r <;> cases r' <;> simp [toCome, nextUpdate, toUpdate]

structure Aside (r : Rate) (pc pc' : Pc K) : Prop where
  before : inside r pc = none
  after : Outside r pc'
  due : due r pc' = Meter.due r pc
  toCome : toCome r pc' = Meter.toCome r pc

end

variable {m m' : Meter (EWMA K)} {now : UInt64} {pc pc' : Pc K}

theorem threadStep_at (h : threadStep m now pc = some (m', pc')) (r : Rate) (g : Claims)
    (ticks : Rate → Ticks) :
    (∃ c left tick, pc = .ticking c left r tick ∧ m'.rate r = (tick.step (m.rate r)).1 ∧
      pc' = (tick.step (m.rate r)).2.elim (nextAverage c left r) (.ticking c left r)) ∨
    (∃ n, pc = .updating n r ∧ m'.rate r = (m.rate r).update n ∧ pc' = nextUpdate n r) ∨
    (∃ c oldTick curTick, pc = .compareExchange c oldTick curTick ∧ m.lastTick = oldTick ∧
      m'.rate r = m.rate r ∧ pc' = loop c (requiredTicks oldTick curTick).toNat) ∨
    (m'.rate r = m.rate r ∧ recordStep ticks m pc r = ticks r ∧
      (g.noteStep m now pc).claimed = g.claimed ∧ Aside r pc pc') := by
  cases pc with
  | idle => cases h
  | loadTick c =>
    cases h
    exact .inr (.inr (.inr ⟨rfl, rfl, rfl, rfl, .of_none rfl, rfl, rfl⟩))
  | readClock c oldTick =>
    cases h
    refine .inr (.inr (.inr ⟨rfl, rfl, rfl, rfl, ?_, ?_, ?_⟩)) <;> split_ifs
    · exact .of_none rfl
    · exact outside_afterTicks r c
    · rfl
    · exact due_afterTicks r c
    · rfl
    · exact toCome_afterTicks r c
  | compareExchange c oldTick curTick =>
    rw [threadStep] at h
    split_ifs at h with heq <;> cases h
    · exact .inr (.inr (.inl ⟨c, oldTick, curTick, rfl, heq, by cases r <;> rfl, rfl⟩))
    · refine .inr (.inr (.inr ⟨rfl, rfl, ?_, rfl, outside_afterTicks r c, due_afterTicks r c,
        toCome_afterTicks r c⟩))
      rw [Claims.noteStep, if_neg heq]
  | addCount n =>
    cases h
    refine .inr (.inr (.inr ⟨by cases r <;> rfl, rfl, rfl, rfl, .of_none rfl, rfl, ?_⟩))
    cases r <;> rfl
  | loadRate r' =>
    cases h
    exact .inr (.inr (.inr ⟨rfl, rfl, rfl, rfl, .of_none rfl, rfl, rfl⟩))
  | updating n r' =>
    cases h
    rcases eq_or_ne r r' with rfl | hne
    · refine .inr (.inl ⟨n, rfl, ?_, rfl⟩)
      rw [setRate_rate, if_pos rfl]
    · have hcome := toCome_nextUpdate (K := K) r r' n
      rw [if_neg hne, add_zero] at hcome
      refine .inr (.inr (.inr ⟨?_, rfl, rfl, rfl, .of_none ?_, ?_, hcome⟩))
      · rw [setRate_rate, if_neg hne]
      · cases r' <;> rfl
      · cases r' <;> rfl
  | ticking c left r' tick =>
    rw [threadStep] at h
    rcases eq_or_ne r r' with rfl | hne
    · refine .inl ⟨c, left, tick, rfl, ?_⟩
      split at h <;> rename_i e hstep <;> cases h <;> rw [hstep, setRate_rate, if_pos rfl] <;>
        exact ⟨rfl, rfl⟩
    · have hrecord : recordStep ticks m (.ticking c left r' tick) r = ticks r :=
        Function.update_of_ne hne _ _
      have hnone : ∀ tick : TickPc K, inside r (.ticking c left r' tick) = none :=
        fun _ => if_neg hne
      have hdue : ∀ tick : TickPc K, due r (.ticking c left r' tick) =
          left + if r ∈ toUpdate r' ∧ r ≠ r' then 1 else 0 := by
        intro tick
        cases tick <;> simp [due, hne]
      refine .inr (.inr (.inr ?_))
      split at h <;> rename_i e hstep <;> cases h <;> rw [setRate_rate, if_neg hne]
      · exact ⟨rfl, hrecord, rfl, hnone tick, .of_none (hnone _), (hdue _).trans (hdue _).symm, rfl⟩
      · exact ⟨rfl, hrecord, rfl, hnone tick, outside_nextAverage r r' c left,
          (due_nextAverage r r' c left).trans (hdue _).symm, toCome_nextAverage r r' c left⟩

theorem due_tick (e : EWMA K) (x : Ticks) (c : Call) (left : ℕ) (r : Rate) (tick : TickPc K) :
    due r ((tick.step e).2.elim (nextAverage c left r) (.ticking c left r)) +
        (tick.record e x).taken.length =
      due r (.ticking c left r tick) + x.taken.length := by
  have hself : r ∈ toUpdate r := by cases r <;> decide
  have hlast : due r (nextAverage c left r : Pc K) = left := by simp [due_nextAverage]
  cases tick with
  | exchange =>
    simp only [TickPc.step, TickPc.record, Option.elim_some, due, hself, if_true,
      List.length_append, List.length_singleton]
    simp only [ne_eq, not_true_eq_false, and_false, if_false]
    omega
  | loadInitialized count =>
    cases hinit : e.initialized <;> simp [TickPc.step, TickPc.record, due, hinit]
  | loadEwma count => simp [TickPc.step, TickPc.record, due]
  | compareExchange count curEwma =>
    show due r (nextAverage c left r : Pc K) + _ = _
    rw [hlast, TickPc.record]
    split_ifs <;> simp [due]
  | storeEwma count => simp [TickPc.step, TickPc.record, due]
  | storeInitialized =>
    show due r (nextAverage c left r : Pc K) + _ = _
    rw [hlast]
    simp [TickPc.record, due]

/-! ### All threads -/

section

variable [Fintype ι]

structure Follows (fresh : EWMA K) (r : Rate) (g : RateLog) (s : State ι K) : Prop where
  averages : Averages fresh (g.ticks r) (s.meter.rate r)
  seen : ∀ i tick, inside r (s.pc i) = some tick → tick.Seen (g.ticks r)
  once : (g.ticks r).kept + ∑ i, inHand r (s.pc i) ≤ ((g.ticks r).taken : Multiset UInt64)
  events : ((g.ticks r).taken.map UInt64.toNat).sum + (s.meter.rate r).uncounted.toNat +
    ∑ i, toCome r (s.pc i) ≤ g.marked
  intervals : (g.ticks r).taken.length + ∑ i, due r (s.pc i) = g.claims.claimed

variable {r : Rate} {g : RateLog} {s t : State ι K} {i : ι} {a : Action ι}

omit [DecidableEq K] in
theorem Follows.goto (h : Follows fresh r g s) {claims : Claims} {marked : ℕ} {clock : UInt64}
    {ticks : Rate → Ticks} (hticks : ticks r = g.ticks r)
    (hrate : Averages fresh (g.ticks r) (m'.rate r)) (hnone : inside r (s.pc i) = none)
    (hout : Outside r pc')
    (hevents : (m'.rate r).uncounted.toNat + toCome r pc' + g.marked ≤
      (s.meter.rate r).uncounted.toNat + toCome r (s.pc i) + marked)
    (hclaimed : due r pc' + g.claims.claimed = due r (s.pc i) + claims.claimed) :
    Follows fresh r ⟨claims, marked, ticks⟩ ⟨m', clock, Function.update s.pc i pc'⟩ := by
  constructor
  case averages =>
    dsimp only
    rwa [hticks]
  case seen =>
    dsimp only
    rw [hticks]
    refine (Function.forall_update_iff _ fun _ pc => ∀ tick, inside r pc = some tick →
      tick.Seen (g.ticks r)).mpr ⟨fun tick htick => ?_, fun j _ => h.seen j⟩
    rw [hout tick htick]
    trivial
  case once =>
    obtain ⟨others, hsum, hupdate⟩ := Machine.exists_sum_eq (inHand r) s.pc i
    have honce := h.once
    rw [hsum, (Outside.of_none hnone).inHand_eq_zero, zero_add] at honce
    dsimp only
    rwa [hupdate, hout.inHand_eq_zero, zero_add, hticks]
  case events =>
    have hsum := Machine.sum_update_add (toCome r) s.pc i pc'
    have hbefore := h.events
    dsimp only
    rw [hticks]
    omega
  case intervals =>
    have hsum := Machine.sum_update_add (due r) s.pc i pc'
    have hbefore := h.intervals
    dsimp only
    rw [hticks]
    omega

theorem Follows.ticked (h : Follows fresh r g s) (hcount : fresh.uncounted = 0)
    (hinit : fresh.initialized = false) {c : Call} {left : ℕ} {tick : TickPc K}
    (hpc : s.pc i = .ticking c left r tick) (hrate : m'.rate r = (tick.step (s.meter.rate r)).1)
    (clock : UInt64) :
    Follows fresh r ⟨g.claims, g.marked, recordStep g.ticks s.meter (.ticking c left r tick)⟩
      ⟨m', clock, Function.update s.pc i
        ((tick.step (s.meter.rate r)).2.elim (nextAverage c left r) (.ticking c left r))⟩ := by
  have hseen : tick.Seen (g.ticks r) := h.seen i tick (by rw [hpc, inside, if_pos rfl])
  have hstep := h.averages.tickStep hcount hinit hseen
  have hticks : recordStep g.ticks s.meter (.ticking c left r tick) r =
      tick.record (s.meter.rate r) (g.ticks r) := Function.update_self ..
  generalize hnext : (tick.step (s.meter.rate r)).2 = next
  constructor
  case averages =>
    dsimp only
    rw [hticks, hrate]
    exact hstep.averages
  case seen =>
    dsimp only
    rw [hticks]
    refine (Function.forall_update_iff _ fun _ pc => ∀ tick', inside r pc = some tick' →
      tick'.Seen _).mpr ⟨fun tick' htick => ?_, fun j _ tick' htick => ?_⟩
    · cases next with
      | none =>
        rw [outside_nextAverage r r c left tick' htick]
        trivial
      | some tick'' =>
        rw [Option.elim_some, inside, if_pos rfl] at htick
        exact hstep.seen tick' (hnext.trans htick)
    · -- what another thread has found is there still
      have hj := h.seen j tick' htick
      cases tick' with
      | loadEwma count => exact hstep.grows hj
      | compareExchange count curEwma => exact hstep.grows hj
      | storeInitialized => exact hstep.grows hj
      | _ => trivial
  case once =>
    obtain ⟨others, hsum, hupdate⟩ := Machine.exists_sum_eq (inHand r) s.pc i
    have hhere : inHand r (.ticking c left r tick) = tick.hand := by
      rw [inHand, inside, if_pos rfl, Option.elim_some]
    have hthere : inHand r (next.elim (nextAverage c left r) (.ticking c left r)) =
        next.elim 0 TickPc.hand := by
      cases next with
      | none => exact (outside_nextAverage r r c left).inHand_eq_zero
      | some tick' => rw [Option.elim_some, inHand, inside, if_pos rfl, Option.elim_some]
    have honce := h.once
    rw [hsum, hpc, hhere, ← add_assoc] at honce
    dsimp only
    rw [hupdate, hthere, ← add_assoc, hticks, ← hnext]
    exact hstep.once others honce
  case events =>
    have hsum := Machine.sum_update_add (toCome r) s.pc i
      (next.elim (nextAverage c left r) (.ticking c left r))
    have hcome : toCome r (next.elim (nextAverage c left r) (.ticking c left r)) = c.events := by
      cases next with
      | none => exact toCome_nextAverage r r c left
      | some tick' => rfl
    have hmoved := hstep.events
    have hbefore := h.events
    have hhere : toCome r (.ticking c left r tick) = c.events := rfl
    rw [hpc, hcome, hhere] at hsum
    dsimp only
    rw [hticks, hrate]
    omega
  case intervals =>
    have hsum := Machine.sum_update_add (due r) s.pc i
      (next.elim (nextAverage c left r) (.ticking c left r))
    have hdue := due_tick (s.meter.rate r) (g.ticks r) c left r tick
    have hbefore := h.intervals
    rw [hnext] at hdue
    rw [hpc] at hsum
    dsimp only
    rw [hticks]
    omega

omit [Field K] [DecidableEq K] in
theorem update_uncounted_le (n : UInt64) (e : EWMA K) :
    (e.update n).uncounted.toNat ≤ e.uncounted.toNat + n.toNat := by
  rw [EWMA.update_uncounted, UInt64.toNat_add]
  exact Nat.mod_le _ _

omit [DecidableEq K] in
theorem Follows.updated (h : Follows fresh r g s) {n : UInt64} (hpc : s.pc i = .updating n r)
    (hrate : m'.rate r = (s.meter.rate r).update n) (clock : UInt64) :
    Follows fresh r g ⟨m', clock, Function.update s.pc i (nextUpdate n r)⟩ := by
  have hout : Outside r (nextUpdate n r : Pc K) := .of_none (by cases r <;> rfl)
  have hdue : due r (nextUpdate n r : Pc K) = 0 := by cases r <;> rfl
  have hcome := toCome_nextUpdate (K := K) r r n
  have hle := update_uncounted_le n (s.meter.rate r)
  rw [if_pos rfl] at hcome
  refine h.goto rfl ?_ ?_ hout ?_ ?_
  · rw [hrate]
    exact ⟨h.averages.ewma, h.averages.kept, h.averages.alpha, h.averages.interval⟩
  · rw [hpc]
    rfl
  · rw [hrate, hpc]
    omega
  · rw [hdue, hpc]
    rfl

theorem Follows.step (h : Follows fresh r g s) (hcount : fresh.uncounted = 0)
    (hinit : fresh.initialized = false) (hstep : s.step a = some t) :
    Follows fresh r (g.note s a) t := by
  rcases step_cases hstep with
    ⟨now, rfl, -, rfl⟩ | ⟨i, c, rfl, hidle, rfl⟩ | ⟨i, m', pc', rfl, hthread, rfl⟩
  · exact ⟨h.averages, h.seen, h.once, h.events, h.intervals⟩
  · refine h.goto rfl h.averages ?_ (.of_none rfl) ?_ ?_ <;> rw [hidle]
    · rfl
    · show _ + c.events + g.marked ≤ _ + 0 + (g.marked + c.events)
      omega
    · rfl
  · show Follows fresh r ⟨g.claims.noteStep s.meter s.clock (s.pc i), g.marked,
      recordStep g.ticks s.meter (s.pc i)⟩ _
    rcases threadStep_at hthread r g.claims g.ticks with
      ⟨c, left, tick, hpc, hrate, rfl⟩ | ⟨n, hpc, hrate, rfl⟩ |
      ⟨c, oldTick, curTick, hpc, hlast, hrate, rfl⟩ | ⟨hrate, hticks, hclaimed, haside⟩
    · rw [hpc]
      exact h.ticked hcount hinit hpc hrate s.clock
    · rw [hpc]
      exact h.updated hpc hrate s.clock
    · -- the thread that has claimed these intervals has to tick once for each
      refine h.goto ?_ (hrate ▸ h.averages) ?_ (outside_loop r c _) ?_ ?_ <;> rw [hpc]
      · rfl
      · rfl
      · rw [hrate, toCome_loop]
        rfl
      · rw [due_loop, Claims.noteStep, if_pos hlast]
        show _ + _ = 0 + (_ + _)
        omega
    · refine h.goto hticks (hrate ▸ h.averages) haside.before haside.after ?_ ?_
      · rw [hrate, haside.toCome]
      · rw [haside.due, hclaimed]

omit [DecidableEq K] [DecidableEq ι] in
theorem follows_start (hrate : s.meter.rate r = fresh) (hidle : ∀ i, s.pc i = .idle)
    (hcount : fresh.uncounted = 0) (hinit : fresh.initialized = false) (start : UInt64) :
    Follows fresh r (.start start) s := by
  have hnone : ∀ {M : Type} [AddCommMonoid M] (w : Pc K → M), w .idle = 0 →
      ∑ i, w (s.pc i) = 0 := by
    intro M _ w hw
    refine Finset.sum_eq_zero fun i _ => ?_
    rw [hidle, hw]
  refine ⟨?_, fun i tick htick => ?_, ?_, ?_, ?_⟩
  · rw [hrate]
    refine ⟨rfl, fun h => ?_, rfl, rfl⟩
    cases hinit.symm.trans h
  · rw [hidle] at htick
    cases htick
  · rw [hnone (inHand r) rfl]
    exact le_rfl
  · rw [hnone (toCome r) rfl, hrate, hcount]
    rfl
  · rw [hnone (due r) rfl]
    rfl

end

/-! ### Ticks that no other tick comes between -/

structure Whole (x : Ticks) (e : EWMA K) : Prop where
  kept : x.kept = x.taken
  initialized : e.initialized = true ↔ x.kept ≠ []

def TickPc.Midway (x : Ticks) (e : EWMA K) : TickPc K → Prop
  | .exchange => Whole x e
  | .loadInitialized count =>
    x.taken = x.kept ++ [count] ∧ (e.initialized = true ↔ x.kept ≠ [])
  | .loadEwma count => x.taken = x.kept ++ [count] ∧ e.initialized = true ∧ x.kept ≠ []
  | .compareExchange count curEwma =>
    x.taken = x.kept ++ [count] ∧ e.initialized = true ∧ x.kept ≠ [] ∧ e.ewma = curEwma
  | .storeEwma count => x.taken = x.kept ++ [count] ∧ x.kept = []
  | .storeInitialized => x.kept = x.taken ∧ x.kept ≠ []

theorem TickPc.Midway.step {tick : TickPc K} (h : tick.Midway x e) :
    (tick.step e).2.elim (Whole (tick.record e x) (tick.step e).1)
      (TickPc.Midway (tick.record e x) (tick.step e).1) := by
  cases tick with
  | exchange => exact ⟨congrArg (· ++ [e.uncounted]) h.kept.symm, h.initialized⟩
  | loadInitialized count =>
    obtain ⟨htaken, hfirst⟩ := h
    show TickPc.Midway x e (if e.initialized then _ else _)
    split_ifs with hinit
    · exact ⟨htaken, hinit, hfirst.mp hinit⟩
    · exact ⟨htaken, by_contra fun hne => hinit (hfirst.mpr hne)⟩
  | loadEwma count => exact ⟨h.1, h.2.1, h.2.2, rfl⟩
  | compareExchange count curEwma =>
    obtain ⟨htaken, hinit, hne, rfl⟩ := h
    show Whole (TickPc.record e x _) _
    rw [TickPc.record, if_pos rfl, TickPc.step]
    dsimp only
    rw [if_pos rfl]
    exact ⟨htaken.symm, iff_of_true hinit (by simp)⟩
  | storeEwma count =>
    obtain ⟨htaken, hnone⟩ := h
    rw [hnone, List.nil_append] at htaken
    exact ⟨htaken.symm, List.cons_ne_nil _ _⟩
  | storeInitialized => exact ⟨h.1, iff_of_true rfl h.2⟩

/-- No thread takes the count of an average while another is inside a tick of it. -/
def Apart (s : State ι K) : Action ι → Prop
  | .step i => ∀ r c left, s.pc i = .ticking c left r .exchange → ∀ j, Outside r (s.pc j)
  | _ => True

def exchanging : Pc K → Option Rate
  | .ticking _ _ r .exchange => some r
  | _ => none

omit [Field K] [DecidableEq K] in
theorem exchanging_eq_some {pc : Pc K} :
    exchanging pc = some r ↔ ∃ c left, pc = .ticking c left r .exchange := by
  unfold exchanging
  split <;> simp_all

instance [Fintype ι] (s : State ι K) : (a : Action ι) → Decidable (Apart s a)
  | .step i => decidable_of_iff (∀ r ∈ exchanging (s.pc i), ∀ j, Outside r (s.pc j))
    ⟨fun h r c left hpc => h r (exchanging_eq_some.mpr ⟨c, left, hpc⟩),
      fun h r hr => let ⟨c, left, hpc⟩ := exchanging_eq_some.mp hr; h r c left hpc⟩
  | .advance _ => isTrue trivial
  | .call _ _ => isTrue trivial

structure Sole (r : Rate) (x : Ticks) (s : State ι K) : Prop where
  one : ∀ i j, ¬Outside r (s.pc i) → ¬Outside r (s.pc j) → i = j
  midway : ∀ i tick, inside r (s.pc i) = some tick → ¬Outside r (s.pc i) →
    tick.Midway x (s.meter.rate r)
  whole : (∀ i, Outside r (s.pc i)) → Whole x (s.meter.rate r)

omit [Field K] [DecidableEq K] in
theorem Whole.congr {e' : EWMA K} (h : Whole x e) (hinit : e'.initialized = e.initialized) :
    Whole x e' := ⟨h.kept, hinit ▸ h.initialized⟩

omit [Field K] [DecidableEq K] in
theorem TickPc.Midway.congr {e' : EWMA K} {tick : TickPc K} (h : tick.Midway x e)
    (hinit : e'.initialized = e.initialized) (hewma : e'.ewma = e.ewma) : tick.Midway x e' := by
  cases tick with
  | exchange => exact Whole.congr h hinit
  | loadInitialized count => exact ⟨h.1, hinit ▸ h.2⟩
  | loadEwma count => exact ⟨h.1, hinit ▸ h.2.1, h.2.2⟩
  | compareExchange count curEwma => exact ⟨h.1, hinit ▸ h.2.1, h.2.2.1, hewma ▸ h.2.2.2⟩
  | storeEwma count => exact h
  | storeInitialized => exact h

section

variable {r : Rate} {s t : State ι K} {i : ι} {a : Action ι} {ticks : Rate → Ticks}

omit [Field K] [DecidableEq K] in
theorem Sole.goto (h : Sole r x s) (hinit : (m'.rate r).initialized = (s.meter.rate r).initialized)
    (hewma : (m'.rate r).ewma = (s.meter.rate r).ewma) (hbefore : Outside r (s.pc i))
    (hafter : Outside r pc') (clock : UInt64) :
    Sole r x ⟨m', clock, Function.update s.pc i pc'⟩ := by
  have hold : ∀ j, ¬Outside r (Function.update s.pc i pc' j) →
      Function.update s.pc i pc' j = s.pc j := by
    intro j hj
    have hne : j ≠ i := by
      rintro rfl
      rw [Function.update_self] at hj
      exact hj hafter
    exact Function.update_of_ne hne _ _
  constructor
  case one =>
    intro j k hj hk
    exact h.one j k (hold j hj ▸ hj) (hold k hk ▸ hk)
  case midway =>
    intro j tick htick hj
    exact (h.midway j tick (hold j hj ▸ htick) (hold j hj ▸ hj)).congr hinit hewma
  case whole =>
    intro hall
    refine (h.whole fun j => ?_).congr hinit
    rcases eq_or_ne j i with rfl | hne
    · exact hbefore
    · have hj : Outside r (Function.update s.pc i pc' j) := hall j
      rwa [Function.update_of_ne hne] at hj

theorem Sole.ticked (h : Sole r x s) {c : Call} {left : ℕ} {tick : TickPc K}
    (hpc : s.pc i = .ticking c left r tick)
    (hapart : tick = .exchange → ∀ j, Outside r (s.pc j))
    (hrate : m'.rate r = (tick.step (s.meter.rate r)).1) (clock : UInt64) :
    Sole r (tick.record (s.meter.rate r) x) ⟨m', clock, Function.update s.pc i
      ((tick.step (s.meter.rate r)).2.elim (nextAverage c left r) (.ticking c left r))⟩ := by
  have hinside : inside r (s.pc i) = some tick := by rw [hpc, inside, if_pos rfl]
  have hothers : ∀ j, j ≠ i → Outside r (s.pc j) := by
    intro j hne
    by_contra hj
    refine hne (h.one j i hj fun hi => hj (hapart (hi tick hinside) j))
  have hmidway : tick.Midway x (s.meter.rate r) := by
    by_cases hi : Outside r (s.pc i)
    · have htick := hi tick hinside
      rw [htick]
      exact h.whole (hapart htick)
    · exact h.midway i tick hinside hi
  have hstep := hmidway.step
  rw [← hrate] at hstep
  generalize (tick.step (s.meter.rate r)).2 = next at hstep ⊢
  have hrest : ∀ j, ¬Outside r (Function.update s.pc i
      (next.elim (nextAverage c left r) (.ticking c left r)) j) → j = i := by
    intro j hj
    by_contra hne
    rw [Function.update_of_ne hne] at hj
    exact hj (hothers j hne)
  constructor
  case one => exact fun j k hj hk => (hrest j hj).trans (hrest k hk).symm
  case midway =>
    intro j tick' htick hj
    obtain rfl := hrest j hj
    dsimp only at htick hj ⊢
    rw [Function.update_self] at htick hj
    cases next with
    | none => exact absurd (outside_nextAverage r r c left) hj
    | some tick'' =>
      rw [Option.elim_some, inside, if_pos rfl, Option.some.injEq] at htick
      exact htick ▸ hstep
  case whole =>
    intro hall
    have hi := hall i
    dsimp only at hi ⊢
    rw [Function.update_self] at hi
    cases next with
    | none => exact hstep
    | some tick' =>
      have htick := hi tick' (by rw [Option.elim_some, inside, if_pos rfl])
      rw [htick] at hstep
      exact hstep

theorem Sole.step {g : RateLog} (h : Sole r (g.ticks r) s) (hapart : Apart s a)
    (hstep : s.step a = some t) : Sole r ((g.note s a).ticks r) t := by
  rcases step_cases hstep with
    ⟨now, rfl, -, rfl⟩ | ⟨i, c, rfl, hidle, rfl⟩ | ⟨i, m', pc', rfl, hthread, rfl⟩
  · exact ⟨h.one, h.midway, h.whole⟩
  · exact h.goto rfl rfl (hidle ▸ .of_none rfl) (.of_none rfl) s.clock
  · show Sole r (recordStep g.ticks s.meter (s.pc i) r) _
    rcases threadStep_at hthread r g.claims g.ticks with
      ⟨c, left, tick, hpc, hrate, rfl⟩ | ⟨n, hpc, hrate, rfl⟩ |
      ⟨c, oldTick, curTick, hpc, hlast, hrate, rfl⟩ | ⟨hrate, hticks, hclaimed, haside⟩
    · rw [hpc, recordStep, Function.update_self]
      exact h.ticked hpc (fun htick => hapart r c left (htick ▸ hpc)) hrate s.clock
    · have hout : Outside r (nextUpdate n r : Pc K) := .of_none (by cases r <;> rfl)
      rw [hpc]
      exact h.goto (hrate ▸ rfl) (hrate ▸ rfl) (hpc ▸ .of_none rfl) hout s.clock
    · rw [hpc]
      exact h.goto (hrate ▸ rfl) (hrate ▸ rfl) (hpc ▸ .of_none rfl) (outside_loop r c _) s.clock
    · rw [hticks]
      exact h.goto (hrate ▸ rfl) (hrate ▸ rfl) (.of_none haside.before) haside.after s.clock

end

/-! ### The rates of a run -/

theorem performAll_mem {K : Type*} [Field K] [LinearOrder K] [IsStrictOrderedRing K]
    {fresh : EWMA K} (hcount : fresh.uncounted = 0) (hinit : fresh.initialized = false)
    (halpha : fresh.alpha ∈ Set.Icc (0 : K) 1) {rates : Set K} (hrates : Convex K rates)
    {counts : List UInt64} (hne : counts ≠ [])
    (h : ∀ n ∈ counts, EWMA.instantRate n fresh.intervalNanos ∈ rates) :
    (fresh.performAll (callsOf counts)).ewma ∈ rates := by
  induction counts using List.reverseRecOn with
  | nil => exact absurd rfl hne
  | append_singleton counts n ih =>
    rw [List.forall_mem_append, List.forall_mem_singleton] at h
    rcases eq_or_ne counts [] with rfl | hsome
    · rw [List.nil_append, performAll_singleton_ewma hcount hinit]
      exact h.2
    · rw [performAll_concat_ewma hcount hinit hsome, EWMA.blend_eq_lineMap]
      exact hrates.lineMap_mem (ih hsome h.1) h.2 halpha

/-- The rate of the average `r`, as every reader finds it: the counts that make it up are some of
those that the ticks took, each of them at most once; the ticks took no more events than were
marked, and there is one for each interval that has gone by. -/
structure Sequential [Fintype ι] [LinearOrder K] (fresh : EWMA K) (start : UInt64) (r : Rate)
    (g : RateLog) (s : State ι K) : Prop where
  rate : (s.meter.rate r).ewma = (fresh.performAll (callsOf (g.ticks r).kept)).ewma
  between : (g.ticks r).kept ≠ [] → ∀ lo hi : K,
    (∀ n ∈ (g.ticks r).kept, EWMA.instantRate n fresh.intervalNanos ∈ Set.Icc lo hi) →
      (s.meter.rate r).ewma ∈ Set.Icc lo hi
  once : (g.ticks r).kept + ∑ i, inHand r (s.pc i) ≤ ((g.ticks r).taken : Multiset UInt64)
  events : ((g.ticks r).taken.map UInt64.toNat).sum + (s.meter.rate r).uncounted.toNat +
    ∑ i, toCome r (s.pc i) ≤ g.marked
  intervals : s.meter.lastTick.toNat = start.toNat +
    ((g.ticks r).taken.length + ∑ i, due r (s.pc i)) * TICK_INTERVAL.toNat

omit [DecidableEq K] [DecidableEq ι] in
theorem Sequential.of_follows [Fintype ι] [LinearOrder K] [IsStrictOrderedRing K] {fresh : EWMA K}
    {start : UInt64} {r : Rate} {g : RateLog} {s : State ι K} (h : Follows fresh r g s)
    (hcount : fresh.uncounted = 0) (hinit : fresh.initialized = false)
    (halpha : fresh.alpha ∈ Set.Icc (0 : K) 1) (hclaims : g.claims.Holds start s) :
    Sequential fresh start r g s where
  rate := h.averages.ewma
  between hne lo hi hrates := by
    rw [h.averages.ewma]
    exact performAll_mem hcount hinit halpha (convex_Icc lo hi) hne hrates
  once := h.once
  events := h.events
  intervals := by
    rw [h.intervals]
    exact hclaims.lastTick

noncomputable def newAverage (rateUnit : Int64) (start : UInt64) (r : Rate) : EWMA ℝ :=
  (create EWMA.Alphas.source rateUnit start).rate r

theorem newAverage_unused (rateUnit : Int64) (start : UInt64) (r : Rate) :
    (newAverage rateUnit start r).uncounted = 0 ∧
      (newAverage rateUnit start r).initialized = false := by
  cases r <;> exact ⟨rfl, rfl⟩

theorem newAverage_alpha (rateUnit : Int64) (start : UInt64) (r : Rate) :
    (newAverage rateUnit start r).alpha ∈ Set.Icc (0 : ℝ) 1 :=
  Set.Ioo_subset_Icc_self (weighed_create rateUnit start r).alpha

section

variable {ι : Type*} [DecidableEq ι] (rateUnit : Int64) (start : UInt64) (as : List (Action ι))

theorem always_claimed [Fintype ι] :
    Machine.Always (Machine.observe State.step RateLog.note)
      (fun x : RateLog × State ι ℝ => x.1.claims.Holds start x.2 ∧
        ∀ r, Follows (newAverage rateUnit start r) r x.1 x.2)
      (RateLog.start start, State.init EWMA.Alphas.source rateUnit start) as := by
  refine Machine.always_observe_of_invariant
    (P := fun (g : RateLog) (s : State ι ℝ) => g.claims.Holds start s ∧
      ∀ r, Follows (newAverage rateUnit start r) r g s) ?_ ?_ as
  · intro g s a t h hstep
    have hclaims := (h.1.step hstep).1
    refine ⟨by cases a <;> exact hclaims, fun r => ?_⟩
    obtain ⟨hcount, hinit⟩ := newAverage_unused rateUnit start r
    exact (h.2 r).step hcount hinit hstep
  · have hzero : start.toNat = start.toNat + 0 * TICK_INTERVAL.toNat := by
      rw [Nat.zero_mul, Nat.add_zero]
    refine ⟨⟨hzero, UInt64.le_refl _, UInt64.le_refl _, fun _ => trivial⟩, fun r => ?_⟩
    obtain ⟨hcount, hinit⟩ := newAverage_unused rateUnit start r
    exact follows_start (s := State.init EWMA.Alphas.source rateUnit start) rfl (fun _ => rfl)
      hcount hinit start

omit [DecidableEq ι] in
theorem sequential_of_claimed [Fintype ι] {g : RateLog} {s : State ι ℝ}
    (h : g.claims.Holds start s ∧ ∀ r, Follows (newAverage rateUnit start r) r g s) (r : Rate) :
    Sequential (newAverage rateUnit start r) start r g s := by
  obtain ⟨hcount, hinit⟩ := newAverage_unused rateUnit start r
  exact .of_follows (h.2 r) hcount hinit (newAverage_alpha rateUnit start r) h.1

/-- Whatever threads mark and read, and however their operations interleave, each rate is at all
times that of a meter that one thread uses, with the counts of some of the ticks. -/
theorem rates_are_sequential [Fintype ι] :
    Machine.Always (Machine.observe State.step RateLog.note)
      (fun x : RateLog × State ι ℝ =>
        ∀ r, Sequential (newAverage rateUnit start r) start r x.1 x.2)
      (RateLog.start start, State.init EWMA.Alphas.source rateUnit start) as := by
  exact (always_claimed rateUnit start as).imp fun x hx => sequential_of_claimed rateUnit start hx

theorem always_sole (hapart : Machine.Along State.step Apart
      (State.init EWMA.Alphas.source rateUnit start : State ι ℝ) as) :
    Machine.Always (Machine.observe State.step RateLog.note)
      (fun x : RateLog × State ι ℝ => ∀ r, Sole r (x.1.ticks r) x.2)
      (RateLog.start start, State.init EWMA.Alphas.source rateUnit start) as := by
  refine Machine.always_observe_of_along (C := Apart)
    (P := fun (g : RateLog) (s : State ι ℝ) => ∀ r, Sole r (g.ticks r) s)
    (fun h hC hstep r => (h r).step hC hstep) (fun r => ?_) hapart
  have hout : Outside r (.idle : Pc ℝ) := .of_none rfl
  refine ⟨fun i j hi => absurd hout hi, fun i tick htick => (nomatch htick), fun _ => ⟨rfl, ?_⟩⟩
  have hunused : ((State.init EWMA.Alphas.source rateUnit start : State ι ℝ).meter.rate
      r).initialized = false := (newAverage_unused rateUnit start r).2
  simp [hunused, RateLog.start]

/-- As long as no thread begins a tick of an average while another is still inside one, no tick is
lost: between ticks each rate is that of a meter that one thread uses, with every count that was
taken, in order. -/
theorem rates_whole_of_apart [Fintype ι] (hapart : Machine.Along State.step Apart
      (State.init EWMA.Alphas.source rateUnit start : State ι ℝ) as) :
    Machine.Always (Machine.observe State.step RateLog.note)
      (fun x : RateLog × State ι ℝ => ∀ r, (∀ i, Outside r (x.2.pc i)) →
        (x.2.meter.rate r).ewma =
          ((newAverage rateUnit start r).performAll (callsOf (x.1.ticks r).taken)).ewma)
      (RateLog.start start, State.init EWMA.Alphas.source rateUnit start) as := by
  refine ((always_claimed rateUnit start as).and (always_sole rateUnit start as hapart)).imp
    fun x hx r hout => ?_
  rw [((hx.1.2 r).averages).ewma, ((hx.2 r).whole hout).kept]

end

/-- Thread `true` ticks the averages for the first interval. Thread `false` claims the second one
meanwhile, and follows it from one average to the next. -/
def pipelined : List (Action Bool) := List.flatten
  [[.call false (.mark 5)], List.replicate 6 (.step false),
    [.advance 6000000000, .call true (.getRate .m1)], List.replicate 7 (.step true),
    [.advance 12000000000, .call false (.getRate .m1)], List.replicate 3 (.step false),
    List.flatten (List.replicate 8 [.step false, .step true]), List.replicate 5 (.step false),
    [.step true]]

theorem rates_whole_of_apart_pipelined :
    Machine.Always (Machine.observe State.step RateLog.note)
      (fun x : RateLog × State Bool ℝ => ∀ r, (∀ i, Outside r (x.2.pc i)) →
        (x.2.meter.rate r).ewma =
          ((newAverage 1000000000 0 r).performAll (callsOf (x.1.ticks r).taken)).ewma)
      (RateLog.start 0, State.init EWMA.Alphas.source 1000000000 0) pipelined :=
  rates_whole_of_apart 1000000000 0 pipelined (by decide +kernel)

end CppMetrics.Meter
