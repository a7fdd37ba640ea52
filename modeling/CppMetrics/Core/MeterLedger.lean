import CppMetrics.Core.Meter

/-! The ledger of a meter. Beside every average runs an audit of the counts its ticks took and of
the marks behind them; the marks of a run fall into one bucket a tick, in order, and the bucket of
a tick holds marks of its own interval only. -/

namespace CppMetrics

structure Mark where
  time : UInt64
  n : UInt64

def total (ms : List Mark) : ℕ := (ms.map fun mk => mk.n.toNat).sum

@[simp] theorem total_nil : total [] = 0 := rfl

@[simp] theorem total_append (as bs : List Mark) : total (as ++ bs) = total as + total bs := by
  simp only [total, List.map_append, List.sum_append]

@[simp] theorem total_singleton (mk : Mark) : total [mk] = mk.n.toNat := by simp [total]

theorem total_flatten (bs : List (List Mark)) : total bs.flatten = (bs.map total).sum := by
  induction bs with
  | nil => rfl
  | cons b bs ih => simp only [List.flatten_cons, total_append, List.map_cons, List.sum_cons, ih]

namespace Meter

def TimedCall.mark? (c : TimedCall) : Option Mark :=
  match c.call with
  | .mark n => some ⟨c.time, n⟩
  | .getRate _ => none

def marks (cs : List TimedCall) : List Mark := cs.filterMap TimedCall.mark?

end Meter

/-! ### The audit -/

/-- An average with a record of what it was given: the count each tick took with
`uncounted_.exchange(0)`, the updates behind that count, and the updates since the last tick. -/
structure Audit (K : Type*) where
  ewma : EWMA K
  taken : List UInt64
  batches : List (List UInt64)
  pending : List UInt64

namespace Audit

variable {K : Type*}

def start (e : EWMA K) : Audit K := ⟨e, [], [], []⟩

structure Records (a : Audit K) (bs : List (List Mark)) (p : List Mark) : Prop where
  taken : a.taken.map UInt64.toNat = bs.map total
  batches : a.batches = bs.map (List.map Mark.n)
  pending : a.pending = p.map Mark.n
  uncounted : a.ewma.uncounted.toNat = total p

theorem Records.start {e : EWMA K} (h : e.uncounted = 0) : Records (Audit.start e) [] [] :=
  ⟨rfl, rfl, rfl, by simp [Audit.start, h]⟩

variable [Field K]

instance : Averager (Audit K) where
  update n a := { a with ewma := a.ewma.update n, pending := a.pending ++ [n] }
  tick a :=
    { ewma := a.ewma.tick
      taken := a.taken ++ [a.ewma.uncounted]
      batches := a.batches ++ [a.pending]
      pending := [] }

/-- What an average comes to that gets the updates of each batch and a tick, and then those that are
pending. -/
def replay (e : EWMA K) (batches : List (List UInt64)) (pending : List UInt64) : EWMA K :=
  pending.foldl (fun e n => e.update n)
    (batches.foldl (fun e batch => (batch.foldl (fun e n => e.update n) e).tick) e)

theorem ewma_eq_replay (e : EWMA K) (cs : List Meter.TimedCall) {r : Rate}
    {m : Meter (Audit K)} (h : m.rate r = start e) :
    ((m.performAll cs).rate r).ewma =
      replay e ((m.performAll cs).rate r).batches ((m.performAll cs).rate r).pending := by
  refine Meter.performAll_rate (P := fun a : Audit K => a.ewma = replay e a.batches a.pending)
    (fun n a ha => ?_) (fun a ha => ?_) cs ?_
  · show a.ewma.update n = replay e a.batches (a.pending ++ [n])
    rw [replay, List.foldl_append, ha, replay]
    rfl
  · show a.ewma.tick = replay e (a.batches ++ [a.pending]) []
    rw [replay, List.foldl_append, ha, replay]
    rfl
  · rw [h]
    rfl

theorem forgets_ewma : Meter.Forgets (ewma : Audit K → EWMA K) := ⟨fun _ _ => rfl, fun _ => rfl⟩

variable {a : Audit K} {bs : List (List Mark)} {p : List Mark}

theorem Records.tick (h : Records a bs p) : Records (Averager.tick a) (bs ++ [p]) [] where
  taken := by
    show (a.taken ++ [a.ewma.uncounted]).map UInt64.toNat = _
    rw [List.map_append, List.map_append, h.taken, List.map_singleton, h.uncounted,
      List.map_singleton]
  batches := by
    show a.batches ++ [a.pending] = _
    rw [h.batches, h.pending, List.map_append, List.map_singleton]
  pending := rfl
  uncounted := by
    show a.ewma.tick.uncounted.toNat = _
    rw [EWMA.tick_uncounted]
    rfl

theorem Records.ticks (h : Records a bs p) (j : ℕ) :
    Records (Averager.tick^[j + 1] a) (bs ++ p :: List.replicate j []) [] := by
  induction j generalizing a bs p with
  | zero => exact h.tick
  | succ j ih =>
    rw [Function.iterate_succ_apply]
    simpa only [List.append_assoc, List.singleton_append, List.replicate_succ] using ih h.tick

theorem Records.update (h : Records a bs p) (mk : Mark) (hfit : total p + mk.n.toNat < 2 ^ 64) :
    Records (Averager.update mk.n a) bs (p ++ [mk]) where
  taken := h.taken
  batches := h.batches
  pending := by
    show a.pending ++ [mk.n] = _
    rw [h.pending, List.map_append, List.map_singleton]
  uncounted := by
    show (a.ewma.uncounted + mk.n).toNat = _
    rw [UInt64.toNat_add, h.uncounted, Nat.mod_eq_of_lt hfit, total_append, total_singleton]

end Audit

/-! ### The buckets of a run -/

namespace Meter

variable {K : Type*}

/-- After the calls that made the marks `ms`, the last of them at `now`: one batch a tick, the
`i`-th of marks of the `i`-th interval, and the pending marks made since `last_tick_`. -/
structure Bucketed (start now : ℕ) (ms : List Mark) (m : Meter (Audit K))
    (bs : List (List Mark)) (p : List Mark) : Prop where
  split : bs.flatten ++ p = ms
  lastTick : m.lastTick.toNat = start + bs.length * TICK_INTERVAL.toNat
  lastTick_le : m.lastTick.toNat ≤ now
  age_le : now ≤ m.lastTick.toNat + TICK_INTERVAL.toNat
  inside : ∀ i b, bs[i]? = some b → ∀ mk ∈ b,
    start + i * TICK_INTERVAL.toNat ≤ mk.time.toNat ∧
      mk.time.toNat ≤ start + (i + 1) * TICK_INTERVAL.toNat
  recent : ∀ mk ∈ p, m.lastTick.toNat ≤ mk.time.toNat ∧ mk.time.toNat ≤ now
  count : m.count.toNat = total ms
  records : ∀ r, (m.rate r).Records bs p

variable {start now : ℕ} {now' : UInt64} {ms : List Mark} {m : Meter (Audit K)}
  {bs : List (List Mark)} {p : List Mark}

theorem Bucketed.inside_ticks (h : Bucketed start now ms m bs p) (j : ℕ) :
    ∀ i b, (bs ++ p :: List.replicate j [])[i]? = some b → ∀ mk ∈ b,
      start + i * TICK_INTERVAL.toNat ≤ mk.time.toNat ∧
        mk.time.toNat ≤ start + (i + 1) * TICK_INTERVAL.toNat := by
  intro i b hb mk hmk
  by_cases hi : i < bs.length
  · rw [List.getElem?_append_left hi] at hb
    exact h.inside i b hb mk hmk
  · rw [List.getElem?_append_right (not_lt.mp hi)] at hb
    cases hk : i - bs.length with
    | zero =>
      rw [hk, List.getElem?_cons_zero, Option.some.injEq] at hb
      subst hb
      have hlen : i = bs.length := le_antisymm (Nat.sub_eq_zero_iff_le.mp hk) (not_lt.mp hi)
      have hrec := h.recent mk hmk
      have hlast := h.lastTick
      have hage := h.age_le
      rw [hlen, Nat.add_mul, Nat.one_mul]
      omega
    | succ k =>
      rw [hk, List.getElem?_cons_succ] at hb
      rw [List.eq_of_mem_replicate (List.mem_of_getElem? hb)] at hmk
      cases hmk

variable [Field K]

def audited (A : EWMA.Alphas K) (rateUnit : Int64) (now : UInt64) : Meter (Audit K) :=
  new rateUnit now (Audit.start (EWMA.oneMinuteEWMA A)) (Audit.start (EWMA.fiveMinuteEWMA A))
    (Audit.start (EWMA.fifteenMinuteEWMA A))

theorem bucketed_audited (A : EWMA.Alphas K) (rateUnit : Int64) (start : UInt64) :
    Bucketed start.toNat start.toNat [] (audited A rateUnit start) [] [] where
  split := rfl
  lastTick := by simp [audited, new]
  lastTick_le := le_rfl
  age_le := Nat.le_add_right _ _
  inside i b h := by simp at h
  recent mk h := by simp at h
  count := rfl
  records r := by cases r <;> exact .start rfl

theorem Bucketed.tickIfNecessary (h : Bucketed start now ms m bs p) (hle : now ≤ now'.toNat) :
    ∃ bs' p', Bucketed start now'.toNat ms (m.tickIfNecessary now') bs' p' := by
  have hold : m.lastTick ≤ now' := UInt64.le_iff_toNat_le.mpr (h.lastTick_le.trans hle)
  unfold Meter.tickIfNecessary
  dsimp only
  split_ifs with hage
  · rw [gt_iff_lt, lt_tickAge_iff hold] at hage
    have hreq := requiredTicks_toNat hold
    have hpos : 0 < (requiredTicks m.lastTick now').toNat := by
      rw [hreq]
      exact Nat.div_pos hage.le (by simp)
    -- at least one tick is owed; the first takes the pending marks, and `j` empty ones follow
    obtain ⟨j, hj⟩ := Nat.exists_eq_succ_of_ne_zero hpos.ne'
    have hnew := newTick_toNat hold
    have hmod := Nat.div_add_mod' (now'.toNat - m.lastTick.toNat) TICK_INTERVAL.toNat
    have hlt := Nat.mod_lt (now'.toNat - m.lastTick.toNat) (y := TICK_INTERVAL.toNat) (by simp)
    rw [← hreq] at hmod
    refine ⟨bs ++ p :: List.replicate j [], [], ?_⟩
    constructor
    case split => simpa using h.split
    case lastTick =>
      rw [iterate_tick_lastTick, hnew, hj, h.lastTick, List.length_append, List.length_cons,
        List.length_replicate, Nat.add_mul, Nat.add_assoc]
    case lastTick_le =>
      rw [iterate_tick_lastTick, hnew]
      omega
    case age_le =>
      rw [iterate_tick_lastTick, hnew]
      omega
    case inside => exact h.inside_ticks j
    case recent => exact fun mk hmk => absurd hmk List.not_mem_nil
    case count => rw [iterate_tick_count]; exact h.count
    case records =>
      intro r
      rw [iterate_tick_rate, hj]
      exact (h.records r).ticks j
  · rw [gt_iff_lt, lt_tickAge_iff hold] at hage
    refine ⟨bs, p, { h with lastTick_le := h.lastTick_le.trans hle, age_le := ?_, recent := ?_ }⟩
    · omega
    · exact fun mk hmk => ⟨(h.recent mk hmk).1, (h.recent mk hmk).2.trans hle⟩

theorem Bucketed.mark (h : Bucketed start now ms m bs p) (hle : now ≤ now'.toNat) (n : UInt64)
    (hfit : total ms + n.toNat < 2 ^ 64) :
    ∃ bs' p', Bucketed start now'.toNat (ms ++ [⟨now', n⟩]) (m.mark n now') bs' p' := by
  obtain ⟨bs', p', h'⟩ := h.tickIfNecessary hle
  have hsplit := congrArg total h'.split
  rw [total_append] at hsplit
  refine ⟨bs', p' ++ [⟨now', n⟩], ?_⟩
  constructor
  case split => rw [← List.append_assoc, h'.split]
  case lastTick => exact h'.lastTick
  case lastTick_le => exact h'.lastTick_le
  case age_le => exact h'.age_le
  case inside => exact h'.inside
  case recent =>
    intro mk hmk
    rcases List.mem_append.mp hmk with hmk | hmk
    · exact h'.recent mk hmk
    · rw [List.mem_singleton.mp hmk]
      exact ⟨h'.lastTick_le, le_rfl⟩
  case count =>
    show ((m.tickIfNecessary now').count + n).toNat = _
    rw [UInt64.toNat_add, h'.count, Nat.mod_eq_of_lt hfit, total_append, total_singleton]
  case records =>
    intro r
    have hpend : total p' + n.toNat < 2 ^ 64 := by omega
    have hupd := (h'.records r).update ⟨now', n⟩ hpend
    cases r <;> exact hupd

theorem performAll_bucketed (cs : List TimedCall) (h : Bucketed start now ms m bs p)
    (hmono : (now :: cs.map fun c => c.time.toNat).Pairwise (· ≤ ·))
    (hfit : total (ms ++ marks cs) < 2 ^ 64) :
    ∃ bs' p', Bucketed start (cs.foldl (fun _ c => c.time.toNat) now) (ms ++ marks cs)
      (m.performAll cs) bs' p' := by
  -- `now` is the reading of the call before
  induction cs generalizing now ms m bs p with
  | nil =>
    refine ⟨bs, p, ?_⟩
    rw [marks, List.filterMap_nil, List.append_nil]
    exact h
  | cons c cs ih =>
    obtain ⟨hle, hmono⟩ := List.pairwise_cons.mp hmono
    have hnow : now ≤ c.time.toNat := hle _ (by simp)
    obtain ⟨time, call⟩ := c
    cases call with
    | mark n =>
      have hms : marks (⟨time, .mark n⟩ :: cs) = ⟨time, n⟩ :: marks cs := rfl
      rw [hms, List.append_cons] at hfit ⊢
      obtain ⟨bs', p', h'⟩ := h.mark hnow n (by
        simp only [total_append, total_singleton] at hfit
        omega)
      exact ih h' hmono hfit
    | getRate r =>
      obtain ⟨bs', p', h'⟩ := h.tickIfNecessary hnow
      exact ih h' hmono hfit

/-- After the last of any run of calls with readings that do not go back, `last_tick_` is `k`
intervals after the start and at most one interval old, every average has been ticked `k` times,
and the marks of the run split into one bucket for each of these ticks and a pending rest: each
mark in one place, its own interval, and each count the sum of its bucket. An average is what its
ticks make of the buckets, one after the other. -/
theorem meter_refines_buckets (A : EWMA.Alphas K) (rateUnit : Int64) (start : UInt64)
    (cs : List TimedCall) (c : TimedCall)
    (hmono : (start :: (cs ++ [c]).map TimedCall.time).Pairwise (· ≤ ·))
    (htotal : total (marks (cs ++ [c])) < 2 ^ 64) :
    let m := (audited A rateUnit start).performAll (cs ++ [c])
    m.map Audit.ewma = (create A rateUnit start).performAll (cs ++ [c]) ∧
      ∃ k, m.lastTick.toNat = start.toNat + k * TICK_INTERVAL.toNat ∧
        m.lastTick ≤ c.time ∧ c.time.toNat - m.lastTick.toNat ≤ TICK_INTERVAL.toNat ∧
        m.getCount.toNat = total (marks (cs ++ [c])) ∧
        ∃ (bs : List (List Mark)) (p : List Mark), bs.flatten ++ p = marks (cs ++ [c]) ∧
          (∀ i b, bs[i]? = some b → ∀ mk ∈ b,
            start.toNat + i * TICK_INTERVAL.toNat ≤ mk.time.toNat ∧
              mk.time.toNat ≤ start.toNat + (i + 1) * TICK_INTERVAL.toNat) ∧
          (∀ mk ∈ p, m.lastTick ≤ mk.time) ∧
          ∀ r, (m.rate r).taken.length = k ∧
            ((m.rate r).taken.map UInt64.toNat).sum + (m.rate r).ewma.uncounted.toNat =
              m.getCount.toNat ∧
            (m.rate r).taken.map UInt64.toNat = bs.map total ∧
            (m.rate r).batches = bs.map (List.map Mark.n) ∧
            (m.rate r).pending = p.map Mark.n ∧
            (m.rate r).ewma = Audit.replay ((create A rateUnit start).rate r)
              (bs.map (List.map Mark.n)) (p.map Mark.n) := by
  intro m
  have hmono' : (start.toNat :: (cs ++ [c]).map fun c => c.time.toNat).Pairwise (· ≤ ·) := by
    have h := List.pairwise_map.mpr (hmono.imp fun hab => UInt64.le_iff_toNat_le.mp hab)
    rw [List.map_cons, List.map_map] at h
    exact h
  obtain ⟨bs, p, h⟩ :=
    performAll_bucketed (cs ++ [c]) (bucketed_audited A rateUnit start) hmono' htotal
  rw [List.foldl_append, List.foldl_cons, List.foldl_nil, List.nil_append] at h
  refine ⟨map_performAll Audit.forgets_ewma _ _, bs.length, h.lastTick,
    UInt64.le_iff_toNat_le.mpr h.lastTick_le, Nat.sub_le_iff_le_add'.mpr h.age_le, h.count, bs, p,
    h.split, h.inside, fun mk hmk => UInt64.le_iff_toNat_le.mpr (h.recent mk hmk).1, fun r => ?_⟩
  · have hrec := h.records r
    have hcount : m.getCount.toNat = (bs.map total).sum + total p := by
      rw [← total_flatten, ← total_append, h.split]
      exact h.count
    have hstart : (audited A rateUnit start).rate r =
        Audit.start ((create A rateUnit start).rate r) := by cases r <;> rfl
    have hreplay := Audit.ewma_eq_replay _ (cs ++ [c]) hstart
    rw [hrec.batches, hrec.pending] at hreplay
    refine ⟨?_, ?_, hrec.taken, hrec.batches, hrec.pending, hreplay⟩
    · simpa using congrArg List.length hrec.taken
    · rw [hrec.taken, hrec.uncounted, hcount]

def idleGap : List TimedCall := [⟨1000, .mark 5⟩]

theorem meter_refines_buckets_idleGap :
    let m := (audited (⟨1 / 2, 1 / 3, 1 / 4⟩ : EWMA.Alphas ℚ) 1000000000 0).performAll
      (idleGap ++ [⟨12000000000, .getRate .m1⟩])
    m.lastTick.toNat = 10000000000 ∧ ∀ r, (m.rate r).taken.length = 2 := by
  intro m
  obtain ⟨-, k, hk, -, -, -, bs, p, -, -, -, hr⟩ :=
    meter_refines_buckets (⟨1 / 2, 1 / 3, 1 / 4⟩ : EWMA.Alphas ℚ) 1000000000 0 idleGap
      ⟨12000000000, .getRate .m1⟩ (by decide) (by decide)
  have hlast : m.lastTick.toNat = 10000000000 := by decide +kernel
  refine ⟨hlast, fun r => (hr r).1.trans ?_⟩
  rw [hlast, TICK_INTERVAL_toNat] at hk
  simp only [UInt64.toNat_zero] at hk
  omega

end Meter
end CppMetrics
