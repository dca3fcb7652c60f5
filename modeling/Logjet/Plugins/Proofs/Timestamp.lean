/-
The trace clock conversion rises with the clock and meets the snapshots. A time
cuts these in two; the three formulas are one function of the two at the cut
(`clockAt`) that rises from the one's value to the other's.
-/
import Mathlib.Data.List.Pairwise
import Mathlib.Data.List.TakeWhile
import Logjet.Plugins.Timestamp

namespace Logjet.Perfetto

open List Trap

variable {t t' : Int} {s : PerfettoClockSnapshot} {prev next : Option PerfettoClockSnapshot}
  {l init rest : List PerfettoClockSnapshot}

/-- The realtime at `t`, between the snapshots on either side of it. -/
def clockAt (t : Int) : Option PerfettoClockSnapshot → Option PerfettoClockSnapshot → Int
  | some prev, some next =>
    prev.clockValue + (next.clockValue - prev.clockValue) * (t - prev.ts) / (next.ts - prev.ts)
  | some last, none => last.clockValue + (t - last.ts)
  | none, some first => first.clockValue - (first.ts - t)
  | none, none => 0

/-- One snapshot before the other, on the trace clock and on the real one. -/
structure Gap (prev next : Option PerfettoClockSnapshot) : Prop where
  lt : ∀ p ∈ prev, ∀ n ∈ next, p.ts < n.ts
  rises : ∀ p ∈ prev, ∀ n ∈ next, p.clockValue ≤ n.clockValue

theorem clockAt_mono (h : Gap prev next) (hle : t ≤ t') :
    clockAt t prev next ≤ clockAt t' prev next := by
  cases prev with
  | none =>
    cases next with
    | none => exact le_rfl
    | some n => simp only [clockAt]; omega
  | some p =>
    cases next with
    | none => simp only [clockAt]; omega
    | some n =>
      have hlt := h.lt p rfl n rfl
      have hrises := h.rises p rfl n rfl
      refine Int.add_le_add_left (Int.ediv_le_ediv (by omega) ?_) _
      exact Int.mul_le_mul_of_nonneg_left (by omega) (by omega)

theorem clockAt_prev (s : PerfettoClockSnapshot) : clockAt s.ts (some s) next = s.clockValue := by
  cases next <;> simp [clockAt]

theorem clockAt_next (h : Gap prev (some s)) : clockAt s.ts prev (some s) = s.clockValue := by
  cases prev with
  | none => simp [clockAt]
  | some p =>
    have hlt := h.lt p rfl s rfl
    rw [clockAt, Int.mul_ediv_cancel _ (by omega)]
    omega

theorem lt_of_mem_dropWhile (hsorted : l.Pairwise fun a b => a.ts ≤ b.ts) :
    ∀ s ∈ l.dropWhile (fun s => s.ts ≤ t), t < s.ts := by
  induction hsorted with
  | nil => simp
  | @cons a l ha hl ih =>
    rw [dropWhile_cons]
    split
    · exact ih
    · next hts =>
      rw [decide_eq_true_iff, not_le] at hts
      exact forall_mem_cons.mpr ⟨hts, fun s hs => hts.trans_le (ha s hs)⟩

/-- The clock did not go back between two snapshots of the list. -/
def Rising (l : List PerfettoClockSnapshot) : Prop :=
  l.Pairwise fun a b => a.clockValue ≤ b.clockValue

instance : Std.Refl fun a b : PerfettoClockSnapshot => a.clockValue ≤ b.clockValue :=
  ⟨fun _ => le_rfl⟩

namespace TimestampConverter

variable (c : TimestampConverter)

/-- The snapshots up to a time. -/
def upTo (t : Int) : List PerfettoClockSnapshot := c.snapshots.takeWhile fun s => s.ts ≤ t

/-- The snapshots past a time. -/
def past (t : Int) : List PerfettoClockSnapshot := c.snapshots.dropWhile fun s => s.ts ≤ t

def value (t : Int) : Int := clockAt t (c.upTo t).getLast? (c.past t).head?

theorem upTo_append_past (t : Int) : c.upTo t ++ c.past t = c.snapshots :=
  takeWhile_append_dropWhile

variable {c}

theorem le_of_mem_upTo (h : s ∈ c.upTo t) : s.ts ≤ t := by
  simpa using mem_takeWhile_imp h

theorem lt_of_mem_past (h : s ∈ c.past t) : t < s.ts := lt_of_mem_dropWhile c.sorted s h

theorem mem_upTo (hs : s ∈ c.snapshots) (h : s.ts ≤ t) : s ∈ c.upTo t := by
  rw [← c.upTo_append_past t, mem_append] at hs
  exact hs.resolve_right fun hpast => absurd (lt_of_mem_past hpast) (not_lt.mpr h)

/-- There is one way to cut the snapshots at a time. -/
theorem cut_unique {before after : List PerfettoClockSnapshot} (h : c.snapshots = before ++ after)
    (hbefore : ∀ s ∈ before, s.ts ≤ t) (hafter : ∀ s ∈ after, t < s.ts) :
    c.upTo t = before ∧ c.past t = after := by
  have hupTo : c.upTo t = before := by
    rw [upTo, h, takeWhile_append_of_pos fun s hs => decide_eq_true (hbefore s hs)]
    cases after with
    | nil => exact append_nil _
    | cons s after =>
      have hs := hafter s mem_cons_self
      rw [takeWhile_cons_of_neg (by simpa using hs), append_nil]
  have hpast : before ++ c.past t = before ++ after := by
    rw [← h, ← c.upTo_append_past t, hupTo]
  exact ⟨hupTo, append_cancel_left hpast⟩

section

variable (hrises : Rising c.snapshots)

include hrises

theorem gap (t : Int) : Gap (c.upTo t).getLast? (c.past t).head? where
  lt p hp n hn := (le_of_mem_upTo (mem_of_getLast? hp)).trans_lt (lt_of_mem_past (mem_of_head? hn))
  rises p hp n hn := by
    rw [← c.upTo_append_past t] at hrises
    exact (pairwise_append.mp hrises).2.2 p (mem_of_getLast? hp) n (mem_of_head? hn)

/-- The value at a time lies between the clock values on either side. -/
theorem value_bounds (t : Int) : (∀ s ∈ c.upTo t, s.clockValue ≤ c.value t)
    ∧ ∀ s ∈ c.past t, c.value t ≤ s.clockValue := by
  have hgap := c.gap hrises t
  rw [← c.upTo_append_past t] at hrises
  obtain ⟨hupTo, hpast, -⟩ := pairwise_append.mp hrises
  constructor
  · intro s hs
    have hne := ne_nil_of_mem hs
    rw [getLast?_eq_some_getLast hne] at hgap
    rw [value, getLast?_eq_some_getLast hne]
    exact (hupTo.rel_getLast hs).trans ((clockAt_prev _).ge.trans
      (clockAt_mono hgap (le_of_mem_upTo (getLast_mem hne))))
  · intro s hs
    have hne := ne_nil_of_mem hs
    rw [head?_eq_some_head hne] at hgap
    rw [value, head?_eq_some_head hne]
    exact (clockAt_mono hgap (lt_of_mem_past (head_mem hne)).le).trans
      ((clockAt_next hgap).le.trans (hpast.rel_head hs))

theorem value_mono (h : t ≤ t') : c.value t ≤ c.value t' := by
  by_cases hcut : ∃ s ∈ c.past t, s.ts ≤ t'
  · -- a snapshot was passed on the way
    obtain ⟨s, hs, hts⟩ := hcut
    have hmem : s ∈ c.snapshots := by
      rw [← c.upTo_append_past t]
      exact mem_append_right _ hs
    exact ((c.value_bounds hrises t).2 s hs).trans
      ((c.value_bounds hrises t').1 s (mem_upTo hmem hts))
  · obtain ⟨hupTo, hpast⟩ := cut_unique (c.upTo_append_past t).symm
      (fun s hs => (le_of_mem_upTo hs).trans h) fun s hs => not_le.mp fun hts => hcut ⟨s, hs, hts⟩
    unfold value
    rw [hupTo, hpast]
    exact clockAt_mono (c.gap hrises t) h

end

/-- At the last snapshot with its time the value is its own. -/
theorem value_at_snapshot (h : c.snapshots = init ++ s :: rest)
    (hlast : ∀ s' ∈ rest, s'.ts ≠ s.ts) : c.value s.ts = s.clockValue := by
  have hsorted := c.sorted
  rw [h, pairwise_append, pairwise_cons] at hsorted
  obtain ⟨-, ⟨hrest, -⟩, hinit⟩ := hsorted
  obtain ⟨hupTo, hpast⟩ := @cut_unique s.ts c (init ++ [s]) rest (by rw [h]; simp)
    (by simpa [or_imp, forall_and] using fun s' hs' => hinit s' hs' s mem_cons_self)
    fun s' hs' => lt_of_le_of_ne (hrest s' hs') (hlast s' hs').symm
  rw [value, hupTo, hpast, getLast?_concat, clockAt_prev]

end TimestampConverter

/-- Far enough from the ends of an `i64` for three of them to add up. -/
def Small (n : Int) : Prop := -2 ^ 61 < n ∧ n < 2 ^ 61

theorem i64_ok {n : Int} (h : -2 ^ 63 ≤ n ∧ n < 2 ^ 63) : i64 n = .ok n := by
  unfold i64 require
  rw [Except.ensure_true h]
  rfl

theorem asU64_clamped {n : Int} (h : n < 2 ^ 63) : asU64 (max n 0) = (max n 0).toNat := by
  unfold asU64
  omega

namespace TimestampConverter

variable {c : TimestampConverter}

theorem toRealtime_eq (hpolicy : c.policy = .bestEffort) (hne : c.snapshots ≠ [])
    (hrises : Rising c.snapshots) (hsmall : ∀ s ∈ c.snapshots, Small s.ts ∧ Small s.clockValue)
    (ht : Small t) : c.toRealtime t = .ok (some (max (c.value t) 0).toNat) := by
  have hcut := c.upTo_append_past t
  have hidx : partitionPoint c.snapshots (fun s => s.ts ≤ t) = (c.upTo t).length := rfl
  have hempty : c.snapshots.isEmpty = false := by simpa using hne
  have hbounds := c.value_bounds hrises t
  unfold Small at hsmall ht
  unfold toRealtime value
  simp only [hidx, hempty, hpolicy]
  obtain hupTo | ⟨init, prev, hupTo⟩ := eq_nil_or_concat' (c.upTo t)
  · cases hpast : c.past t with
    | nil =>
      rw [hupTo, hpast] at hcut
      exact absurd hcut.symm hne
    | cons first rest =>
      rw [hupTo, hpast, nil_append] at hcut
      have hfirst := hsmall first (by simp [← hcut])
      rw [← hcut, hupTo]
      simp (disch := first | omega | simp) [index, i64_ok, asU64_clamped, clockAt]
  · have hprev := hsmall prev (by simp [← hcut, hupTo])
    cases hpast : c.past t with
    | nil =>
      rw [hupTo, hpast, append_nil] at hcut
      rw [← hcut, hupTo]
      simp (disch := first | omega | simp) [index, i64_ok, asU64_clamped, clockAt]
    | cons next rest =>
      have hafter := lt_of_mem_past (c := c) (t := t) (s := next) (by simp [hpast])
      have hbefore := le_of_mem_upTo (c := c) (t := t) (s := prev) (by simp [hupTo])
      have hlow := hbounds.1 prev (by simp [hupTo])
      have hhigh := hbounds.2 next (by simp [hpast])
      rw [value, hupTo, hpast, getLast?_concat, head?_cons] at hlow hhigh
      rw [hupTo, hpast] at hcut
      have hnext := hsmall next (by simp [← hcut])
      have hclamp := @asU64_clamped (clockAt t (some prev) (some next)) (by omega)
      have hstep : next.ts - prev.ts ≠ 0 := by omega
      -- with nothing negative, the division rounds down
      have hdiv : ((next.clockValue - prev.clockValue) * (t - prev.ts)).tdiv (next.ts - prev.ts)
          = (next.clockValue - prev.clockValue) * (t - prev.ts) / (next.ts - prev.ts) :=
        Int.tdiv_eq_ediv_of_nonneg (Int.mul_nonneg (by omega) (by omega))
      rw [clockAt] at hclamp
      rw [← hcut, hupTo]
      simp (disch := first | omega | simp) [index, i64_ok, hdiv, hclamp, hstep, clockAt]

theorem clamp_le {n m : Int} (h : n ≤ m) : (max n 0).toNat ≤ (max m 0).toNat := by omega

/-- Under the best-effort policy, with a clock that did not go back and values
that leave room, no operation overflows, and what is returned never falls as the
trace goes on, is the clock value at a snapshot (the last of those with one
time), and stays between the values of neighbours in between, all cut off at 0. -/
theorem to_realtime_rises (hpolicy : c.policy = .bestEffort) (hne : c.snapshots ≠ [])
    (hrises : Rising c.snapshots) (hsmall : ∀ s ∈ c.snapshots, Small s.ts ∧ Small s.clockValue) :
    ∃ realtime : Int → Nat, (∀ t, Small t → c.toRealtime t = .ok (some (realtime t)))
      ∧ (∀ t t', t ≤ t' → realtime t ≤ realtime t')
      ∧ (∀ init s rest, c.snapshots = init ++ s :: rest → (∀ s' ∈ rest, s'.ts ≠ s.ts) →
        realtime s.ts = (max s.clockValue 0).toNat)
      ∧ ∀ init a b rest, c.snapshots = init ++ a :: b :: rest → ∀ t, a.ts ≤ t → t < b.ts →
        (max a.clockValue 0).toNat ≤ realtime t ∧ realtime t ≤ (max b.clockValue 0).toNat := by
  refine ⟨fun t => (max (c.value t) 0).toNat,
    fun t ht => toRealtime_eq hpolicy hne hrises hsmall ht, ?_, ?_, ?_⟩
  · intro t t' h
    exact clamp_le (value_mono hrises h)
  · intro init s rest h hlast
    exact congrArg (fun n => (max n 0).toNat) (value_at_snapshot h hlast)
  · intro init a b rest h t ha hb
    have hmem : b ∈ c.upTo t ++ c.past t := by
      rw [c.upTo_append_past t, h]
      simp
    have hpast : b ∈ c.past t := (mem_append.mp hmem).resolve_left fun hupTo =>
      absurd (le_of_mem_upTo hupTo) (not_le.mpr hb)
    have hbounds := c.value_bounds hrises t
    exact ⟨clamp_le (hbounds.1 a (mem_upTo (by rw [h]; simp) ha)), clamp_le (hbounds.2 b hpast)⟩

theorem twoSnapshots_sorted :
    [(⟨0, 5⟩ : PerfettoClockSnapshot), ⟨10, 25⟩].Pairwise fun a b => a.ts ≤ b.ts := by
  simp

def twoSnapshots : TimestampConverter := ⟨[⟨0, 5⟩, ⟨10, 25⟩], .bestEffort, twoSnapshots_sorted⟩

theorem to_realtime_rises_twoSnapshots :
    ∃ realtime : Int → Nat, (∀ t, Small t → twoSnapshots.toRealtime t = .ok (some (realtime t)))
      ∧ ∀ t t', t ≤ t' → realtime t ≤ realtime t' := by
  have hsmall : ∀ s ∈ twoSnapshots.snapshots, Small s.ts ∧ Small s.clockValue := by
    simp [twoSnapshots, Small]
  obtain ⟨realtime, hreturns, hmono, -⟩ := @to_realtime_rises twoSnapshots rfl
    (by simp [twoSnapshots]) (by simp [twoSnapshots, Rising]) hsmall
  exact ⟨realtime, hreturns, hmono⟩

end TimestampConverter

end Logjet.Perfetto
