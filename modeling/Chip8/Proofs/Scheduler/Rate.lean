/-
# How accurate a rate is

A rate becomes a period in whole nanoseconds, rounded down, so the cycles come a little faster than
the rate says.  This module says how much faster, over any length of time.

* `Clock.cyclesIn` is how many cycles begin in a time.  `Clock.rate_mul_le`, `Clock.mul_lt_rate_mul`
  and `Clock.cyclesIn_of_dvd` compare it with the rate.  All they need is that `hz` periods fall
  short of a second by less than `hz` nanoseconds (`Clock.rate_mul_period_le`, `Clock.second_lt`).
* `Console.advanceAll_of_allTicked`: slices that all end with a tick have carried out the deadlines
  of their sum.  Nothing bounds the time here, for a slice that a time out of range ends has no tick
  to count.
* `Console.advanceAll_atRate`: two rates with the same period cannot be told apart.
-/
import Mathlib
import Chip8.Proofs.Scheduler.Termination

namespace Chip8

/-! ## 1. Rates and periods -/

namespace Clock

/-- The rate closest to `hz` in the range from one to a thousand million. -/
def inRange (hz : Nat) : Nat := max 1 (min hz 1000000000)

/-- How many cycles begin in `T` nanoseconds. -/
def cyclesIn (hz T : Nat) : Nat := T ⌈/⌉ (period hz).nanos

variable {hz : Nat}

/-- **Rates out of range count as the closest one in range.** -/
theorem period_inRange (hz : Nat) : period (inRange hz) = period hz := by
  rcases Nat.lt_or_ge 1000000000 hz with h | h
  · have hfast : inRange hz = 1000000000 := by rw [inRange, Nat.min_eq_right (Nat.le_of_lt h)]; rfl
    rw [hfast, period, period, Nat.max_eq_right (by omega : 1 ≤ hz), Nat.div_eq_of_lt h]
    rfl
  · rw [inRange, Nat.min_eq_left h, period, period, ← Nat.max_assoc, Nat.max_self]

/-- A higher rate has no longer period. -/
theorem period_le_period {hz' : Nat} (h : hz ≤ hz') : (period hz').nanos ≤ (period hz).nanos := by
  have hmax : max 1 hz ≤ max 1 hz' := max_le_max (Nat.le_refl 1) h
  have hdiv : 1000000000 / max 1 hz' ≤ 1000000000 / max 1 hz :=
    Nat.div_le_div_left hmax (Nat.lt_of_lt_of_le Nat.one_pos (Nat.le_max_left 1 hz))
  exact max_le_max (Nat.le_refl 1) hdiv

theorem nanos_period (h1 : 1 ≤ hz) (h2 : hz ≤ 1000000000) :
    (period hz).nanos = 1000000000 / hz := by
  have hpos : 1 ≤ 1000000000 / hz := Nat.div_pos h2 h1
  rw [period, Nat.max_eq_right h1, Nat.max_eq_right hpos]

/-- So many periods as the rate says fit in a second, -/
theorem rate_mul_period_le (h1 : 1 ≤ hz) (h2 : hz ≤ 1000000000) :
    hz * (period hz).nanos ≤ 1000000000 := by
  rw [nanos_period h1 h2]
  exact Nat.mul_div_le 1000000000 hz

/-- and what is left of the second is shorter than a nanosecond for each of them. -/
theorem second_lt (h1 : 1 ≤ hz) (h2 : hz ≤ 1000000000) :
    1000000000 < hz * (period hz).nanos + hz := by
  rw [nanos_period h1 h2, ← Nat.mul_succ]
  exact Nat.lt_mul_div_succ 1000000000 h1

/-! ## 2. Cycles in a time -/

variable {T n : Nat}

theorem cyclesIn_le_iff : cyclesIn hz T ≤ n ↔ T ≤ (period hz).nanos * n :=
  ceilDiv_le_iff_le_mul (one_le_period hz)

theorem lt_cyclesIn_iff : n < cyclesIn hz T ↔ (period hz).nanos * n < T := by
  rw [← Nat.not_le, ← Nat.not_le, cyclesIn_le_iff]

/-- **A machine never runs slow.** -/
theorem rate_mul_le (h1 : 1 ≤ hz) (h2 : hz ≤ 1000000000) (T : Nat) :
    hz * T ≤ cyclesIn hz T * 1000000000 := by
  have hcover : T ≤ (period hz).nanos * cyclesIn hz T := cyclesIn_le_iff.mp (Nat.le_refl _)
  calc hz * T ≤ hz * ((period hz).nanos * cyclesIn hz T) := Nat.mul_le_mul_left hz hcover
    _ = hz * (period hz).nanos * cyclesIn hz T := (Nat.mul_assoc ..).symm
    _ ≤ 1000000000 * cyclesIn hz T := Nat.mul_le_mul_right _ (rate_mul_period_le h1 h2)
    _ = cyclesIn hz T * 1000000000 := Nat.mul_comm ..

/-- **The drift is bounded.**  The periods of all cycles but the last fit in the time, and `hz` of
them are less than `hz` nanoseconds short of a second. -/
theorem mul_lt_rate_mul (h1 : 1 ≤ hz) (h2 : hz ≤ 1000000000) (hT : 0 < T) :
    (cyclesIn hz T - 1) * (1000000000 - hz + 1) < hz * T := by
  have hfirst : 0 < cyclesIn hz T := lt_cyclesIn_iff.mpr hT
  have hbefore : (period hz).nanos * (cyclesIn hz T - 1) < T :=
    lt_cyclesIn_iff.mp (Nat.sub_one_lt_of_lt hfirst)
  have hshort : 1000000000 - hz + 1 ≤ hz * (period hz).nanos := by
    have := second_lt h1 h2
    omega
  calc (cyclesIn hz T - 1) * (1000000000 - hz + 1)
      ≤ (cyclesIn hz T - 1) * (hz * (period hz).nanos) := Nat.mul_le_mul_left _ hshort
    _ = hz * ((period hz).nanos * (cyclesIn hz T - 1)) := by
      rw [Nat.mul_comm, Nat.mul_assoc]
    _ < hz * T := Nat.mul_lt_mul_of_pos_left hbefore h1

/-- **A rate that divides the second is met exactly**, over every time. -/
theorem cyclesIn_of_dvd (h : hz ∣ 1000000000) (T : Nat) :
    cyclesIn hz T = (hz * T) ⌈/⌉ 1000000000 := by
  have h1 : 1 ≤ hz := Nat.pos_of_dvd_of_pos h (by decide)
  have hsecond : hz * (period hz).nanos = 1000000000 := by
    rw [nanos_period h1 (Nat.le_of_dvd (by decide) h)]
    exact Nat.mul_div_cancel' h
  refine eq_of_forall_ge_iff fun n => ?_
  rw [cyclesIn_le_iff, ceilDiv_le_iff_le_mul (by decide), ← hsecond, Nat.mul_assoc,
    Nat.mul_le_mul_left_iff h1]

/-- **A higher rate never has fewer cycles.** -/
theorem cyclesIn_le_cyclesIn {hz' : Nat} (h : hz ≤ hz') (T : Nat) :
    cyclesIn hz T ≤ cyclesIn hz' T := by
  have hcover : T ≤ (period hz').nanos * cyclesIn hz' T := cyclesIn_le_iff.mp (Nat.le_refl _)
  exact cyclesIn_le_iff.mpr (hcover.trans (Nat.mul_le_mul_right _ (period_le_period h)))

end Clock

/-! ## 3. Slices that end with a tick -/

namespace Console

variable {π : Type} [Platform π]

/-- **Slices that all end with a tick** have carried out the agenda of their sum. -/
theorem advanceAll_of_allTicked {c : Console π} {p : Progress} {ds : List Duration} {t : Tally}
    (hp : c.scheduler.progress = some p) (hds : ds = [] → p.due = none)
    (h : Passage.AllTicked (c.advanceAll ds).result t) :
    t = Tally.of (p.agendaUntil c.scheduler.clock (p.elapsed.nanos + Duration.total ds)) := by
  obtain ⟨ts, hresult, rfl⟩ := h
  induction ds generalizing c p ts with
  | nil =>
    obtain rfl := List.map_eq_nil_iff.mp hresult.symm
    rw [Duration.total_nil, Nat.add_zero,
      Progress.agendaUntil_of_due_eq_none c.scheduler.clock (hds rfl)]
    rfl
  | cons d ds ih =>
    rw [advanceAll, Step.iterate_cons] at hresult
    obtain ⟨t, ts, rfl, ht, hlater⟩ := List.map_eq_cons_iff.mp hresult.symm
    obtain ⟨hscheduler, rfl⟩ := advance_of_ticked hp ht.symm
    have hrest := ih (congrArg Scheduler.progress hscheduler)
      (fun _ => Progress.due_settledAt ..) ts hlater.symm
    rw [clock_advance, Progress.elapsed_settledAt] at hrest
    have hcut := Progress.agendaUntil_eq_append c.scheduler.clock p
      (Nat.le_add_right (p.elapsed.nanos + d.nanos) (Duration.total ds))
    rw [Tally.total, hrest, Duration.total_cons, ← Nat.add_assoc, hcut, Tally.of_append]

/-- From a start the cycles are those that begin in the time. -/
theorem cycles_of_allTicked {c : Console π} {ds : List Duration} {t : Tally}
    (h : Passage.AllTicked (c.start.state.advanceAll ds).result t) :
    t.cycles = Clock.cyclesIn c.scheduler.clock.cycleHz (Duration.total ds) := by
  have htally := advanceAll_of_allTicked (c := c.start.state) rfl
    (fun _ => Progress.due_initial _) h
  have hzero : (Progress.initial c.scheduler.clock).elapsed.nanos = 0 := rfl
  have hclock : c.start.state.scheduler.clock = c.scheduler.clock := rfl
  rw [hzero, hclock, Nat.zero_add, Progress.agendaUntil_initial, Clock.of_deadlines] at htally
  rw [htally]
  rfl

/-- Without a fault all slices end with a tick. -/
theorem exists_allTicked (c : Console π) {ds : List Duration}
    (hT : Duration.total ds + 1000000000 ≤ Duration.longest.nanos)
    (h : ∀ f, .faulted f ∉ (c.start.state.advanceAll ds).result) :
    ∃ t, Passage.AllTicked (c.start.state.advanceAll ds).result t := by
  cases hout : (c.emulator.carryOut
      (c.scheduler.clock.deadlines (Duration.total ds))).result.2 with
  | none => exact ⟨_, (advanceAll_start_of_none c hT hout).1⟩
  | some f =>
    have hhalted := (advanceAll_start_of_some c hT hout).1
    exact absurd ((Passage.mem_iff_of_halted hhalted).mpr rfl) (h f)

end Console

/-! ## 4. Other rates -/

/-- The loop looks at the clock for its periods only. -/
theorem Firing.run_congr {π : Type} [Platform π] {c c' : Clock}
    (h : ∀ a, c'.periodOf a = c.periodOf a) (f : Firing π) : f.run c' = f.run c := by
  fun_induction Firing.run f c with
  | case1 f hdue => exact run_of_due_eq_none hdue
  | case2 f a hdue hsum =>
    rw [← h] at hsum
    exact run_of_add?_eq_none hdue hsum
  | case3 f a hdue d hsum after fault hfault =>
    have hfault' : (f.next a d).2 = some fault := hfault
    rw [← h] at hsum
    rw [run_of_due hdue hsum, hfault']
  | case4 f a hdue d hsum after hok ih =>
    have hok' : (f.next a d).2 = none := hok
    rw [← h] at hsum
    rw [run_of_due hdue hsum, hok']
    exact ih

namespace Console

variable {π : Type} [Platform π]

/-- The console with another cycle rate. -/
def atRate (c : Console π) (hz : Nat) : Console π :=
  { c with scheduler := { c.scheduler with clock := { c.scheduler.clock with cycleHz := hz } } }

/-- A slice does the same at a rate with the same period. -/
theorem advance_atRate {c : Console π} {hz : Nat}
    (h : Clock.period hz = Clock.period c.scheduler.clock.cycleHz) (d : Duration) :
    (c.atRate hz).advance d = (c.advance d).map fun after => after.atRate hz := by
  have hperiods : ∀ a, (c.atRate hz).scheduler.clock.periodOf a = c.scheduler.clock.periodOf a := by
    rintro (_ | _)
    · exact h
    · rfl
  have hprogress : (c.atRate hz).scheduler.progress = c.scheduler.progress := rfl
  cases hp : c.scheduler.progress with
  | none =>
    rw [advance_idle hp, advance_idle (hprogress.trans hp)]
    rfl
  | some p =>
    cases hsum : p.elapsed.add? d with
    | none =>
      simp only [advance, hprogress, hp, hsum]
      rfl
    | some E =>
      have hrun : Firing.run ⟨{ p with elapsed := E }, (c.atRate hz).emulator, {}, #[]⟩
          (c.atRate hz).scheduler.clock = (c.firing p E).run c.scheduler.clock :=
        Firing.run_congr hperiods (c.firing p E)
      simp only [advance, hprogress, hp, hsum, hrun]
      unfold firing Progress.reach
      generalize (Firing.run _ c.scheduler.clock : Firing π × Passage) = left
      obtain ⟨left, passage⟩ := left
      cases passage <;> rfl

/-- And so do slices. -/
theorem advanceAll_atRate {c : Console π} {hz : Nat}
    (h : Clock.period hz = Clock.period c.scheduler.clock.cycleHz) (ds : List Duration) :
    (c.atRate hz).advanceAll ds = (c.advanceAll ds).map fun after => after.atRate hz := by
  induction ds generalizing c with
  | nil => rfl
  | cons d ds ih =>
    have hlater := ih (c := (c.advance d).state) (by rw [clock_advance]; exact h)
    unfold advanceAll at hlater ⊢
    rw [Step.iterate_cons, advance_atRate h]
    simp only [Step.map] at hlater ⊢
    rw [hlater, Step.iterate_cons]

/-! ## 5. Any rate over any time -/

/-- The slices, one after the other from a start, fire `n` cycles at the cycle rate `hz`, and all of
them end with a tick. -/
def Fires (c : Console π) (hz : Nat) (ds : List Duration) (n : Nat) : Prop :=
  ∃ timers, Passage.AllTicked ((c.atRate hz).start.state.advanceAll ds).result ⟨n, timers⟩

/-- Four cycles begin in a second at a rate of three, for the period is rounded. -/
example :
    let c : Console _ := ⟨.idle ⟨1, 1⟩, ((Emulator.scripted []).load [0x12, 0x00]).state⟩
    c.Fires 3 [⟨400000000⟩, ⟨600000000⟩] 4 :=
  ⟨0, [⟨2, 0⟩, ⟨2, 0⟩], by decide +kernel, rfl⟩

/-- What the cycles that slices fire say about the rate; `T` is the time of all the slices. -/
structure Rated (c : Console π) (ds : List Duration) : Prop where
  /-- Without a fault the slices end with ticks. -/
  fires : ∀ hz, Duration.total ds + 1000000000 ≤ Duration.longest.nanos →
    (∀ f, .faulted f ∉ ((c.atRate hz).start.state.advanceAll ds).result) → ∃ n, c.Fires hz ds n
  /-- The machine never runs slow, and what it gains is what rounding takes from the periods, less
  than `hz` nanoseconds a second; a rate that divides the second is met exactly. -/
  accurate : ∀ hz n, 1 ≤ hz → hz ≤ 1000000000 → 0 < Duration.total ds → c.Fires hz ds n →
    let T := Duration.total ds
    hz * T ≤ n * 1000000000 ∧ (n - 1) * (1000000000 - hz + 1) < hz * T ∧
      (hz ∣ 1000000000 → n = (hz * T) ⌈/⌉ 1000000000)
  /-- From the start on a rate out of range does the same as the closest one in range. -/
  clamped : ∀ hz, (c.atRate (Clock.inRange hz)).start.state.advanceAll ds
    = ((c.atRate hz).start.state.advanceAll ds).map fun after => after.atRate (Clock.inRange hz)
  /-- A higher rate never has fewer cycles, however the time is cut and whatever the program is. -/
  monotone : ∀ (c' : Console π) ds' hz hz' n n', Duration.total ds' = Duration.total ds →
    hz ≤ hz' → c.Fires hz ds n → c'.Fires hz' ds' n' → n ≤ n'

theorem cycles_of_fires {c : Console π} {hz n : Nat} {ds : List Duration} (h : c.Fires hz ds n) :
    n = Clock.cyclesIn hz (Duration.total ds) := by
  obtain ⟨timers, h⟩ := h
  exact cycles_of_allTicked (c := c.atRate hz) h

/-- **The accuracy of a rate**, for every rate, every program and every time in any slices. -/
theorem rated_advanceAll (c : Console π) (ds : List Duration) : c.Rated ds where
  fires hz hT hno := by
    obtain ⟨t, ht⟩ := exists_allTicked (c.atRate hz) hT hno
    exact ⟨t.cycles, t.timers, ht⟩
  accurate hz n h1 h2 hT h := by
    rw [cycles_of_fires h]
    exact ⟨Clock.rate_mul_le h1 h2 _, Clock.mul_lt_rate_mul h1 h2 hT,
      fun hdvd => Clock.cyclesIn_of_dvd hdvd _⟩
  clamped hz :=
    advanceAll_atRate (c := (c.atRate hz).start.state) (Clock.period_inRange hz) ds
  monotone c' ds' hz hz' n n' htotal hle h h' := by
    rw [cycles_of_fires h, cycles_of_fires h', htotal]
    exact Clock.cyclesIn_le_cyclesIn hle _

end Console

end Chip8
