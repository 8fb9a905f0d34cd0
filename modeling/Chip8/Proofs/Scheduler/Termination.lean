/-
# Slices come to an end

The loop of a scheduler carries out what is due and moves one deadline forward each time.  This
module says how long that can go on and what can stop it.

* `Firing.turn` is one turn of the loop and `Firing.turns` the loop with a limit on its turns.
  `Firing.turns_eq_run` says that a turn for each deadline of the agenda is enough, and one in which
  the loop sees that nothing is due: the periods are at least a nanosecond, whatever the rates are.
* A second below the longest span no deadline is out of range (`Firing.run_ne_overflowed`), for a
  period is at most a second and the loop moves only deadlines that have passed.
* `Progress.Near` says that no deadline is further ahead than its period.  It holds at every start,
  and more time and every turn keep it (`Scheduler.Reachable.near`).

`Console.bounded_advance` puts the three together.
-/
import Mathlib
import Chip8.Proofs.Scheduler.Deadlines

namespace Chip8

/-! ## 1. Turns of the loop -/

/-- The deadlines of a list are those of its cycles and those of its timers. -/
theorem Tally.cycles_add_timers (ds : List Deadline) :
    (Tally.of ds).cycles + (Tally.of ds).timers = ds.length := by
  induction ds with
  | nil => rfl
  | cons d ds ih =>
    obtain ⟨t, a⟩ := d
    rw [List.length_cons, ← ih]
    cases a <;> simp [of] <;> omega

/-- How many deadlines of an activity lie before `E`, from the next one on. -/
def Progress.overdue (c : Clock) (p : Progress) (E : Nat) (a : Activity) : Nat :=
  (E - (p.deadline a).nanos + (c.periodOf a).nanos - 1) / (c.periodOf a).nanos

theorem Progress.length_agendaUntil (c : Clock) (p : Progress) (E : Nat) :
    (p.agendaUntil c E).length = p.overdue c E .cycle + p.overdue c E .timer := by
  have hcount := countP_agenda c (p.reach ⟨E⟩)
  rw [← Tally.cycles_add_timers, agendaUntil, Tally.of, hcount .cycle, hcount .timer]
  rfl

namespace Firing

variable {π : Type} [Platform π]

/-- One turn of the loop: the firing with which it goes on, or what it has come to. -/
def turn (c : Clock) (f : Firing π) : Firing π ⊕ Firing π × Passage :=
  match f.progress.due with
  | none => .inr (f, .ticked f.tally)
  | some a =>
    match (f.progress.deadline a).add? (c.periodOf a) with
    | none => .inr (f.strand a, .overflowed)
    | some deadline =>
      let after := f.next a deadline
      match after.2 with
      | some fault => .inr (after.1, .faulted fault)
      | none => .inl after.1

/-- What the loop comes to in at most `n` turns, if that is enough for it to end. -/
def turns (c : Clock) : Nat → Firing π → Option (Firing π × Passage)
  | 0, _ => none
  | n + 1, f =>
    match f.turn c with
    | .inl after => turns c n after
    | .inr left => some left

theorem turns_of_inr {c : Clock} {f : Firing π} {left : Firing π × Passage}
    (h : f.turn c = .inr left) (n : Nat) : turns c (n + 1) f = some left := by
  rw [turns, h]

theorem turns_of_inl {c : Clock} {f after : Firing π} (h : f.turn c = .inl after) (n : Nat) :
    turns c (n + 1) f = turns c n after := by
  rw [turns, h]

/-- **The loop ends**, at the latest in the turn after the last deadline of its agenda. -/
theorem turns_eq_run (c : Clock) (f : Firing π) {n : Nat}
    (hn : (f.progress.agenda c).length < n) : turns c n f = some (f.run c) := by
  obtain ⟨n, rfl⟩ : ∃ m, n = m + 1 := ⟨n - 1, by omega⟩
  fun_induction Firing.run f c generalizing n with
  | case1 f hdue => exact turns_of_inr (by simp only [turn, hdue]) n
  | case2 f a hdue hsum => exact turns_of_inr (by simp only [turn, hdue, hsum]) n
  | case3 f a hdue d hsum after fault hfault =>
    have hturn : f.turn c = .inr (after.1, .faulted fault) := by
      simp only [turn, hdue, hsum]
      rw [hfault]
    exact turns_of_inr hturn n
  | case4 f a hdue d hsum after hok ih =>
    have hturn : f.turn c = .inl after.1 := by
      simp only [turn, hdue, hsum]
      rw [hok]
    -- this turn takes the first deadline of the agenda, and the rest is left for the others
    have hprogress : after.1.progress = f.progress.pass c a := progress_next hsum
    rw [Progress.agenda_of_due c hdue, ← hprogress, List.length_cons] at hn
    obtain ⟨m, rfl⟩ : ∃ m, n = m + 1 := ⟨n - 1, by omega⟩
    rw [turns_of_inl hturn]
    exact ih m (by omega)

/-- A second below the longest span no deadline is out of range. -/
theorem run_ne_overflowed (c : Clock) {f : Firing π}
    (h : f.progress.elapsed.nanos + 1000000000 ≤ Duration.longest.nanos) :
    (f.run c).2 ≠ .overflowed := by
  intro hover
  have hends := run_ends c f
  rw [hover] at hends
  obtain ⟨a, hdue, hnone⟩ := hends
  have hsome := Progress.add?_of_due c hdue (by rw [elapsed_run]; exact h)
  exact absurd (hnone.symm.trans hsome) (by simp)

/-- **A loop that ends with a tick** has carried out its whole agenda, however long the time is. -/
theorem run_of_ticked (c : Clock) {f : Firing π} {t : Tally} (h : (f.run c).2 = .ticked t) :
    (f.run c).1.progress = f.progress.settled c ∧ t = f.tally.countAll (f.progress.agenda c) := by
  fun_induction Firing.run f c with
  | case1 f hdue =>
    rw [Progress.settled_of_due_eq_none c hdue, Progress.agenda_of_due_eq_none c hdue]
    exact ⟨rfl, (Passage.ticked.inj h).symm⟩
  | case2 f a hdue hsum | case3 f a hdue d hsum after fault hfault => cases h
  | case4 f a hdue d hsum after hok ih =>
    have hprogress : after.1.progress = f.progress.pass c a := progress_next hsum
    have hcount : after.1.tally = f.tally.count a := congrArg (·.1.tally) (f.next_eq a d)
    obtain ⟨hsettled, htally⟩ := ih h
    rw [hprogress] at hsettled htally
    rw [hcount] at htally
    rw [Progress.settled_of_due c hdue, Progress.agenda_of_due c hdue]
    exact ⟨hsettled, htally⟩

end Firing

/-- **A slice that ends with a tick** has carried out what was due at its end. -/
theorem Console.advance_of_ticked {π : Type} [Platform π] {c : Console π} {p : Progress}
    {d : Duration} {t : Tally} (hp : c.scheduler.progress = some p)
    (ht : (c.advance d).result = .ticked t) :
    let E := p.elapsed.nanos + d.nanos
    (c.advance d).state.scheduler
        = { c.scheduler with progress := some (p.settledAt c.scheduler.clock E) } ∧
      t = Tally.of (p.agendaUntil c.scheduler.clock E) := by
  intro E
  cases hsum : p.elapsed.add? d with
  | none =>
    have hover : c.advance d = ⟨.overflowed, c, []⟩ := by simp only [advance, hp, hsum]
    rw [hover] at ht
    cases ht
  | some F =>
    obtain rfl : F = ⟨E⟩ := Duration.ext (Duration.add?_eq_some_iff.mp hsum).2
    obtain ⟨hresult, -, hstate⟩ := advance_of_sum hp hsum
    have hrun : ((c.firing p ⟨E⟩).run c.scheduler.clock).2 = .ticked t := hresult.symm.trans ht
    obtain ⟨hprogress, htally⟩ := Firing.run_of_ticked c.scheduler.clock hrun
    rw [hstate (by rw [hrun]; rfl), landed, hprogress, htally, Tally.countAll_eq]
    exact ⟨rfl, Tally.zero_add _⟩

/-- There are no more deadlines of an activity in a time than nanoseconds. -/
theorem Progress.overdue_le (c : Clock) (p : Progress) (E : Nat) (a : Activity) :
    p.overdue c E a ≤ E := by
  have hpos : 0 < (c.periodOf a).nanos := c.one_le_periodOf a
  have hceil : E - (p.deadline a).nanos + (c.periodOf a).nanos - 1
      ≤ (E - (p.deadline a).nanos) * (c.periodOf a).nanos + ((c.periodOf a).nanos - 1) := by
    have := Nat.le_mul_of_pos_right (E - (p.deadline a).nanos) hpos
    omega
  refine Nat.le_trans (Nat.div_le_div_right hceil) ?_
  rw [Nat.mul_comm, Nat.mul_add_div hpos, Nat.div_eq_of_lt (by omega : _ - 1 < _)]
  omega

/-- **The counts of a slice fit in 64 bits** as long as it ends within `2 ^ 64` nanoseconds of the
start. -/
theorem Console.tally_lt_of_ticked {π : Type} [Platform π] {c : Console π} {p : Progress}
    {d : Duration} {t : Tally} (hp : c.scheduler.progress = some p)
    (ht : (c.advance d).result = .ticked t) (hE : p.elapsed.nanos + d.nanos < UInt64.size) :
    t.cycles < UInt64.size ∧ t.timers < UInt64.size := by
  have hcount := Progress.countP_agenda c.scheduler.clock
    (p.reach ⟨p.elapsed.nanos + d.nanos⟩)
  have hle := p.overdue_le c.scheduler.clock (p.elapsed.nanos + d.nanos)
  rw [(advance_of_ticked hp ht).2]
  refine ⟨Nat.lt_of_le_of_lt ?_ hE, Nat.lt_of_le_of_lt ?_ hE⟩
  · exact (Nat.le_of_eq (hcount .cycle)).trans (hle .cycle)
  · exact (Nat.le_of_eq (hcount .timer)).trans (hle .timer)

/-- A second below the longest span no slice is refused. -/
theorem Console.advance_ne_overflowed {π : Type} [Platform π] {c : Console π} {d : Duration}
    (h : c.scheduler.elapsed.nanos + d.nanos + 1000000000 ≤ Duration.longest.nanos) :
    (c.advance d).result ≠ .overflowed := by
  cases hp : c.scheduler.progress with
  | none =>
    rw [advance_idle hp]
    nofun
  | some p =>
    have helapsed : c.scheduler.elapsed = p.elapsed := by rw [Scheduler.elapsed, hp]; rfl
    rw [helapsed] at h
    have hsum : p.elapsed.add? d = some ⟨p.elapsed.nanos + d.nanos⟩ :=
      Duration.add?_eq_some_iff.mpr ⟨Nat.le_of_add_right_le h, rfl⟩
    rw [(advance_of_sum hp hsum).1]
    exact Firing.run_ne_overflowed c.scheduler.clock h

/-! ## 2. How far ahead the deadlines are -/

/-- No deadline is further ahead than its period; the next cycle is even closer. -/
structure Progress.Near (c : Clock) (p : Progress) : Prop where
  cycle : p.nextCycle.nanos < p.elapsed.nanos + c.cyclePeriod.nanos
  timer : p.nextTimer.nanos ≤ p.elapsed.nanos + c.timerPeriod.nanos

namespace Progress

variable {c : Clock} {p : Progress}

theorem near_initial (c : Clock) : (initial c).Near c where
  cycle := Nat.lt_add_left _ (Clock.one_le_period _)
  timer := Nat.le_add_left ..

theorem Near.reach (h : p.Near c) {E : Duration} (hE : p.elapsed ≤ E) : (p.reach E).Near c where
  cycle := Nat.lt_of_lt_of_le h.cycle (Nat.add_le_add_right hE _)
  timer := Nat.le_trans h.timer (Nat.add_le_add_right hE _)

/-- A deadline that has passed is followed by one that is not a whole period ahead. -/
theorem Near.pass (h : p.Near c) {a : Activity} (ha : p.due = some a) : (p.pass c a).Near c := by
  have hlt := (due_eq_some_iff.mp ha).2
  cases a with
  | cycle => exact ⟨Nat.add_lt_add_right hlt _, h.timer⟩
  | timer => exact ⟨h.cycle, Nat.add_le_add_right (Nat.le_of_lt hlt) _⟩

end Progress

/-- **The loop brings no deadline further ahead.** -/
theorem Firing.near_run {π : Type} [Platform π] {c : Clock} {f : Firing π}
    (h : f.progress.Near c) : (f.run c).1.progress.Near c := by
  refine run_invariant_of_due c (P := fun g : Firing π => g.progress.Near c) ?_ (fun _ => id) h
  intro g a d hdue hsum hg
  rw [progress_next hsum]
  exact hg.pass hdue

/-- The states of a scheduler: a new one is idle, and each operation may come with any emulator. -/
inductive Scheduler.Reachable : Scheduler → Prop
  | idle (c : Clock) : Reachable (.idle c)
  | start {π : Type} {s : Scheduler} (h : Reachable s) (e : Emulator π) :
      Reachable (Console.start ⟨s, e⟩).state.scheduler
  | stop {π : Type} [Platform π] {s : Scheduler} (h : Reachable s) (e : Emulator π) :
      Reachable (Console.stop ⟨s, e⟩).state.scheduler
  | advance {π : Type} [Platform π] {s : Scheduler} (h : Reachable s) (e : Emulator π)
      (d : Duration) : Reachable (Console.advance ⟨s, e⟩ d).state.scheduler

namespace Console

variable {π : Type} [Platform π] {c : Console π} {p : Progress} {d : Duration}

/-- A slice brings no deadline further ahead. -/
theorem near_advance
    (h : ∀ p, c.scheduler.progress = some p → p.Near c.scheduler.clock) (d : Duration) :
    ∀ q, (c.advance d).state.scheduler.progress = some q → q.Near c.scheduler.clock := by
  have hcases := c.advance_cases d
  cases hcases with
  | idle hp heq | overlong p hp hsum heq =>
    rw [heq]
    exact h
  | halted p E f hp hsum hrun heq =>
    rw [heq]
    intro q hq
    cases hq
  | through p E hp hsum hrun heq =>
    have hsum' := (Duration.add?_eq_some_iff.mp hsum).2
    have hE : p.elapsed ≤ E := Duration.le_def.mpr (by omega)
    have hbegin : (c.firing p E).progress.Near c.scheduler.clock := (h p hp).reach hE
    rw [heq]
    intro q hq
    obtain rfl := Option.some.inj hq
    exact Firing.near_run hbegin

end Console

/-- **No deadline of a scheduler is further ahead than its period.** -/
theorem Scheduler.Reachable.near {s : Scheduler} (h : s.Reachable) :
    ∀ p, s.progress = some p → p.Near s.clock := by
  induction h with
  | idle c | stop _ e =>
    intro p hp
    cases hp
  | @start _ s _ e =>
    intro p hp
    obtain rfl := Option.some.inj hp
    exact Progress.near_initial s.clock
  | @advance _ _ s _ e d ih =>
    rw [Console.clock_advance]
    exact Console.near_advance (c := ⟨s, e⟩) ih d

/-! ## 3. Slices -/

namespace Console

variable {π : Type} [Platform π]

/-- What a slice can come to.  `E` is the time that has passed when it ends. -/
structure Bounded (c : Console π) (d : Duration) : Prop where
  /-- Time passes in vain for an idle scheduler. -/
  idle : c.scheduler.progress = none → c.advance d = ⟨.ticked {}, c, []⟩
  /-- A time that cannot be represented is refused before anything has changed. -/
  overlong : ∀ p, c.scheduler.progress = some p →
    Duration.longest.nanos < p.elapsed.nanos + d.nanos → c.advance d = ⟨.overflowed, c, []⟩
  /-- If a second more could be represented, the loop ends after so many turns as there are
  deadlines that have passed, and one, and it ends with a tick or with a fault. -/
  ends : ∀ p, c.scheduler.progress = some p →
    let E := p.elapsed.nanos + d.nanos
    let clock := c.scheduler.clock
    let left := (c.firing p ⟨E⟩).run clock
    E + 1000000000 ≤ Duration.longest.nanos →
    (c.firing p ⟨E⟩).turns clock (p.overdue clock E .cycle + p.overdue clock E .timer + 1)
        = some left ∧
      left.2 ≠ .overflowed ∧ (c.advance d).result = left.2
  /-- After a tick both deadlines are still to come, and neither is further ahead than its
  period. -/
  deadlines : ∀ p t, c.scheduler.progress = some p → (c.advance d).result = .ticked t →
    let E := p.elapsed.nanos + d.nanos
    ∃ q, (c.advance d).state.scheduler = { c.scheduler with progress := some q } ∧
      q.elapsed.nanos = E ∧
      E ≤ q.nextCycle.nanos ∧ q.nextCycle.nanos < E + c.scheduler.clock.cyclePeriod.nanos ∧
      E ≤ q.nextTimer.nanos ∧ q.nextTimer.nanos ≤ E + c.scheduler.clock.timerPeriod.nanos

/-- **Slices come to an end**, and only times are ever refused.  The scheduler may be in any state
to which its operations bring it, the clock may have any rates, and the machine may do anything. -/
theorem bounded_advance (c : Console π) (h : c.scheduler.Reachable) (d : Duration) :
    c.Bounded d where
  idle hp := advance_idle hp d
  overlong p hp hlong := by
    have hsum : p.elapsed.add? d = none := if_neg (Nat.not_le_of_lt hlong)
    simp only [advance, hp, hsum]
  ends p hp := by
    intro E clock left hmax
    have hsum : p.elapsed.add? d = some ⟨E⟩ :=
      Duration.add?_eq_some_iff.mpr ⟨Nat.le_of_add_right_le hmax, rfl⟩
    refine ⟨?_, Firing.run_ne_overflowed clock hmax, (advance_of_sum hp hsum).1⟩
    refine Firing.turns_eq_run clock (c.firing p ⟨E⟩) (Nat.lt_succ_of_le ?_)
    exact Nat.le_of_eq (p.length_agendaUntil clock E)
  deadlines p t hp ht := by
    intro E
    have hafter := (advance_of_ticked hp ht).1
    have hpassed := Progress.elapsed_le_deadline (p.due_settledAt c.scheduler.clock E)
    obtain ⟨hcycle, htimer⟩ := near_advance h.near d _ (congrArg Scheduler.progress hafter)
    rw [Progress.elapsed_settledAt] at hpassed hcycle htimer
    exact ⟨_, hafter, congrArg Duration.nanos (Progress.elapsed_settledAt ..), hpassed .cycle,
      hcycle, hpassed .timer, htimer⟩

/-- One rate is zero and the other is as high as it gets; three nanoseconds have passed. -/
theorem bounded_advance_extreme_rates :
    let clock : Clock := ⟨0, 2 ^ 64 - 1⟩
    let e := ((Emulator.scripted []).load [0x12, 0x00]).state
    let s : Scheduler := (advance (start ⟨.idle clock, e⟩).state ⟨3⟩).state.scheduler
    s = ⟨clock, some ⟨⟨3⟩, ⟨1000000000⟩, ⟨3⟩⟩⟩ ∧ s.Reachable ∧ Bounded ⟨s, e⟩ ⟨5⟩ := by
  intro clock e s
  have hs : s.Reachable := .advance (.start (.idle clock) e) e ⟨3⟩
  exact ⟨by decide +kernel, hs, bounded_advance ⟨s, e⟩ hs ⟨5⟩⟩

end Console

end Chip8
