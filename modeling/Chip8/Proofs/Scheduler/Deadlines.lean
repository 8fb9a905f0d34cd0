/-
# The deadlines of a clock

A started scheduler carries out cycles at the multiples of the cycle period, the first at zero, and
timer ticks at the positive multiples of the timer period, all in the order of time and the timer
first where two fall together.

* `Clock.deadlines` lists the deadlines before a time by going through the time nanosecond by
  nanosecond; `Clock.deadlines_isMerge` says what is in the list and in which order, and
  `Clock.of_deadlines` counts it.
* `Progress.agendaUntil_initial` says that this list is the agenda of a scheduler just started.
* `Console.fired` is the trace of the firing loop in a slice; `Console.traced` says that the slice
  does what it says and nothing else, whatever ends it.
* `Console.firedAll` is the trace of a list of slices; `Console.Follows` says how it, and all that
  the slices do, compares with the list.
-/
import Chip8.Proofs.Scheduler.Slices

namespace Chip8

/-! ## 1. The list of deadlines -/

/-- The order in which deadlines are met: by time, and on a tie the timer first. -/
def Deadline.Before (d e : Deadline) : Prop :=
  d.time < e.time ∨ d.time = e.time ∧ d.activity = .timer ∧ e.activity = .cycle

namespace Clock

/-- The deadlines at a nanosecond, the timer first. -/
def deadlinesAt (c : Clock) (t : Nat) : List Deadline :=
  (if 0 < t ∧ c.timerPeriod.nanos ∣ t then [⟨t, .timer⟩] else [])
    ++ (if c.cyclePeriod.nanos ∣ t then [⟨t, .cycle⟩] else [])

/-- The deadlines before `T`, nanosecond by nanosecond. -/
def deadlines (c : Clock) (T : Nat) : List Deadline := (List.range T).flatMap c.deadlinesAt

/-- What it means to merge the deadlines before `T`: they are all there, those of the cycles from
zero on and those of the timers from one period on, in order and without repetition. -/
structure IsMerge (c : Clock) (T : Nat) (ds : List Deadline) : Prop where
  sorted : ds.Pairwise Deadline.Before
  mem_cycle : ∀ t, ⟨t, .cycle⟩ ∈ ds ↔ t < T ∧ ∃ k, t = k * c.cyclePeriod.nanos
  mem_timer : ∀ t, ⟨t, .timer⟩ ∈ ds ↔ t < T ∧ ∃ j, 1 ≤ j ∧ t = j * c.timerPeriod.nanos

theorem time_of_mem_deadlinesAt {c : Clock} {t : Nat} {d : Deadline} (h : d ∈ c.deadlinesAt t) :
    d.time = t := by
  rw [deadlinesAt, List.mem_append] at h
  rcases h with h | h
  · split at h
    · rw [List.mem_singleton.mp h]
    · simp at h
  · split at h
    · rw [List.mem_singleton.mp h]
    · simp at h

theorem mem_deadlinesAt_cycle {c : Clock} {t : Nat} :
    ⟨t, .cycle⟩ ∈ c.deadlinesAt t ↔ c.cyclePeriod.nanos ∣ t := by
  unfold deadlinesAt
  split <;> split <;> simp_all

theorem mem_deadlinesAt_timer {c : Clock} {t : Nat} :
    ⟨t, .timer⟩ ∈ c.deadlinesAt t ↔ 0 < t ∧ c.timerPeriod.nanos ∣ t := by
  unfold deadlinesAt
  split <;> split <;> simp_all

theorem mem_deadlines {c : Clock} {T : Nat} {d : Deadline} :
    d ∈ c.deadlines T ↔ d.time < T ∧ d ∈ c.deadlinesAt d.time := by
  rw [deadlines, List.mem_flatMap]
  constructor
  · rintro ⟨t, ht, hd⟩
    obtain rfl := time_of_mem_deadlinesAt hd
    exact ⟨List.mem_range.mp ht, hd⟩
  · rintro ⟨ht, hd⟩
    exact ⟨d.time, List.mem_range.mpr ht, hd⟩

theorem deadlines_succ (c : Clock) (T : Nat) :
    c.deadlines (T + 1) = c.deadlines T ++ c.deadlinesAt T := by
  rw [deadlines, List.range_succ, List.flatMap_append, List.flatMap_singleton]
  rfl

theorem pairwise_deadlinesAt (c : Clock) (t : Nat) :
    (c.deadlinesAt t).Pairwise Deadline.Before := by
  unfold deadlinesAt
  split <;> split <;> simp [Deadline.Before]

theorem pairwise_deadlines (c : Clock) (T : Nat) :
    (c.deadlines T).Pairwise Deadline.Before := by
  refine List.pairwise_flatMap.mpr ⟨fun t _ => pairwise_deadlinesAt c t, ?_⟩
  refine List.pairwise_lt_range.imp ?_
  intro t u htu d hd e he
  left
  rwa [time_of_mem_deadlinesAt hd, time_of_mem_deadlinesAt he]

/-- **The list is the merge.** -/
theorem deadlines_isMerge (c : Clock) (T : Nat) : c.IsMerge T (c.deadlines T) where
  sorted := pairwise_deadlines c T
  mem_cycle t := by
    rw [mem_deadlines, mem_deadlinesAt_cycle]
    refine and_congr_right fun _ => ⟨?_, ?_⟩
    · rintro ⟨k, rfl⟩
      exact ⟨k, Nat.mul_comm ..⟩
    · rintro ⟨k, rfl⟩
      exact ⟨k, Nat.mul_comm ..⟩
  mem_timer t := by
    rw [mem_deadlines, mem_deadlinesAt_timer]
    have hpos : 0 < c.timerPeriod.nanos := one_le_period _
    refine and_congr_right fun _ => ⟨?_, ?_⟩
    · rintro ⟨ht, j, rfl⟩
      exact ⟨j, Nat.pos_of_mul_pos_left ht, Nat.mul_comm ..⟩
    · rintro ⟨j, hj, rfl⟩
      exact ⟨Nat.mul_pos hj hpos, j, Nat.mul_comm ..⟩

/-! ## 2. Counting -/

theorem of_deadlinesAt (c : Clock) (t : Nat) :
    Tally.of (c.deadlinesAt t)
      = ⟨if c.cyclePeriod.nanos ∣ t then 1 else 0,
          if 0 < t ∧ c.timerPeriod.nanos ∣ t then 1 else 0⟩ := by
  unfold deadlinesAt
  split <;> split <;> simp [Tally.of]

/-- The multiples of `p` before `T + 1`, counted from those before `T`. -/
theorem ceil_succ {p : Nat} (hp : 1 ≤ p) (T : Nat) :
    (T + 1 + p - 1) / p = (T + p - 1) / p + if p ∣ T then 1 else 0 := by
  have hsucc : T + 1 + p - 1 = (T + p - 1) + 1 := by omega
  have hsame : T + p - 1 + 1 = T + p := by omega
  rw [hsucc]
  split
  · rename_i h
    exact Nat.succ_div_of_dvd (by rw [hsame]; exact Nat.dvd_add h (Nat.dvd_refl p))
  · rename_i h
    rw [Nat.succ_div_of_not_dvd, Nat.add_zero]
    rw [hsame]
    exact fun hd => h ((Nat.dvd_add_iff_left (Nat.dvd_refl p)).mpr hd)

/-- The positive multiples of `p` before `T + 1`, counted from those before `T`. -/
theorem floor_succ (p T : Nat) :
    T / p = (T - 1) / p + if 0 < T ∧ p ∣ T then 1 else 0 := by
  cases T with
  | zero => simp
  | succ T =>
    split
    · rename_i h
      exact Nat.succ_div_of_dvd h.2
    · rename_i h
      exact Nat.succ_div_of_not_dvd fun hd => h ⟨Nat.succ_pos T, hd⟩

/-- **How many deadlines there are before `T`**: of the cycles `T` over the period rounded up, of
the timers `T - 1` over the period rounded down. -/
theorem of_deadlines (c : Clock) (T : Nat) :
    Tally.of (c.deadlines T)
      = ⟨(T + c.cyclePeriod.nanos - 1) / c.cyclePeriod.nanos,
          (T - 1) / c.timerPeriod.nanos⟩ := by
  have hcycle : 1 ≤ c.cyclePeriod.nanos := one_le_period _
  induction T with
  | zero =>
    have hlt : 0 + c.cyclePeriod.nanos - 1 < c.cyclePeriod.nanos := by omega
    rw [Nat.div_eq_of_lt hlt, Nat.zero_sub, Nat.zero_div]
    rfl
  | succ T ih =>
    rw [deadlines_succ, Tally.of_append, of_deadlinesAt, ih]
    refine Tally.ext ?_ ?_
    · rw [ceil_succ hcycle]
      rfl
    · rw [Nat.add_sub_cancel, floor_succ _ T]
      rfl

/-- Before the cycle of a nanosecond there is at most the timer tick of the same nanosecond. -/
theorem deadlinesAt_eq_append {c : Clock} {t u : Nat} {here rest : List Deadline}
    (h : c.deadlinesAt t = here ++ ⟨u, .cycle⟩ :: rest) :
    u = t ∧ c.cyclePeriod.nanos ∣ t ∧
      Tally.of here = ⟨0, if 0 < t ∧ c.timerPeriod.nanos ∣ t then 1 else 0⟩ := by
  have hmem : ⟨u, .cycle⟩ ∈ c.deadlinesAt t := by rw [h]; simp
  obtain rfl : u = t := time_of_mem_deadlinesAt hmem
  have hdvd := mem_deadlinesAt_cycle.mp hmem
  refine ⟨rfl, hdvd, ?_⟩
  rw [deadlinesAt, if_pos hdvd] at h
  split at h
  · -- the timer tick and the cycle
    rename_i htimer
    rw [if_pos htimer]
    rcases here with _ | ⟨d, _ | ⟨e, here⟩⟩
    · simp at h
    · obtain ⟨rfl, -⟩ := List.cons.inj h
      rfl
    · simp at h
  · -- the cycle alone
    rename_i htimer
    rw [if_neg htimer]
    rcases here with _ | ⟨d, here⟩
    · rfl
    · simp at h

/-- **Where a cycle stands.**  The cycle at `t` comes after as many cycles as there are periods in
`t`, and after the timer ticks up to `t`. -/
theorem before_cycle {c : Clock} {T : Nat} {front rest : List Deadline} {t : Nat}
    (h : c.deadlines T = front ++ ⟨t, .cycle⟩ :: rest) :
    t = (Tally.of front).cycles * c.cyclePeriod.nanos ∧
      (Tally.of front).timers = t / c.timerPeriod.nanos := by
  induction T generalizing rest with
  | zero => simp [deadlines] at h
  | succ T ih =>
    rw [deadlines_succ] at h
    -- the cycle is one of those before `T`, or the one at `T`
    have hcases : (∃ rest, c.deadlines T = front ++ ⟨t, .cycle⟩ :: rest) ∨
        ∃ here, front = c.deadlines T ++ here ∧ c.deadlinesAt T = here ++ ⟨t, .cycle⟩ :: rest := by
      rcases List.append_eq_append_iff.mp h with ⟨here, hfront, hhere⟩ | ⟨later, hfront, hlater⟩
      · exact .inr ⟨here, hfront, hhere⟩
      · cases later with
        | nil => exact .inr ⟨[], by rw [hfront]; simp, hlater.symm⟩
        | cons d later =>
          obtain ⟨rfl, -⟩ := List.cons.inj hlater
          exact .inl ⟨later, hfront⟩
    rcases hcases with ⟨rest', hbefore⟩ | ⟨here, rfl, hhere⟩
    · exact ih hbefore
    · obtain ⟨rfl, ⟨k, hk⟩, hof⟩ := deadlinesAt_eq_append hhere
      have hpos : 0 < c.cyclePeriod.nanos := one_le_period _
      rw [Tally.of_append, of_deadlines, hof, floor_succ _ t]
      refine ⟨?_, rfl⟩
      have hceil : (t + c.cyclePeriod.nanos - 1) / c.cyclePeriod.nanos = k := by
        have hlt : c.cyclePeriod.nanos - 1 < c.cyclePeriod.nanos := by omega
        rw [hk, Nat.add_sub_assoc hpos, Nat.mul_add_div hpos, Nat.div_eq_of_lt hlt, Nat.add_zero]
      rw [Tally.add_def, hceil, Nat.add_zero, hk]
      exact Nat.mul_comm ..

/-- **There is one merge.** -/
theorem IsMerge.unique {c : Clock} {T : Nat} {ds es : List Deadline} (hd : c.IsMerge T ds)
    (he : c.IsMerge T es) : ds = es := by
  have hirrefl : ∀ d : Deadline, ¬ d.Before d := by
    rintro ⟨t, a⟩ (h | ⟨-, h1, h2⟩)
    · exact Nat.lt_irrefl t h
    · exact absurd (h1.symm.trans h2) (by decide)
  have hnodup : ∀ {l : List Deadline}, l.Pairwise Deadline.Before → l.Nodup := by
    intro l hl
    refine hl.imp ?_
    rintro d e h rfl
    exact hirrefl d h
  have hmem : ∀ d, d ∈ ds ↔ d ∈ es := by
    rintro ⟨t, a⟩
    cases a with
    | cycle => rw [hd.mem_cycle, he.mem_cycle]
    | timer => rw [hd.mem_timer, he.mem_timer]
  have hperm := (List.perm_ext_iff_of_nodup (hnodup hd.sorted) (hnodup he.sorted)).mpr hmem
  refine List.Perm.eq_of_pairwise ?_ hd.sorted he.sorted hperm
  rintro ⟨t, a⟩ ⟨u, b⟩ - - hab hba
  unfold Deadline.Before at hab hba
  rcases hab with hab | ⟨htu, rfl, rfl⟩
  · simp only at hab hba
    omega
  · simp at htu hba
    omega

end Clock

/-! ## 3. The agenda of a scheduler just started -/

namespace Progress

/-- Where nothing is due, no deadline has passed. -/
theorem elapsed_le_deadline {p : Progress} (h : p.due = none) (a : Activity) :
    p.elapsed.nanos ≤ (p.deadline a).nanos := by
  have hfirst := due_eq_none_iff.mp h
  rcases p.first_cases with ⟨ht, hle⟩ | ⟨hc, hlt⟩
  · rw [ht] at hfirst
    cases a with
    | timer => exact hfirst
    | cycle => exact Nat.le_trans hfirst hle
  · rw [hc] at hfirst
    cases a with
    | timer => exact Nat.le_trans hfirst (Nat.le_of_lt hlt)
    | cycle => exact hfirst

/-- The other activity comes after the first, now and at all its later deadlines. -/
theorem first_before {p : Progress} {a b : Activity} (h : p.first = a) (hne : b ≠ a) (k : Nat) :
    Deadline.Before ⟨(p.deadline a).nanos, a⟩ ⟨(p.deadline b).nanos + k, b⟩ := by
  rcases p.first_cases with ⟨ht, hle⟩ | ⟨hc, hlt⟩
  · obtain rfl : a = .timer := h.symm.trans ht
    cases b with
    | timer => exact absurd rfl hne
    | cycle =>
      have hle' : p.nextTimer.nanos ≤ p.nextCycle.nanos + k := Nat.le_add_right_of_le hle
      rcases Nat.eq_or_lt_of_le hle' with heq | hlt
      · exact .inr ⟨heq, rfl, rfl⟩
      · exact .inl hlt
  · obtain rfl : a = .cycle := h.symm.trans hc
    cases b with
    | cycle => exact absurd rfl hne
    | timer => exact .inl (Nat.lt_add_right k hlt)

theorem deadline_pass_self (c : Clock) (p : Progress) (a : Activity) :
    ((p.pass c a).deadline a).nanos = (p.deadline a).nanos + (c.periodOf a).nanos := by
  cases a <;> rfl

theorem deadline_pass_of_ne (c : Clock) (p : Progress) {a b : Activity} (h : b ≠ a) :
    (p.pass c a).deadline b = p.deadline b := by
  cases a <;> cases b <;> first | rfl | exact absurd rfl h

/-- **What is on the agenda**: the deadlines at whole periods from the next one, as far as they have
passed. -/
theorem mem_agenda (c : Clock) {p : Progress} {t : Nat} {b : Activity} :
    ⟨t, b⟩ ∈ p.agenda c
      ↔ t < p.elapsed.nanos ∧ ∃ k, t = (p.deadline b).nanos + k * (c.periodOf b).nanos := by
  induction p using due_induction c with
  | hnone p h =>
    rw [agenda_of_due_eq_none c h]
    refine ⟨by simp, ?_⟩
    rintro ⟨hlt, k, rfl⟩
    exact absurd hlt (Nat.not_lt_of_le (Nat.le_add_right_of_le (elapsed_le_deadline h b)))
  | hdue p a h ih =>
    rw [agenda_of_due c h, List.mem_cons, ih, elapsed_pass]
    by_cases hb : b = a
    · subst hb
      rw [deadline_pass_self]
      constructor
      · rintro (heq | ⟨hlt, k, rfl⟩)
        · obtain ⟨rfl, -⟩ := Deadline.mk.inj heq
          exact ⟨(due_eq_some_iff.mp h).2, 0, by simp⟩
        · exact ⟨hlt, k + 1, by rw [Nat.succ_mul]; omega⟩
      · rintro ⟨hlt, k, rfl⟩
        cases k with
        | zero => exact .inl (by simp)
        | succ k => exact .inr ⟨hlt, k, by rw [Nat.succ_mul]; omega⟩
    · rw [deadline_pass_of_ne c p hb]
      refine ⟨?_, .inr⟩
      rintro (heq | hrest)
      · exact absurd (Deadline.mk.inj heq).2 hb
      · exact hrest

/-- The periods that begin in a time, counted from those that begin when one period is over. -/
theorem ceil_sub {x q : Nat} (hq : 1 ≤ q) (hx : 0 < x) :
    (x + q - 1) / q = (x - q + q - 1) / q + 1 := by
  have hsucc : x + q - 1 = x - 1 + q := by omega
  rw [hsucc, Nat.add_div_right _ hq]
  rcases Nat.lt_or_ge x q with hlt | hge
  · have hfirst : x - 1 < q := by omega
    have hnone : x - q + q - 1 < q := by omega
    rw [Nat.div_eq_of_lt hfirst, Nat.div_eq_of_lt hnone]
  · have hsame : x - q + q - 1 = x - 1 := by omega
    rw [hsame]

/-- **How often an activity is on the agenda**: the time from its next deadline over its period,
rounded up. -/
theorem countP_agenda (c : Clock) (p : Progress) (b : Activity) :
    (p.agenda c).countP (fun d => d.activity = b)
      = (p.elapsed.nanos - (p.deadline b).nanos + (c.periodOf b).nanos - 1)
        / (c.periodOf b).nanos := by
  have hpos : 1 ≤ (c.periodOf b).nanos := c.one_le_periodOf b
  induction p using due_induction c with
  | hnone p h =>
    have hle := elapsed_le_deadline h b
    rw [agenda_of_due_eq_none c h, Nat.div_eq_of_lt (by omega)]
    rfl
  | hdue p a h ih =>
    rw [agenda_of_due c h, List.countP_cons, ih, elapsed_pass]
    by_cases hb : b = a
    · subst hb
      have hpassed : 0 < p.elapsed.nanos - (p.deadline b).nanos :=
        Nat.sub_pos_of_lt (due_eq_some_iff.mp h).2
      rw [deadline_pass_self, ceil_sub hpos hpassed, Nat.sub_add_eq]
      simp
    · have hne : ¬ a = b := fun e => hb e.symm
      rw [deadline_pass_of_ne c p hb]
      simp [hne]

/-- **An agenda is in order.** -/
theorem pairwise_agenda (c : Clock) (p : Progress) : (p.agenda c).Pairwise Deadline.Before := by
  induction p using due_induction c with
  | hnone p h => rw [agenda_of_due_eq_none c h]; exact .nil
  | hdue p a h ih =>
    rw [agenda_of_due c h]
    refine List.pairwise_cons.mpr ⟨?_, ih⟩
    rintro ⟨t, b⟩ hb
    obtain ⟨-, k, rfl⟩ := (mem_agenda c).mp hb
    by_cases hab : b = a
    · subst hab
      have hperiod := c.one_le_periodOf b
      rw [deadline_pass_self]
      have hlater : (p.deadline b).nanos
          < (p.deadline b).nanos + (c.periodOf b).nanos + k * (c.periodOf b).nanos := by omega
      exact .inl hlater
    · rw [deadline_pass_of_ne c p hab]
      exact first_before (due_eq_some_iff.mp h).1 hab _

theorem due_initial (c : Clock) : (initial c).due = none :=
  due_eq_none_iff.mpr (Nat.zero_le _)

/-- **The agenda of a scheduler just started** is the list of deadlines of its clock. -/
theorem agendaUntil_initial (c : Clock) (T : Nat) :
    (initial c).agendaUntil c T = c.deadlines T := by
  refine Clock.IsMerge.unique (T := T) ⟨pairwise_agenda c _, ?_, ?_⟩ (Clock.deadlines_isMerge c T)
  · intro t
    refine (mem_agenda c).trans (and_congr_right fun _ => exists_congr fun k => ?_)
    rw [show ((initial c).reach ⟨T⟩).deadline .cycle = .zero from rfl, Duration.zero, Nat.zero_add]
    rfl
  · intro t
    refine (mem_agenda c).trans (and_congr_right fun _ => ?_)
    constructor
    · rintro ⟨k, rfl⟩
      exact ⟨k + 1, by omega, by rw [Nat.succ_mul, Nat.add_comm]; rfl⟩
    · rintro ⟨j, hj, rfl⟩
      obtain ⟨k, rfl⟩ : ∃ k, j = k + 1 := ⟨j - 1, by omega⟩
      exact ⟨k, by rw [Nat.succ_mul, Nat.add_comm]; rfl⟩

end Progress

/-! ## 4. What the firing loop carries out -/

namespace Firing

variable {π : Type} [Platform π]

theorem lt_of_add?_periodOf {c : Clock} {p : Progress} {a : Activity} {d : Duration}
    (h : (p.deadline a).add? (c.periodOf a) = some d) : p.deadline a < d := by
  have hsum := (Duration.add?_eq_some_iff.mp h).2
  have hperiod := c.one_le_periodOf a
  rw [Duration.lt_def]
  omega

/-- What is carried out of an activity whose next deadline is out of range. -/
def stranded (f : Firing π) : Activity → List Deadline
  | .timer => [⟨f.progress.nextTimer.nanos, .timer⟩]
  | .cycle => []

/-- The trace of `run`: what it carries out, each with its deadline. -/
def fired (f : Firing π) (c : Clock) : List Deadline :=
  match _hdue : f.progress.due with
  | none => []
  | some a =>
    match _hsum : (f.progress.deadline a).add? (c.periodOf a) with
    | none => f.stranded a
    | some deadline =>
      let after := f.next a deadline
      ⟨(f.progress.deadline a).nanos, a⟩ ::
        match after.2 with
        | some _ => []
        | none => after.1.fired c
termination_by f.progress.backlog
decreasing_by
  have hrearm : (f.next a deadline).1.progress = f.progress.rearm a deadline := by rw [next_eq]
  exact hrearm ▸ Progress.backlog_rearm_lt _hdue (lt_of_add?_periodOf _hsum)

theorem fired_of_due_eq_none {c : Clock} {f : Firing π} (h : f.progress.due = none) :
    f.fired c = [] := by
  rw [fired]
  split
  · rfl
  · rename_i a ha
    exact absurd (h.symm.trans ha) (by simp)

theorem fired_of_due {c : Clock} {f : Firing π} {a : Activity} {d : Duration}
    (h : f.progress.due = some a) (hd : (f.progress.deadline a).add? (c.periodOf a) = some d) :
    f.fired c = ⟨(f.progress.deadline a).nanos, a⟩ ::
      match (f.next a d).2 with
      | some _ => []
      | none => (f.next a d).1.fired c := by
  rw [fired]
  split
  · rename_i hn
    exact absurd (h.symm.trans hn) (by simp)
  · rename_i b hb
    obtain rfl : a = b := Option.some.inj (h.symm.trans hb)
    split
    · rename_i hn
      exact absurd (hd.symm.trans hn) (by simp)
    · rename_i e he
      obtain rfl : d = e := Option.some.inj (hd.symm.trans he)
      rfl

theorem fired_of_add?_eq_none {c : Clock} {f : Firing π} {a : Activity}
    (h : f.progress.due = some a) (hd : (f.progress.deadline a).add? (c.periodOf a) = none) :
    f.fired c = f.stranded a := by
  rw [fired]
  split
  · rename_i hn
    exact absurd (h.symm.trans hn) (by simp)
  · rename_i b hb
    obtain rfl : a = b := Option.some.inj (h.symm.trans hb)
    split
    · rfl
    · rename_i d hsum
      exact absurd (hd.symm.trans hsum) (by simp)

/-- Rearming an activity for the time one period later is passing its deadline. -/
theorem progress_next {c : Clock} {f : Firing π} {a : Activity} {d : Duration}
    (hd : (f.progress.deadline a).add? (c.periodOf a) = some d) :
    (f.next a d).1.progress = f.progress.pass c a := by
  have hsum : d = ⟨(f.progress.deadline a).nanos + (c.periodOf a).nanos⟩ :=
    Duration.ext (Duration.add?_eq_some_iff.mp hd).2
  rw [next_eq, hsum]
  rfl

omit [Platform π] in
/-- An activity whose next deadline is out of range is on the agenda all the same. -/
theorem stranded_prefix_agenda (c : Clock) {f : Firing π} {a : Activity}
    (h : f.progress.due = some a) : f.stranded a <+: f.progress.agenda c := by
  cases a with
  | cycle => exact List.nil_prefix
  | timer =>
    rw [Progress.agenda_of_due c h]
    exact List.cons_prefix_cons.mpr ⟨rfl, List.nil_prefix⟩

theorem carryOut_stranded (f : Firing π) (a : Activity) :
    (f.emulator.carryOut (f.stranded a)).result = (f.stranded a, none) ∧
      (f.emulator.carryOut (f.stranded a)).state = (f.strand a).emulator := by
  cases a <;> exact ⟨rfl, rfl⟩

/-- **What the loop does is what its trace says**, whatever ends it: the trace is the beginning of
the agenda, and carrying it out gives what the loop leaves.  No bound on the time is needed. -/
theorem run_of_fired (c : Clock) (f : Firing π) :
    f.fired c <+: f.progress.agenda c ∧
      (f.emulator.carryOut (f.fired c)).result.1 = f.fired c ∧
      (f.run c).1.emulator = (f.emulator.carryOut (f.fired c)).state ∧
      (∀ g, (f.run c).2 = .faulted g ↔ (f.emulator.carryOut (f.fired c)).result.2 = some g) ∧
      ∀ t, (f.run c).2 = .ticked t → t = f.tally.countAll (f.fired c) := by
  fun_induction Firing.run f c with
  | case1 f hdue =>
    rw [fired_of_due_eq_none hdue]
    exact ⟨List.nil_prefix, rfl, rfl, by simp [Emulator.carryOut],
      fun t ht => (Passage.ticked.inj ht).symm⟩
  | case2 f a hdue hsum =>
    obtain ⟨hcarried, hstate⟩ := f.carryOut_stranded a
    rw [fired_of_add?_eq_none hdue hsum, hcarried, hstate]
    exact ⟨stranded_prefix_agenda c hdue, rfl, rfl, by simp, by simp⟩
  | case3 f a hdue d hsum next fault hfault =>
    have hact : (f.emulator.act a).result = some fault :=
      (congrArg Prod.snd (f.next_eq a d)).symm.trans hfault
    have hemulator : (f.next a d).1.emulator = (f.emulator.act a).state := by rw [next_eq]
    rw [fired_of_due hdue hsum, hfault, Progress.agenda_of_due c hdue,
      Emulator.carryOut_cons_of_fault _ hact]
    exact ⟨List.cons_prefix_cons.mpr ⟨rfl, List.nil_prefix⟩, rfl, hemulator, by simp, by simp⟩
  | case4 f a hdue d hsum next hok ih =>
    have hact : (f.emulator.act a).result = none :=
      (congrArg Prod.snd (f.next_eq a d)).symm.trans hok
    have hemulator : (f.next a d).1.emulator = (f.emulator.act a).state := by rw [next_eq]
    have htally : (f.next a d).1.tally = f.tally.count a := by rw [next_eq]
    have hprogress := progress_next hsum
    obtain ⟨hfront, hall, hstate, hfault, hcount⟩ := ih
    rw [hemulator] at hall hstate hfault
    rw [fired_of_due hdue hsum, hok, Progress.agenda_of_due c hdue, Emulator.carryOut_cons _ hact]
    refine ⟨?_, congrArg (_ :: ·) hall, hstate, hfault, fun t ht => ?_⟩
    · rw [← hprogress]
      exact List.cons_prefix_cons.mpr ⟨rfl, hfront⟩
    · rw [hcount t ht, htally]
      rfl

/-- The trace is the part of the agenda that is carried out. -/
theorem fired_eq (c : Clock) {p : Progress}
    (hp : p.elapsed.nanos + 1000000000 ≤ Duration.longest.nanos) (f : Firing π)
    (hf : f.progress = p) : f.fired c = (f.emulator.carryOut (p.agenda c)).result.1 := by
  induction p using Progress.due_induction c generalizing f with
  | hnone p h =>
    subst hf
    rw [fired_of_due_eq_none h, Progress.agenda_of_due_eq_none c h]
    rfl
  | hdue p a h ih =>
    subst hf
    rw [fired_of_due h (Progress.add?_of_due c h hp), Progress.agenda_of_due c h]
    cases hact : (f.emulator.act a).result with
    | some fault =>
      rw [Emulator.carryOut_cons_of_fault _ hact]
      simp [next_eq, hact]
    | none =>
      rw [Emulator.carryOut_cons _ hact]
      have hnext := ih (by simpa using hp) (f.next a _).1 (by rw [next_eq]; rfl)
      simp only [next_eq, hact] at hnext ⊢
      rw [hnext]

end Firing

namespace Console

variable {π : Type} [Platform π]

/-- What is carried out while time passes, each with its deadline. -/
def fired (c : Console π) (d : Duration) : List Deadline :=
  match c.scheduler.progress with
  | none => []
  | some p =>
    match p.elapsed.add? d with
    | none => []
    | some elapsed =>
      Firing.fired ⟨{ p with elapsed }, c.emulator, {}, #[]⟩ c.scheduler.clock

theorem fired_of_sum {c : Console π} {p : Progress} {d E : Duration}
    (hp : c.scheduler.progress = some p) (hsum : p.elapsed.add? d = some E) :
    c.fired d = (c.firing p E).fired c.scheduler.clock := by
  simp only [fired, hp, hsum]
  rfl

/-- What the trace of a slice says about it. -/
structure Traced (c : Console π) (d : Duration) : Prop where
  /-- The trace is in the order of the deadlines. -/
  sorted : (c.fired d).Pairwise Deadline.Before
  /-- It can be carried out to its end, -/
  complete : (c.emulator.carryOut (c.fired d)).result.1 = c.fired d
  /-- which is a fault exactly if the slice ends in one; -/
  faulted : ∀ f, (c.advance d).result = .faulted f ↔
    (c.emulator.carryOut (c.fired d)).result.2 = some f
  /-- that is all that the slice does to the emulator, -/
  effect : (c.advance d).state.emulator
    = (c.advance d).result.leave (c.emulator.carryOut (c.fired d)).state
  /-- and what a tick counts. -/
  tally : ∀ t, (c.advance d).result = .ticked t → t = Tally.of (c.fired d)

/-- A slice in which nothing happens. -/
theorem traced_of_nil {c : Console π} {d : Duration} {p : Passage} (hfired : c.fired d = [])
    (hadvance : c.advance d = ⟨p, c, []⟩) (hp : p = .ticked {} ∨ p = .overflowed) :
    c.Traced d := by
  refine ⟨?_, ?_, ?_, ?_, ?_⟩ <;> rw [hfired]
  · exact .nil
  · rfl
  · intro f
    rw [hadvance]
    rcases hp with rfl | rfl <;> simp [Emulator.carryOut]
  · rw [hadvance]
    rcases hp with rfl | rfl <;> rfl
  · intro t ht
    rw [hadvance] at ht
    rcases hp with rfl | rfl
    · exact (Passage.ticked.inj ht).symm
    · cases ht

/-- **A slice does what its trace says**, whatever ends it. -/
theorem traced (c : Console π) (d : Duration) : c.Traced d := by
  cases hp : c.scheduler.progress with
  | none => exact traced_of_nil (by simp [fired, hp]) (advance_idle hp d) (.inl rfl)
  | some p =>
    cases hsum : p.elapsed.add? d with
    | none =>
      have hadvance : c.advance d = ⟨.overflowed, c, []⟩ := by simp only [advance, hp, hsum]
      exact traced_of_nil (by simp [fired, hp, hsum]) hadvance (.inr rfl)
    | some E =>
      obtain ⟨hfront, hall, hleft, hfault, hcount⟩ :=
        Firing.run_of_fired c.scheduler.clock (c.firing p E)
      obtain ⟨hresult, hstate, -⟩ := advance_of_sum hp hsum
      rw [← fired_of_sum hp hsum] at hfront hall hleft hfault hcount
      refine ⟨?_, hall, ?_, ?_, ?_⟩
      · exact (Progress.pairwise_agenda c.scheduler.clock _).sublist hfront.sublist
      · rw [hresult]
        exact hfault
      · rw [hstate, hresult, hleft]
        rfl
      · intro t ht
        rw [hcount t (hresult ▸ ht), Tally.countAll_eq]
        exact Tally.zero_add _

/-- What is carried out while spans of time pass one after the other. -/
def firedAll (c : Console π) : List Duration → List Deadline
  | [] => []
  | d :: ds => c.fired d ++ (c.advance d).state.firedAll ds

theorem fired_running {c : Console π} {p : Progress} {d : Duration}
    (hp : c.scheduler.progress = some p)
    (hmax : p.elapsed.nanos + d.nanos + 1000000000 ≤ Duration.longest.nanos) :
    c.fired d = (c.carriedUntil p (p.elapsed.nanos + d.nanos)).result.1 := by
  have hsum : p.elapsed.add? d = some ⟨p.elapsed.nanos + d.nanos⟩ := by
    rw [Duration.add?_eq_some_iff]
    exact ⟨by omega, rfl⟩
  rw [fired_of_sum hp hsum]
  exact Firing.fired_eq c.scheduler.clock (p := p.reach ⟨p.elapsed.nanos + d.nanos⟩) hmax _ rfl

theorem firedAll_idle {c : Console π} (h : c.scheduler.progress = none) (ds : List Duration) :
    c.firedAll ds = [] := by
  induction ds with
  | nil => rfl
  | cons d ds ih =>
    have hfirst : c.fired d = [] := by simp only [fired, h]
    rw [firedAll, hfirst, advance_idle h, ih]
    rfl

/-- **The trace of a list of slices** is what is carried out of the agenda of their sum. -/
theorem firedAll_eq {c : Console π} {p : Progress} {ds : List Duration}
    (hp : c.scheduler.progress = some p) (hds : ds = [] → p.due = none)
    (hmax : p.elapsed.nanos + Duration.total ds + 1000000000 ≤ Duration.longest.nanos) :
    c.firedAll ds = (c.carriedUntil p (p.elapsed.nanos + Duration.total ds)).result.1 := by
  induction ds generalizing c p with
  | nil =>
    rw [Duration.total_nil, Nat.add_zero, carriedUntil,
      Progress.agendaUntil_of_due_eq_none c.scheduler.clock (hds rfl)]
    rfl
  | cons d ds ih =>
    rw [Duration.total_cons, ← Nat.add_assoc] at hmax ⊢
    have hle := Nat.le_add_right (p.elapsed.nanos + d.nanos) (Duration.total ds)
    rw [firedAll, fired_running hp (by omega)]
    cases h1 : (c.carriedUntil p (p.elapsed.nanos + d.nanos)).result.2 with
    | some f =>
      have hstate := (advance_of_some hp (by omega) h1).2.1
      rw [hstate, firedAll_idle rfl, List.append_nil, carriedUntil_of_some hle h1]
    | none =>
      have hfirst := advance_of_none hp (by omega) h1
      have hall := (Emulator.carryOut_of_none h1).1
      have hq : (p.settledAt c.scheduler.clock (p.elapsed.nanos + d.nanos)).elapsed.nanos
          = p.elapsed.nanos + d.nanos := by simp
      have hrest := ih (c := c.reached p (p.elapsed.nanos + d.nanos)) rfl
        (fun _ => Progress.due_settled _ _) (by rw [hq]; exact hmax)
      rw [hq] at hrest
      rw [hfirst, hrest, carriedUntil_of_none hle h1]
      exact congrArg (· ++ _) hall

section Started

variable (c : Console π) {ds : List Duration}
  (hT : Duration.total ds + 1000000000 ≤ Duration.longest.nanos)

/-- What a started scheduler carries out of the deadlines before `T`. -/
theorem carriedUntil_start (T : Nat) :
    c.start.state.carriedUntil (.initial c.scheduler.clock) (0 + T)
      = c.emulator.carryOut (c.scheduler.clock.deadlines T) := by
  rw [Nat.zero_add]
  exact congrArg c.emulator.carryOut (Progress.agendaUntil_initial c.scheduler.clock T)

include hT

theorem firedAll_start :
    c.start.state.firedAll ds
      = (c.emulator.carryOut (c.scheduler.clock.deadlines (Duration.total ds))).result.1 := by
  rw [← carriedUntil_start]
  exact firedAll_eq rfl (fun _ => Progress.due_initial _) ((Nat.zero_add _).symm ▸ hT)

theorem advanceAll_start_of_none
    (h : (c.emulator.carryOut (c.scheduler.clock.deadlines (Duration.total ds))).result.2 = none) :
    Passage.AllTicked (c.start.state.advanceAll ds).result
        (Tally.of (c.scheduler.clock.deadlines (Duration.total ds))) ∧
      (c.start.state.advanceAll ds).state.emulator
        = (c.emulator.carryOut (c.scheduler.clock.deadlines (Duration.total ds))).state := by
  rw [← carriedUntil_start] at h ⊢
  obtain ⟨hticked, hstate, -⟩ := advanceAll_of_none (c := c.start.state) rfl
    (fun _ => Progress.due_initial _) ((Nat.zero_add _).symm ▸ hT) h
  refine ⟨?_, congrArg Console.emulator hstate⟩
  have helapsed : (Progress.initial c.scheduler.clock).elapsed.nanos = 0 := rfl
  rw [helapsed, Nat.zero_add] at hticked
  rwa [← Progress.agendaUntil_initial]

theorem advanceAll_start_of_some {f : Fault}
    (h : (c.emulator.carryOut (c.scheduler.clock.deadlines (Duration.total ds))).result.2
      = some f) :
    Passage.Halted (c.start.state.advanceAll ds).result f ∧
      (c.start.state.advanceAll ds).state.emulator
        = ((c.emulator.carryOut (c.scheduler.clock.deadlines (Duration.total ds))).state.tell
            false).state := by
  rw [← carriedUntil_start] at h ⊢
  obtain ⟨hhalted, hstate, -⟩ := advanceAll_of_some (c := c.start.state) rfl
    (fun _ => Progress.due_initial _) ((Nat.zero_add _).symm ▸ hT) h
  exact ⟨hhalted, congrArg Console.emulator hstate⟩

end Started

/-- What it means that a scheduler follows its clock for `T` nanoseconds: `trace` is what it fired,
`results` are what its slices came to, and they took the emulator from `before` to `after`. -/
structure Follows (clock : Clock) (T : Nat) (before : Emulator π) (trace : List Deadline)
    (results : List Passage) (after : Emulator π) : Prop where
  /-- The deadlines of the clock are the multiples of its periods, in order. -/
  merge : clock.IsMerge T (clock.deadlines T)
  /-- The cycle `k` comes at `k` cycle periods, after the timer ticks up to there. -/
  cycle : ∀ front t rest, clock.deadlines T = front ++ ⟨t, .cycle⟩ :: rest →
    t = (Tally.of front).cycles * clock.cyclePeriod.nanos ∧
      (Tally.of front).timers = t / clock.timerPeriod.nanos
  /-- Without a fault all of them are met, and what becomes of the emulator is what its timers and its
  instructions make of it, one after the other in this order. -/
  unfaulted : (∀ f, .faulted f ∉ results) →
    trace = clock.deadlines T ∧
    Passage.AllTicked results
      ⟨(T + clock.cyclePeriod.nanos - 1) / clock.cyclePeriod.nanos,
        (T - 1) / clock.timerPeriod.nanos⟩ ∧
    after = before.afterAll (clock.deadlines T)
  /-- With a fault they are met up to the first cycle that has one. -/
  faulted : ∀ f, .faulted f ∈ results →
    Passage.Halted results f ∧
    ∃ front t rest, clock.deadlines T = front ++ ⟨t, .cycle⟩ :: rest ∧
      trace = front ++ [⟨t, .cycle⟩] ∧
      (∀ pre u post, front = pre ++ ⟨u, .cycle⟩ :: post →
        ∀ g, (before.afterAll pre).tick.result ≠ .error (.fault g)) ∧
      (before.afterAll front).tick.result = .error (.fault f) ∧
      after = ((before.afterAll trace).tell false).state

/-- **A scheduler follows the deadlines of its clock.**  Over any slices after the start, whatever
the program does, exactly the deadlines before the sum are met, in order, and the emulator is what
these activities make of it one after the other; if a cycle faults, they end with the first that
does. -/
theorem advanceAll_follows_deadlines (c : Console π) (ds : List Duration)
    (hT : Duration.total ds + 1000000000 ≤ Duration.longest.nanos) :
    Follows c.scheduler.clock (Duration.total ds) c.emulator (c.start.state.firedAll ds)
      (c.start.state.advanceAll ds).result (c.start.state.advanceAll ds).state.emulator := by
  have hfired := firedAll_start c hT
  cases h : (c.emulator.carryOut
      (c.scheduler.clock.deadlines (Duration.total ds))).result.2 with
  | none =>
    obtain ⟨hall, hafter⟩ := Emulator.carryOut_of_none h
    obtain ⟨hticked, hstate⟩ := advanceAll_start_of_none c hT h
    refine ⟨Clock.deadlines_isMerge _ _, fun _ _ _ => Clock.before_cycle, ?_, ?_⟩
    · intro _
      rw [← Clock.of_deadlines]
      exact ⟨hfired.trans hall, hticked, hstate.trans hafter⟩
    · intro f hf
      exact absurd hf (Passage.not_mem_of_allTicked hticked f)
  | some g =>
    obtain ⟨front, t, rest, hplan, hcarried, hfront, htick, hafter⟩ := Emulator.carryOut_of_some h
    obtain ⟨hhalted, hstate⟩ := advanceAll_start_of_some c hT h
    refine ⟨Clock.deadlines_isMerge _ _, fun _ _ _ => Clock.before_cycle, ?_, ?_⟩
    · intro hno
      exact absurd ((Passage.mem_iff_of_halted hhalted).mpr rfl) (hno g)
    · intro f hf
      obtain rfl := (Passage.mem_iff_of_halted hhalted).mp hf
      rw [hfired, hcarried]
      refine ⟨hhalted, front, t, rest, hplan, rfl, ?_, htick, ?_⟩
      · rintro pre u post rfl
        exact Emulator.tick_of_carryOut_none hfront
      · rw [hstate, hafter]

/-- The slices may be empty and may end between two deadlines; the program jumps to itself. -/
theorem advanceAll_follows_deadlines_three_slices :
    let c : Console _ := ⟨.idle {}, ((Emulator.scripted []).load [0x12, 0x00]).state⟩
    let ds : List Duration := [⟨0⟩, ⟨1⟩, ⟨20000000⟩]
    Duration.total ds + 1000000000 ≤ Duration.longest.nanos ∧
      Follows c.scheduler.clock (Duration.total ds) c.emulator (c.start.state.firedAll ds)
        (c.start.state.advanceAll ds).result (c.start.state.advanceAll ds).state.emulator :=
  ⟨by decide, advanceAll_follows_deadlines _ _ (by decide)⟩

end Console

end Chip8
