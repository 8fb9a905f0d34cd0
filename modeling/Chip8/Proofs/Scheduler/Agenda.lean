/-
# The agenda of a scheduler

Which activities are due, and in which order, depends on the clock and on the progress alone; the
emulator only decides whether all of them are carried out.  This module separates the two.

* `Progress.agenda` lists the deadlines that lie before the time that has passed, in the order in
  which the scheduler takes them, and `Progress.settled` is the progress when they are behind it.
* `Emulator.carryOut` carries out such a list, up to the first fault, and `Emulator.afterAll` is what
  becomes of the emulator (`Emulator.state_carryOut`).
* `Firing.run_eq` puts the two together: firing carries out the agenda.  The one premise is that
  the time that has passed is at least a second below the longest span; then no deadline is out of
  range, for a deadline that is due is followed by another at most a second later.

`Progress.agendaUntil_eq_append` says that an agenda can be cut at any time: what is taken until
`F` is what is taken until an earlier `E`, and then what is taken from there until `F`.
-/
import Chip8.Proofs.Runs

namespace Chip8

/-- A time at which an activity is due, in nanoseconds from the start. -/
@[ext]
structure Deadline where
  time : Nat
  activity : Activity
deriving DecidableEq

/-! ## 1. Carrying out deadlines -/

namespace Emulator

variable {π : Type} [Platform π]

/-- Carries out activities in order, up to the first that ends in a fault; answers with what was
carried out, and with the fault if there was one. -/
def carryOut (e : Emulator π) : List Deadline → Step (Emulator π) (List Deadline × Option Fault)
  | [] => ⟨([], none), e, []⟩
  | d :: ds =>
    let done := e.act d.activity
    match done.result with
    | some fault => ⟨([d], some fault), done.state, done.events⟩
    | none =>
      let later := done.state.carryOut ds
      ⟨(d :: later.result.1, later.result.2), later.state, done.events ++ later.events⟩

/-- The emulator after a list of activities, each carried out whatever became of those before: the
timers count down for each of theirs, an instruction runs for each cycle. -/
def afterAll (e : Emulator π) (ds : List Deadline) : Emulator π :=
  ds.foldl (fun e d =>
    match d.activity with
    | .timer => e.countDown.state
    | .cycle => e.tick.state) e

theorem afterAll_cons (e : Emulator π) (d : Deadline) (ds : List Deadline) :
    e.afterAll (d :: ds) = (e.act d.activity).state.afterAll ds := by
  obtain ⟨t, a⟩ := d
  cases a <;> rfl

theorem afterAll_append (e : Emulator π) (ds es : List Deadline) :
    e.afterAll (ds ++ es) = (e.afterAll ds).afterAll es := List.foldl_append ..

theorem carryOut_cons_of_fault {e : Emulator π} {d : Deadline} {f : Fault} (ds : List Deadline)
    (h : (e.act d.activity).result = some f) :
    e.carryOut (d :: ds)
      = ⟨([d], some f), (e.act d.activity).state, (e.act d.activity).events⟩ := by
  rw [carryOut]
  simp only [h]

theorem carryOut_cons {e : Emulator π} {d : Deadline} (ds : List Deadline)
    (h : (e.act d.activity).result = none) :
    e.carryOut (d :: ds)
      = ⟨(d :: ((e.act d.activity).state.carryOut ds).result.1,
            ((e.act d.activity).state.carryOut ds).result.2),
          ((e.act d.activity).state.carryOut ds).state,
          (e.act d.activity).events ++ ((e.act d.activity).state.carryOut ds).events⟩ := by
  rw [carryOut]
  simp only [h]

/-- **Without a fault everything is carried out.** -/
theorem carryOut_of_none {e : Emulator π} {ds : List Deadline}
    (h : (e.carryOut ds).result.2 = none) :
    (e.carryOut ds).result.1 = ds ∧ (e.carryOut ds).state = e.afterAll ds := by
  induction ds generalizing e with
  | nil => exact ⟨rfl, rfl⟩
  | cons d ds ih =>
    cases hd : (e.act d.activity).result with
    | some f => rw [carryOut_cons_of_fault ds hd] at h; simp at h
    | none =>
      rw [carryOut_cons ds hd] at h ⊢
      obtain ⟨h1, h2⟩ := ih h
      rw [afterAll_cons]
      exact ⟨congrArg (d :: ·) h1, h2⟩

/-- Without a fault no cycle of the list ended in one. -/
theorem tick_of_carryOut_none {e : Emulator π} {front rest : List Deadline} {t : Nat}
    (h : (e.carryOut (front ++ ⟨t, .cycle⟩ :: rest)).result.2 = none) (f : Fault) :
    (e.afterAll front).tick.result ≠ .error (.fault f) := by
  induction front generalizing e with
  | nil =>
    intro hfault
    have hd : (e.act .cycle).result = some f := Stop.fault?_eq_some_iff.mpr hfault
    rw [List.nil_append, carryOut_cons_of_fault rest hd] at h
    simp at h
  | cons b front ih =>
    cases hb : (e.act b.activity).result with
    | none =>
      rw [List.cons_append, carryOut_cons _ hb] at h
      rw [afterAll_cons]
      exact ih h
    | some g => rw [List.cons_append, carryOut_cons_of_fault _ hb] at h; simp at h

/-- **A fault ends the list.**  What was carried out is a front part of the list, all of it without
a fault, and then the cycle that ended in one: timer ticks do not fail. -/
theorem carryOut_of_some {e : Emulator π} {ds : List Deadline} {f : Fault}
    (h : (e.carryOut ds).result.2 = some f) :
    ∃ front t rest, ds = front ++ ⟨t, .cycle⟩ :: rest ∧
      (e.carryOut ds).result.1 = front ++ [⟨t, .cycle⟩] ∧
      (e.carryOut front).result.2 = none ∧
      (e.afterAll front).tick.result = .error (.fault f) ∧
      (e.carryOut ds).state = e.afterAll (front ++ [⟨t, .cycle⟩]) := by
  induction ds generalizing e with
  | nil => simp [carryOut] at h
  | cons d ds ih =>
    obtain ⟨t, a⟩ := d
    cases hd : (e.act a).result with
    | some g =>
      rw [carryOut_cons_of_fault ds hd] at h ⊢
      obtain rfl : g = f := by simpa using h
      cases a with
      | timer => simp [act] at hd
      | cycle => exact ⟨[], t, ds, rfl, rfl, rfl, Stop.fault?_eq_some_iff.mp hd, rfl⟩
    | none =>
      rw [carryOut_cons ds hd] at h ⊢
      obtain ⟨front, u, rest, hds, hres, hfront, htick, hstate⟩ := ih h
      refine ⟨⟨t, a⟩ :: front, u, rest, by rw [hds]; rfl, by rw [hres]; rfl, ?_, ?_, ?_⟩
      · rw [carryOut_cons front hd]
        exact hfront
      · rw [afterAll_cons]
        exact htick
      · rw [List.cons_append, afterAll_cons]
        exact hstate

/-- What was carried out is what became of the emulator. -/
theorem state_carryOut (e : Emulator π) (ds : List Deadline) :
    (e.carryOut ds).state = e.afterAll (e.carryOut ds).result.1 := by
  cases h : (e.carryOut ds).result.2 with
  | none =>
    obtain ⟨hall, hstate⟩ := carryOut_of_none h
    rw [hstate, hall]
  | some f =>
    obtain ⟨front, t, -, -, hcarried, -, -, hstate⟩ := carryOut_of_some h
    rw [hstate, hcarried]

/-- Behind a fault nothing more is carried out. -/
theorem carryOut_append_of_some {e : Emulator π} {ds : List Deadline} {f : Fault}
    (h : (e.carryOut ds).result.2 = some f) (es : List Deadline) :
    e.carryOut (ds ++ es) = e.carryOut ds := by
  induction ds generalizing e with
  | nil => simp [carryOut] at h
  | cons d ds ih =>
    cases hd : (e.act d.activity).result with
    | some g => rw [List.cons_append, carryOut_cons_of_fault _ hd, carryOut_cons_of_fault _ hd]
    | none =>
      rw [carryOut_cons ds hd] at h
      rw [List.cons_append, carryOut_cons _ hd, carryOut_cons _ hd, ih h]

/-- What comes before something that was carried out was carried out without a fault. -/
theorem carryOut_front_of_complete {e : Emulator π} {front rest : List Deadline} {d : Deadline}
    (h : (e.carryOut (front ++ d :: rest)).result.1 = front ++ d :: rest) :
    (e.carryOut front).result.2 = none := by
  cases hfault : (e.carryOut front).result.2 with
  | none => rfl
  | some f =>
    obtain ⟨before, t, after, hfront, hcarried, -⟩ := carryOut_of_some hfault
    -- a fault in front would have ended the whole list there
    rw [carryOut_append_of_some hfault, hcarried, hfront] at h
    have hlength := congrArg List.length h
    simp only [List.length_append, List.length_cons, List.length_nil] at hlength
    omega

/-- Without a fault the rest of a longer list follows. -/
theorem carryOut_append_of_none {e : Emulator π} {ds : List Deadline}
    (h : (e.carryOut ds).result.2 = none) (es : List Deadline) :
    e.carryOut (ds ++ es)
      = ⟨(ds ++ ((e.carryOut ds).state.carryOut es).result.1,
            ((e.carryOut ds).state.carryOut es).result.2),
          ((e.carryOut ds).state.carryOut es).state,
          (e.carryOut ds).events ++ ((e.carryOut ds).state.carryOut es).events⟩ := by
  induction ds generalizing e with
  | nil => rfl
  | cons d ds ih =>
    cases hd : (e.act d.activity).result with
    | some g => rw [carryOut_cons_of_fault ds hd] at h; simp at h
    | none =>
      rw [carryOut_cons ds hd] at h
      rw [List.cons_append, carryOut_cons _ hd, carryOut_cons _ hd, ih h]
      simp only [List.cons_append, List.append_assoc]

end Emulator

/-! ## 2. The agenda -/

theorem Clock.one_le_periodOf (c : Clock) (a : Activity) : 1 ≤ (c.periodOf a).nanos := by
  cases a <;> exact Clock.one_le_period _

theorem Clock.periodOf_le_second (c : Clock) (a : Activity) :
    (c.periodOf a).nanos ≤ 1000000000 := by
  cases a <;> exact Clock.period_le_second _

namespace Progress

/-- Which activity is first, and what that says about the two deadlines. -/
theorem first_cases (p : Progress) :
    (p.first = .timer ∧ p.nextTimer.nanos ≤ p.nextCycle.nanos) ∨
      (p.first = .cycle ∧ p.nextCycle.nanos < p.nextTimer.nanos) := by
  unfold first
  split
  · rename_i h
    exact .inl ⟨rfl, h⟩
  · rename_i h
    exact .inr ⟨rfl, Nat.lt_of_not_le h⟩

theorem due_eq_some_iff {p : Progress} {a : Activity} :
    p.due = some a ↔ p.first = a ∧ (p.deadline a).nanos < p.elapsed.nanos := by
  unfold due
  split
  · rename_i h
    rw [Option.some.injEq]
    exact ⟨fun e => ⟨e, e ▸ h⟩, fun e => e.1⟩
  · rename_i h
    refine ⟨by simp, ?_⟩
    rintro ⟨rfl, hlt⟩
    exact absurd hlt h

theorem due_eq_none_iff {p : Progress} :
    p.due = none ↔ p.elapsed.nanos ≤ (p.deadline p.first).nanos := by
  unfold due
  split
  · rename_i h
    exact ⟨by simp, fun hle => absurd hle (Nat.not_le_of_lt h)⟩
  · rename_i h
    exact ⟨fun _ => Nat.le_of_not_lt h, fun _ => rfl⟩

/-- The progress when so much time has passed. -/
def reach (p : Progress) (elapsed : Duration) : Progress := { p with elapsed }

/-- The progress behind the next deadline of an activity. -/
def pass (c : Clock) (p : Progress) (a : Activity) : Progress :=
  p.rearm a ⟨(p.deadline a).nanos + (c.periodOf a).nanos⟩

/-- The progress behind a list of deadlines. -/
def passAll (c : Clock) (p : Progress) (ds : List Deadline) : Progress :=
  ds.foldl (fun q d => q.pass c d.activity) p

theorem backlog_pass_lt (c : Clock) {p : Progress} {a : Activity} (h : p.due = some a) :
    (p.pass c a).backlog < p.backlog := by
  have hp := c.one_le_periodOf a
  have hlater : (p.deadline a).nanos < (p.deadline a).nanos + (c.periodOf a).nanos := by omega
  exact backlog_rearm_lt h hlater

/-- The deadlines that lie before the time that has passed, in the order in which they are
taken. -/
def agenda (c : Clock) (p : Progress) : List Deadline :=
  match _h : p.due with
  | none => []
  | some a => ⟨(p.deadline a).nanos, a⟩ :: agenda c (p.pass c a)
termination_by p.backlog
decreasing_by exact backlog_pass_lt c _h

/-- The progress with all of the agenda behind it. -/
def settled (c : Clock) (p : Progress) : Progress := p.passAll c (p.agenda c)

@[simp] theorem elapsed_pass (c : Clock) (p : Progress) (a : Activity) :
    (p.pass c a).elapsed = p.elapsed := by
  cases a <;> rfl

@[simp] theorem elapsed_passAll (c : Clock) (p : Progress) (ds : List Deadline) :
    (p.passAll c ds).elapsed = p.elapsed := by
  induction ds generalizing p with
  | nil => rfl
  | cons d ds ih => exact (ih _).trans (elapsed_pass c p d.activity)

@[simp] theorem elapsed_settled (c : Clock) (p : Progress) :
    (p.settled c).elapsed = p.elapsed := elapsed_passAll c p _

theorem reach_pass (c : Clock) (p : Progress) (a : Activity) (E : Duration) :
    (p.reach E).pass c a = (p.pass c a).reach E := by
  cases a <;> rfl

theorem agenda_of_due_eq_none (c : Clock) {p : Progress} (h : p.due = none) :
    p.agenda c = [] := by
  rw [agenda]
  split
  · rfl
  · rename_i a ha
    exact absurd (h.symm.trans ha) (by simp)

theorem agenda_of_due (c : Clock) {p : Progress} {a : Activity} (h : p.due = some a) :
    p.agenda c = ⟨(p.deadline a).nanos, a⟩ :: (p.pass c a).agenda c := by
  rw [agenda]
  split
  · rename_i hn
    exact absurd (h.symm.trans hn) (by simp)
  · rename_i b hb
    obtain rfl : a = b := Option.some.inj (h.symm.trans hb)
    rfl

theorem settled_of_due_eq_none (c : Clock) {p : Progress} (h : p.due = none) :
    p.settled c = p := by
  rw [settled, agenda_of_due_eq_none c h, passAll, List.foldl_nil]

theorem settled_of_due (c : Clock) {p : Progress} {a : Activity} (h : p.due = some a) :
    p.settled c = (p.pass c a).settled c := by
  rw [settled, settled, agenda_of_due c h, passAll, passAll, List.foldl_cons]

/-- **Induction over what is due.**  A property of a progress follows if it holds when nothing is
due and goes over from the progress behind the next deadline. -/
theorem due_induction (c : Clock) {P : Progress → Prop} (hnone : ∀ p, p.due = none → P p)
    (hdue : ∀ p a, p.due = some a → P (p.pass c a) → P p) (p : Progress) : P p := by
  cases h : p.due with
  | none => exact hnone p h
  | some a => exact hdue p a h (due_induction c hnone hdue (p.pass c a))
termination_by p.backlog
decreasing_by exact backlog_pass_lt c h

/-- A settled progress has nothing due. -/
theorem due_settled (c : Clock) (p : Progress) : (p.settled c).due = none := by
  induction p using due_induction c with
  | hnone p h => rw [settled_of_due_eq_none c h, h]
  | hdue p a h ih => rw [settled_of_due c h, ih]

/-- A deadline that is due is followed by another that is in range. -/
theorem add?_of_due (c : Clock) {p : Progress} {a : Activity} (h : p.due = some a)
    (hp : p.elapsed.nanos + 1000000000 ≤ Duration.longest.nanos) :
    (p.deadline a).add? (c.periodOf a)
      = some ⟨(p.deadline a).nanos + (c.periodOf a).nanos⟩ := by
  have hlt := (due_eq_some_iff.mp h).2
  have hle := c.periodOf_le_second a
  rw [Duration.add?_eq_some_iff]
  exact ⟨by omega, rfl⟩

/-- What is due now is due next also when more time has passed. -/
theorem due_reach {p : Progress} {a : Activity} {E : Duration} (hE : p.elapsed ≤ E)
    (h : p.due = some a) : (p.reach E).due = some a := by
  obtain ⟨hfirst, hlt⟩ := due_eq_some_iff.mp h
  have hdeadline : (p.reach E).deadline a = p.deadline a := by cases a <;> rfl
  refine due_eq_some_iff.mpr ⟨hfirst, ?_⟩
  rw [hdeadline]
  exact Nat.lt_of_lt_of_le hlt hE

/-- The agenda when more time has passed begins with the agenda of now. -/
theorem agenda_reach (c : Clock) {p : Progress} {E : Duration} (hE : p.elapsed ≤ E) :
    (p.reach E).agenda c = p.agenda c ++ ((p.settled c).reach E).agenda c := by
  induction p using due_induction c with
  | hnone p h => rw [agenda_of_due_eq_none c h, settled_of_due_eq_none c h, List.nil_append]
  | hdue p a h ih =>
    rw [agenda_of_due c (due_reach hE h), agenda_of_due c h, settled_of_due c h, reach_pass,
      ih (by rwa [elapsed_pass]), List.cons_append]
    cases a <;> rfl

theorem settled_reach (c : Clock) {p : Progress} {E : Duration} (hE : p.elapsed ≤ E) :
    (p.reach E).settled c = ((p.settled c).reach E).settled c := by
  induction p using due_induction c with
  | hnone p h => rw [settled_of_due_eq_none c h]
  | hdue p a h ih =>
    rw [settled_of_due c (due_reach hE h), settled_of_due c h, reach_pass,
      ih (by rwa [elapsed_pass])]

/-- What is taken until `E` nanoseconds have passed. -/
def agendaUntil (c : Clock) (p : Progress) (E : Nat) : List Deadline := (p.reach ⟨E⟩).agenda c

/-- The progress when `E` nanoseconds have passed and all that is due has been taken. -/
def settledAt (c : Clock) (p : Progress) (E : Nat) : Progress := (p.reach ⟨E⟩).settled c

@[simp] theorem elapsed_settledAt (c : Clock) (p : Progress) (E : Nat) :
    (p.settledAt c E).elapsed = ⟨E⟩ := elapsed_settled c (p.reach ⟨E⟩)

theorem due_settledAt (c : Clock) (p : Progress) (E : Nat) : (p.settledAt c E).due = none :=
  due_settled c (p.reach ⟨E⟩)

/-- **An agenda can be cut at any time.** -/
theorem agendaUntil_eq_append (c : Clock) (p : Progress) {E F : Nat} (h : E ≤ F) :
    p.agendaUntil c F = p.agendaUntil c E ++ (p.settledAt c E).agendaUntil c F :=
  agenda_reach c (p := p.reach ⟨E⟩) (Duration.le_def.mpr h)

theorem settledAt_settledAt (c : Clock) (p : Progress) {E F : Nat} (h : E ≤ F) :
    (p.settledAt c E).settledAt c F = p.settledAt c F :=
  (settled_reach c (p := p.reach ⟨E⟩) (Duration.le_def.mpr h)).symm

/-- Where nothing is due, nothing is taken before more time has passed. -/
theorem agendaUntil_of_due_eq_none (c : Clock) {p : Progress} (h : p.due = none) :
    p.agendaUntil c p.elapsed.nanos = [] := agenda_of_due_eq_none c h

theorem settledAt_of_due_eq_none (c : Clock) {p : Progress} (h : p.due = none) :
    p.settledAt c p.elapsed.nanos = p := settled_of_due_eq_none c h

end Progress

/-! ## 3. Firing carries out the agenda -/

/-- How often each activity is in a list of deadlines. -/
def Tally.of (ds : List Deadline) : Tally :=
  ⟨ds.countP fun d => d.activity = .cycle, ds.countP fun d => d.activity = .timer⟩

instance : Add Tally := ⟨fun t u => ⟨t.cycles + u.cycles, t.timers + u.timers⟩⟩

theorem Tally.add_def (t u : Tally) : t + u = ⟨t.cycles + u.cycles, t.timers + u.timers⟩ := rfl

@[simp] theorem Tally.zero_add (t : Tally) : ({} : Tally) + t = t :=
  Tally.ext (Nat.zero_add _) (Nat.zero_add _)

theorem Tally.of_append (ds es : List Deadline) :
    Tally.of (ds ++ es) = Tally.of ds + Tally.of es := by
  rw [of, List.countP_append, List.countP_append]
  rfl

/-- A tally with a list of deadlines counted one by one. -/
def Tally.countAll (t : Tally) (ds : List Deadline) : Tally :=
  ds.foldl (fun t d => t.count d.activity) t

theorem Tally.countAll_eq (t : Tally) (ds : List Deadline) : t.countAll ds = t + Tally.of ds := by
  induction ds generalizing t with
  | nil => rfl
  | cons d ds ih =>
    obtain ⟨u, a⟩ := d
    rw [countAll, List.foldl_cons, ← countAll, ih]
    cases a <;> simp [count, of, add_def] <;> omega

/-- How a passage of time ends, given the fault that ended it, if any, and the tally. -/
def Passage.ofFault? (t : Tally) : Option Fault → Passage
  | some fault => .faulted fault
  | none => .ticked t

/-- How a passage ends a run, if it is not a tick. -/
def Passage.end? : Passage → Option Passage
  | .ticked _ => none
  | passage => some passage

theorem Passage.end?_eq_none_iff {p : Passage} : p.end? = none ↔ ∃ t, p = .ticked t := by
  cases p <;> simp [end?]

theorem Passage.eq_of_end? {p q : Passage} (h : p.end? = some q) : p = q := by
  cases p with
  | ticked t => cases h
  | faulted f | overflowed => exact Option.some.inj h

namespace Firing

variable {π : Type} [Platform π]

/-- **The loop keeps what each turn keeps**, however it ends; an activity is carried out only when it
is due and, but for counting down, only when its next deadline is in range. -/
theorem run_invariant_of_due (c : Clock) {P : Firing π → Prop}
    (hnext : ∀ f a d, f.progress.due = some a →
      (f.progress.deadline a).add? (c.periodOf a) = some d → P f → P (f.next a d).1)
    (hcountDown : ∀ f, P f → P f.countDown) {f : Firing π} (hf : P f) : P (f.run c).1 := by
  fun_induction Firing.run f c with
  | case1 f hdue => exact hf
  | case2 f a hdue hsum =>
    cases a with
    | timer => exact hcountDown f hf
    | cycle => exact hf
  | case3 f a hdue d hsum after fault hfault => exact hnext f a d hdue hsum hf
  | case4 f a hdue d hsum after hok ih => exact ih (hnext f a d hdue hsum hf)

/-- The same, where counting down, running an instruction and moving a deadline keep `P` at any
time. -/
theorem run_invariant (c : Clock) {P : Firing π → Prop}
    (hcountDown : ∀ f, P f → P f.countDown) (htick : ∀ f, P f → P f.tick.1)
    (hrearm : ∀ f a d, P f → P (f.rearm a d)) {f : Firing π} (hf : P f) : P (f.run c).1 := by
  refine run_invariant_of_due c ?_ hcountDown hf
  intro f a d _ _ hf
  cases a with
  | timer => exact hrearm _ _ _ (hcountDown f hf)
  | cycle => exact htick _ (hrearm f _ _ hf)

/-- Why the loop ends: nothing is due any more, or the next deadline is out of range, or there was a
fault. -/
theorem run_ends (c : Clock) (f : Firing π) :
    match (f.run c).2 with
    | .ticked t => t = (f.run c).1.tally ∧ (f.run c).1.progress.due = none
    | .overflowed => ∃ a, (f.run c).1.progress.due = some a ∧
        ((f.run c).1.progress.deadline a).add? (c.periodOf a) = none
    | .faulted _ => True := by
  fun_induction Firing.run f c with
  | case1 f hdue => exact ⟨rfl, hdue⟩
  | case2 f a hdue hsum =>
    rw [progress_strand]
    exact ⟨a, hdue, hsum⟩
  | case3 f a hdue d hsum after fault hfault => trivial
  | case4 f a hdue d hsum after hok ih => exact ih

theorem elapsed_run (c : Clock) (f : Firing π) :
    (f.run c).1.progress.elapsed = f.progress.elapsed := by
  refine run_invariant c (P := fun g : Firing π => g.progress.elapsed = f.progress.elapsed)
    (fun _ => id) (fun _ => id) ?_ rfl
  rintro g (_ | _) d hg <;> exact hg

/-- The firing with time to go until `E`. -/
def reach (f : Firing π) (E : Duration) : Firing π := { f with progress := f.progress.reach E }

theorem next_reach (f : Firing π) (E : Duration) (a : Activity) (d : Duration) :
    (f.reach E).next a d = ((f.next a d).1.reach E, (f.next a d).2) := by
  cases a <;> rfl

omit [Platform π] in
theorem strand_reach (f : Firing π) (E : Duration) (a : Activity) :
    (f.reach E).strand a = (f.strand a).reach E := by
  cases a <;> rfl

/-- How a loop that has come to `left` goes on with time to go until `E`; one that has come to an
end does not go on. -/
def resume (c : Clock) (E : Duration) (left : Firing π × Passage) : Firing π × Passage :=
  match left.2.end? with
  | none => (left.1.reach E).run c
  | some passage => (left.1.reach E, passage)

theorem resume_of_none {c : Clock} {E : Duration} {left : Firing π × Passage}
    (h : left.2.end? = none) : resume c E left = (left.1.reach E).run c := by
  simp only [resume, h]

theorem resume_of_some {c : Clock} {E : Duration} {left : Firing π × Passage} {p : Passage}
    (h : left.2.end? = some p) : resume c E left = (left.1.reach E, p) := by
  simp only [resume, h]

/-- **A loop can be cut at any time.**  With more time to go it first does what it does with less,
and goes on from there. -/
theorem run_reach (c : Clock) {f : Firing π} {E : Duration} (hE : f.progress.elapsed ≤ E) :
    (f.reach E).run c = resume c E (f.run c) := by
  have hdeadline : ∀ f : Firing π, ∀ a,
      (f.reach E).progress.deadline a = f.progress.deadline a := by
    rintro f (_ | _) <;> rfl
  fun_induction Firing.run f c with
  | case1 f hdue => rfl
  | case2 f a hdue hsum =>
    have hdue' : (f.reach E).progress.due = some a := Progress.due_reach hE hdue
    rw [← hdeadline] at hsum
    rw [run_of_add?_eq_none hdue' hsum, strand_reach]
    rfl
  | case3 f a hdue d hsum after fault hfault =>
    have hdue' : (f.reach E).progress.due = some a := Progress.due_reach hE hdue
    have hfault' : (f.next a d).2 = some fault := hfault
    rw [← hdeadline] at hsum
    rw [run_of_due hdue' hsum, next_reach, hfault']
    rfl
  | case4 f a hdue d hsum after hok ih =>
    have hdue' : (f.reach E).progress.due = some a := Progress.due_reach hE hdue
    have hok' : (f.next a d).2 = none := hok
    have helapsed : after.1.progress.elapsed = f.progress.elapsed := by cases a <;> rfl
    rw [← hdeadline] at hsum
    rw [run_of_due hdue' hsum, next_reach, hok']
    exact ih (helapsed ▸ hE)

theorem events_append_append (es : Array Event) (fs gs : List Event) :
    es ++ fs ++ gs = es ++ (fs ++ gs) :=
  Array.ext' (by simp)

/-- A firing after the deadlines that were carried out. -/
def after (f : Firing π) (c : Clock) (out : Step (Emulator π) (List Deadline × Option Fault)) :
    Firing π where
  progress := f.progress.passAll c out.result.1
  emulator := out.state
  tally := f.tally.countAll out.result.1
  events := f.events ++ out.events

/-- **Firing carries out the agenda**, up to the first fault. -/
theorem run_eq (c : Clock) {p : Progress}
    (hp : p.elapsed.nanos + 1000000000 ≤ Duration.longest.nanos) (f : Firing π)
    (hf : f.progress = p) :
    f.run c = (f.after c (f.emulator.carryOut (p.agenda c)),
      .ofFault? (f.after c (f.emulator.carryOut (p.agenda c))).tally
        (f.emulator.carryOut (p.agenda c)).result.2) := by
  induction p using Progress.due_induction c generalizing f with
  | hnone p h =>
    subst hf
    rw [run_of_due_eq_none h, Progress.agenda_of_due_eq_none c h]
    simp [Emulator.carryOut, after, Progress.passAll, Tally.countAll, Passage.ofFault?]
  | hdue p a h ih =>
    subst hf
    rw [run_of_due h (Progress.add?_of_due c h hp), Progress.agenda_of_due c h]
    cases hact : (f.emulator.act a).result with
    | some fault =>
      rw [Emulator.carryOut_cons_of_fault _ hact]
      simp [next_eq, hact, after, Progress.passAll, Tally.countAll, Passage.ofFault?, Progress.pass]
    | none =>
      rw [Emulator.carryOut_cons _ hact]
      have hnext := ih (by simpa using hp) (f.next a _).1 (by rw [next_eq]; rfl)
      simp only [next_eq, hact] at hnext ⊢
      rw [hnext]
      simp [after, Progress.passAll, Tally.countAll, Progress.pass, events_append_append]

end Firing

end Chip8
