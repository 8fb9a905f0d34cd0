/-
# Slices of time

A host lets time pass in slices of its own choosing.  How it cuts the time makes no difference: two
lists of slices with the same sum leave the same console behind, make the same calls to the platform
and end in the same way (`Indistinguishable`).

Both lists are compared with the agenda of the whole time, which knows nothing of slices:

* `advance_of_none` and `advance_of_some` say what one slice does in terms of its agenda;
* `advanceAll_of_none` and `advanceAll_of_some` say the same of a list of slices and the agenda of
  the sum, by `Progress.agendaUntil_eq_append`.

The notices of two such runs may differ in one point: the one that reports a scheduler stopped by a
fault tells the time that had passed, and that includes the rest of the slice.
-/
import Chip8.Proofs.Scheduler.Agenda

namespace Chip8

/-! ## 1. Tallies and results -/

/-- What was carried out in several passages of time. -/
def Tally.total : List Tally → Tally
  | [] => {}
  | t :: ts => t + Tally.total ts

/-- The passages of a run without a fault, in which so much was carried out. -/
def Passage.AllTicked (ps : List Passage) (t : Tally) : Prop :=
  ∃ ts : List Tally, ps = ts.map .ticked ∧ Tally.total ts = t

/-- The passages of a run that a fault ended: after it nothing is carried out any more. -/
def Passage.Halted (ps : List Passage) (f : Fault) : Prop :=
  ∃ (ts : List Tally) (n : Nat), ps = ts.map .ticked ++ .faulted f :: List.replicate n (.ticked {})

theorem Passage.not_mem_of_allTicked {ps : List Passage} {t : Tally} (h : AllTicked ps t)
    (f : Fault) : .faulted f ∉ ps := by
  obtain ⟨ts, rfl, -⟩ := h
  simp

/-- Only one fault is reported. -/
theorem Passage.mem_iff_of_halted {ps : List Passage} {f g : Fault} (h : Halted ps f) :
    .faulted g ∈ ps ↔ g = f := by
  obtain ⟨ts, n, rfl⟩ := h
  simp [List.mem_replicate]

/-! ## 2. One slice -/

/-- The emulator that a slice leaves, given what its loop came to: a fault silences the tone. -/
def Passage.leave {π : Type} [Platform π] (e : Emulator π) : Passage → Emulator π
  | .faulted _ => (e.tell false).state
  | _ => e

namespace Console

variable {π : Type} [Platform π]

/-- What a console carries out, in progress `p`, until `E` nanoseconds have passed. -/
def carriedUntil (c : Console π) (p : Progress) (E : Nat) :
    Step (Emulator π) (List Deadline × Option Fault) :=
  c.emulator.carryOut (p.agendaUntil c.scheduler.clock E)

/-- The console when `E` nanoseconds have passed without a fault. -/
def reached (c : Console π) (p : Progress) (E : Nat) : Console π :=
  ⟨{ c.scheduler with progress := some (p.settledAt c.scheduler.clock E) },
    (c.carriedUntil p E).state⟩

/-- The console that a fault has stopped before `E` nanoseconds had passed. -/
def halted (c : Console π) (p : Progress) (E : Nat) : Console π :=
  ⟨c.scheduler.stopped, ((c.carriedUntil p E).state.tell false).state⟩

theorem advance_idle {c : Console π} (h : c.scheduler.progress = none) (d : Duration) :
    c.advance d = ⟨.ticked {}, c, []⟩ := by
  simp only [advance, h]

/-- The firing with which a slice begins that ends when `E` has passed. -/
def firing (c : Console π) (p : Progress) (E : Duration) : Firing π :=
  ⟨p.reach E, c.emulator, {}, #[]⟩

/-- The console that a firing leaves without a fault. -/
def landed (c : Console π) (f : Firing π) : Console π :=
  ⟨{ c.scheduler with progress := some f.progress }, f.emulator⟩

/-- What a slice can come to, whatever the times are. -/
inductive Advance (c : Console π) (d : Duration) : Prop
  /-- The scheduler does not run. -/
  | idle (progress : c.scheduler.progress = none) (eq : c.advance d = ⟨.ticked {}, c, []⟩)
  /-- The time that has passed would be too long. -/
  | overlong (p : Progress) (progress : c.scheduler.progress = some p)
      (sum : p.elapsed.add? d = none) (eq : c.advance d = ⟨.overflowed, c, []⟩)
  /-- A fault stops the scheduler. -/
  | halted (p : Progress) (E : Duration) (f : Fault) (progress : c.scheduler.progress = some p)
      (sum : p.elapsed.add? d = some E)
      (run : ((c.firing p E).run c.scheduler.clock).2 = .faulted f)
      (eq : c.advance d
        = (let left := ((c.firing p E).run c.scheduler.clock).1
          ⟨.faulted f, (c.landed left).stop.state,
            left.events.toList ++ (c.landed left).stop.events⟩))
  /-- The scheduler goes on, or a deadline would be too late. -/
  | through (p : Progress) (E : Duration) (progress : c.scheduler.progress = some p)
      (sum : p.elapsed.add? d = some E)
      (run : ∀ f, ((c.firing p E).run c.scheduler.clock).2 ≠ .faulted f)
      (eq : c.advance d
        = (let left := (c.firing p E).run c.scheduler.clock
          ⟨left.2, c.landed left.1, left.1.events.toList⟩))

theorem advance_cases (c : Console π) (d : Duration) : c.Advance d := by
  cases hp : c.scheduler.progress with
  | none => exact .idle hp (advance_idle hp d)
  | some p =>
    cases hsum : p.elapsed.add? d with
    | none => exact .overlong p hp hsum (by simp only [advance, hp, hsum])
    | some E =>
      have hadvance : c.advance d
          = (let left := (c.firing p E).run c.scheduler.clock
            match left.2 with
            | .faulted f => ⟨.faulted f, (c.landed left.1).stop.state,
                left.1.events.toList ++ (c.landed left.1).stop.events⟩
            | passage => ⟨passage, c.landed left.1, left.1.events.toList⟩) := by
        simp only [advance, hp, hsum]
        rfl
      cases hrun : ((c.firing p E).run c.scheduler.clock).2 with
      | faulted f => exact .halted p E f hp hsum hrun (by simpa only [hrun] using hadvance)
      | ticked t | overflowed =>
        refine .through p E hp hsum (by simp [hrun]) ?_
        simpa only [hrun] using hadvance

/-- What a slice of a running scheduler comes to, in terms of its loop. -/
theorem advance_of_sum {c : Console π} {p : Progress} {d E : Duration}
    (hp : c.scheduler.progress = some p) (hsum : p.elapsed.add? d = some E) :
    let left := (c.firing p E).run c.scheduler.clock
    (c.advance d).result = left.2 ∧
      (c.advance d).state.emulator = left.2.leave left.1.emulator ∧
      (left.2.end? = none → (c.advance d).state = c.landed left.1) := by
  intro left
  have hcases := c.advance_cases d
  cases hcases with
  | idle hp' heq => exact absurd (hp.symm.trans hp') (by simp)
  | overlong p' hp' hsum' heq =>
    obtain rfl : p = p' := Option.some.inj (hp.symm.trans hp')
    exact absurd (hsum.symm.trans hsum') (by simp)
  | halted p' E' f hp' hsum' hrun heq =>
    obtain rfl : p = p' := Option.some.inj (hp.symm.trans hp')
    obtain rfl : E = E' := Option.some.inj (hsum.symm.trans hsum')
    have hleft : left.2 = .faulted f := hrun
    rw [heq, hleft]
    exact ⟨rfl, rfl, fun h => by cases h⟩
  | through p' E' hp' hsum' hrun heq =>
    obtain rfl : p = p' := Option.some.inj (hp.symm.trans hp')
    obtain rfl : E = E' := Option.some.inj (hsum.symm.trans hsum')
    have hleave : left.2.leave left.1.emulator = left.1.emulator := by
      cases hleft : left.2 with
      | faulted f => exact absurd hleft (hrun f)
      | ticked t | overflowed => rfl
    rw [heq, hleave]
    exact ⟨rfl, rfl, fun _ => rfl⟩

theorem clock_advance (c : Console π) (d : Duration) :
    (c.advance d).state.scheduler.clock = c.scheduler.clock := by
  have hcases := c.advance_cases d
  cases hcases with
  | idle hp heq | overlong p hp hsum heq => rw [heq]
  | halted p E f hp hsum hrun heq | through p E hp hsum hrun heq =>
    rw [heq]
    rfl

section Running

variable {c : Console π} {p : Progress} {d : Duration} {ds : List Duration} {f : Fault}

/-- **A slice carries out the agenda of its end**, and a fault stops the scheduler. -/
theorem advance_running (hp : c.scheduler.progress = some p)
    (hmax : p.elapsed.nanos + d.nanos + 1000000000 ≤ Duration.longest.nanos) :
    c.advance d
      = (let E := p.elapsed.nanos + d.nanos
        let out := c.carriedUntil p E
        let after := (p.reach ⟨E⟩).passAll c.scheduler.clock out.result.1
        let reached : Console π := ⟨{ c.scheduler with progress := some after }, out.state⟩
        match out.result.2 with
        | none => ⟨.ticked (Tally.of out.result.1), reached, out.events⟩
        | some f => ⟨.faulted f, reached.stop.state, out.events ++ reached.stop.events⟩) := by
  have hsum : p.elapsed.add? d = some ⟨p.elapsed.nanos + d.nanos⟩ := by
    rw [Duration.add?_eq_some_iff]
    exact ⟨by omega, rfl⟩
  have hrun : Firing.run (⟨p.reach ⟨p.elapsed.nanos + d.nanos⟩, c.emulator, {}, #[]⟩ : Firing π)
      c.scheduler.clock = _ := Firing.run_eq c.scheduler.clock hmax _ rfl
  unfold Progress.reach at hrun
  simp only [advance, hp, hsum, hrun]
  unfold carriedUntil Progress.agendaUntil Progress.reach
  generalize c.emulator.carryOut _ = out
  obtain ⟨⟨ds, fault⟩, e, events⟩ := out
  cases fault with
  | none => simp [Firing.after, Tally.countAll_eq, Passage.ofFault?]
  | some f => simp [Firing.after, Passage.ofFault?]

theorem advance_of_none (hp : c.scheduler.progress = some p)
    (hmax : p.elapsed.nanos + d.nanos + 1000000000 ≤ Duration.longest.nanos)
    (h : (c.carriedUntil p (p.elapsed.nanos + d.nanos)).result.2 = none) :
    c.advance d
      = ⟨.ticked (Tally.of (p.agendaUntil c.scheduler.clock (p.elapsed.nanos + d.nanos))),
          c.reached p (p.elapsed.nanos + d.nanos),
          (c.carriedUntil p (p.elapsed.nanos + d.nanos)).events⟩ := by
  have hall := (Emulator.carryOut_of_none h).1
  rw [advance_running hp hmax]
  simp only [h]
  unfold reached carriedUntil at *
  rw [hall]
  rfl

theorem advance_of_some (hp : c.scheduler.progress = some p)
    (hmax : p.elapsed.nanos + d.nanos + 1000000000 ≤ Duration.longest.nanos)
    (h : (c.carriedUntil p (p.elapsed.nanos + d.nanos)).result.2 = some f) :
    (c.advance d).result = .faulted f ∧
      (c.advance d).state = c.halted p (p.elapsed.nanos + d.nanos) ∧
      Event.calls (c.advance d).events
        = Event.calls (c.carriedUntil p (p.elapsed.nanos + d.nanos)).events ++ [.tone false] := by
  rw [advance_running hp hmax]
  simp only [h]
  simp [halted, stop, Scheduler.isRunning, Scheduler.stopped, Emulator.tell]

/-! ## 3. A list of slices

The induction is on the slices and goes over the progress in which the scheduler is: behind a slice
the progress is settled, and the rest of the agenda of the whole time is the agenda from there. -/

/-- A fault in a first slice is the end of the whole time. -/
theorem carriedUntil_of_some {E F : Nat} (hE : E ≤ F)
    (h : (c.carriedUntil p E).result.2 = some f) : c.carriedUntil p F = c.carriedUntil p E := by
  rw [carriedUntil, Progress.agendaUntil_eq_append _ p hE]
  exact Emulator.carryOut_append_of_some h _

/-- Behind a first slice without a fault the whole time goes on from where that slice ended. -/
theorem carriedUntil_of_none {E F : Nat} (hE : E ≤ F) (h : (c.carriedUntil p E).result.2 = none) :
    c.carriedUntil p F
      = (let later := (c.reached p E).carriedUntil (p.settledAt c.scheduler.clock E) F
        ⟨(p.agendaUntil c.scheduler.clock E ++ later.result.1, later.result.2), later.state,
          (c.carriedUntil p E).events ++ later.events⟩) := by
  rw [carriedUntil, Progress.agendaUntil_eq_append _ p hE]
  exact Emulator.carryOut_append_of_none h _

theorem reached_reached {E F : Nat} (hE : E ≤ F) (h : (c.carriedUntil p E).result.2 = none) :
    (c.reached p E).reached (p.settledAt c.scheduler.clock E) F = c.reached p F := by
  refine Console.ext ?_ (congrArg Step.state (carriedUntil_of_none hE h)).symm
  exact congrArg (fun q => { c.scheduler with progress := some q })
    (Progress.settledAt_settledAt c.scheduler.clock p hE)

theorem halted_reached {E F : Nat} (hE : E ≤ F) (h : (c.carriedUntil p E).result.2 = none) :
    (c.reached p E).halted (p.settledAt c.scheduler.clock E) F = c.halted p F := by
  have hstate := congrArg Step.state (carriedUntil_of_none hE h)
  rw [halted, halted, hstate]
  rfl

/-- A scheduler that does not run lets time pass in vain. -/
theorem advanceAll_idle (h : c.scheduler.progress = none) (ds : List Duration) :
    c.advanceAll ds = ⟨List.replicate ds.length (.ticked {}), c, []⟩ := by
  induction ds with
  | nil => rfl
  | cons d ds ih =>
    unfold advanceAll at ih ⊢
    rw [Step.iterate_cons, advance_idle h d, ih]
    rfl

/-- Behind a first slice without a fault the others go on from where it ended. -/
theorem advanceAll_cons_of_none (hp : c.scheduler.progress = some p)
    (hmax : p.elapsed.nanos + d.nanos + 1000000000 ≤ Duration.longest.nanos)
    (h : (c.carriedUntil p (p.elapsed.nanos + d.nanos)).result.2 = none) (ds : List Duration) :
    c.advanceAll (d :: ds)
      = (let E := p.elapsed.nanos + d.nanos
        let later := (c.reached p E).advanceAll ds
        ⟨.ticked (Tally.of (p.agendaUntil c.scheduler.clock E)) :: later.result, later.state,
          (c.carriedUntil p E).events ++ later.events⟩) := by
  rw [advanceAll, Step.iterate_cons, advance_of_none hp hmax h]
  rfl

/-- **Slices without a fault** carry out the agenda of their sum. -/
theorem advanceAll_of_none (hp : c.scheduler.progress = some p) (hds : ds = [] → p.due = none)
    (hmax : p.elapsed.nanos + Duration.total ds + 1000000000 ≤ Duration.longest.nanos)
    (h : (c.carriedUntil p (p.elapsed.nanos + Duration.total ds)).result.2 = none) :
    Passage.AllTicked (c.advanceAll ds).result
        (Tally.of (p.agendaUntil c.scheduler.clock (p.elapsed.nanos + Duration.total ds))) ∧
      (c.advanceAll ds).state = c.reached p (p.elapsed.nanos + Duration.total ds) ∧
      (c.advanceAll ds).events
        = (c.carriedUntil p (p.elapsed.nanos + Duration.total ds)).events := by
  induction ds generalizing c p with
  | nil =>
    have hnone := Progress.agendaUntil_of_due_eq_none c.scheduler.clock (hds rfl)
    have hsame := Progress.settledAt_of_due_eq_none c.scheduler.clock (hds rfl)
    rw [Duration.total_nil, Nat.add_zero, reached, carriedUntil, hnone, hsame, ← hp]
    exact ⟨⟨[], rfl, rfl⟩, rfl, rfl⟩
  | cons d ds ih =>
    rw [Duration.total_cons, ← Nat.add_assoc] at h hmax ⊢
    have hle := Nat.le_add_right (p.elapsed.nanos + d.nanos) (Duration.total ds)
    have h1 : (c.carriedUntil p (p.elapsed.nanos + d.nanos)).result.2 = none := by
      cases h1 : (c.carriedUntil p (p.elapsed.nanos + d.nanos)).result.2 with
      | none => rfl
      | some f => rw [carriedUntil_of_some hle h1, h1] at h; exact h
    rw [advanceAll_cons_of_none hp (by omega) h1]
    generalize p.elapsed.nanos + d.nanos = E at *
    have hwhole := carriedUntil_of_none hle h1
    have hq : (p.settledAt c.scheduler.clock E).elapsed.nanos = E := by simp
    have hlater : ((c.reached p E).carriedUntil (p.settledAt c.scheduler.clock E)
        (E + Duration.total ds)).result.2 = none := by rw [hwhole] at h; exact h
    obtain ⟨⟨ts, hres, htotal⟩, hstate, hevents⟩ := ih (c := c.reached p E) rfl
      (fun _ => Progress.due_settled _ _) (by rw [hq]; exact hmax) (by rw [hq]; exact hlater)
    rw [hq] at htotal hstate hevents
    refine ⟨⟨Tally.of (p.agendaUntil c.scheduler.clock E) :: ts, ?_, ?_⟩, ?_, ?_⟩
    · exact congrArg (_ :: ·) hres
    · rw [Progress.agendaUntil_eq_append c.scheduler.clock p hle, Tally.of_append]
      exact congrArg (_ + ·) htotal
    · exact hstate.trans (reached_reached hle h1)
    · rw [hwhole]
      exact congrArg (_ ++ ·) hevents

/-- **Slices of which one ends in a fault** carry out the agenda of their sum up to that fault, and
nothing after it. -/
theorem advanceAll_of_some (hp : c.scheduler.progress = some p) (hds : ds = [] → p.due = none)
    (hmax : p.elapsed.nanos + Duration.total ds + 1000000000 ≤ Duration.longest.nanos)
    (h : (c.carriedUntil p (p.elapsed.nanos + Duration.total ds)).result.2 = some f) :
    Passage.Halted (c.advanceAll ds).result f ∧
      (c.advanceAll ds).state = c.halted p (p.elapsed.nanos + Duration.total ds) ∧
      Event.calls (c.advanceAll ds).events
        = Event.calls (c.carriedUntil p (p.elapsed.nanos + Duration.total ds)).events
          ++ [.tone false] := by
  induction ds generalizing c p with
  | nil =>
    rw [Duration.total_nil, Nat.add_zero, carriedUntil,
      Progress.agendaUntil_of_due_eq_none c.scheduler.clock (hds rfl)] at h
    simp [Emulator.carryOut] at h
  | cons d ds ih =>
    rw [Duration.total_cons, ← Nat.add_assoc] at h hmax ⊢
    have hle := Nat.le_add_right (p.elapsed.nanos + d.nanos) (Duration.total ds)
    cases h1 : (c.carriedUntil p (p.elapsed.nanos + d.nanos)).result.2 with
    | some g =>
      -- the fault falls into this slice, and the scheduler is idle for the others
      obtain ⟨hres, hstate, hcalls⟩ := advance_of_some hp (by omega) h1
      have hsame := carriedUntil_of_some hle h1
      obtain rfl : g = f := by rw [hsame, h1] at h; exact Option.some.inj h
      have hidle := advanceAll_idle (c := (c.advance d).state) (by rw [hstate]; rfl) ds
      unfold advanceAll at hidle ⊢
      rw [Step.iterate_cons, hidle, hres]
      refine ⟨⟨[], ds.length, rfl⟩, ?_, ?_⟩
      · rw [hstate, halted, halted, hsame]
      · rw [hsame, List.append_nil]
        exact hcalls
    | none =>
      rw [advanceAll_cons_of_none hp (by omega) h1]
      generalize p.elapsed.nanos + d.nanos = E at *
      have hwhole := carriedUntil_of_none hle h1
      have hq : (p.settledAt c.scheduler.clock E).elapsed.nanos = E := by simp
      have hlater : ((c.reached p E).carriedUntil (p.settledAt c.scheduler.clock E)
          (E + Duration.total ds)).result.2 = some f := by rw [hwhole] at h; exact h
      obtain ⟨⟨ts, n, hres⟩, hstate, hcalls⟩ := ih (c := c.reached p E) rfl
        (fun _ => Progress.due_settled _ _) (by rw [hq]; exact hmax) (by rw [hq]; exact hlater)
      rw [hq] at hstate hcalls
      refine ⟨⟨Tally.of (p.agendaUntil c.scheduler.clock E) :: ts, n, ?_⟩, ?_, ?_⟩
      · exact congrArg (_ :: ·) hres
      · exact hstate.trans (halted_reached hle h1)
      · rw [hwhole, Event.calls_append, Event.calls_append, List.append_assoc]
        exact congrArg (_ ++ ·) hcalls

end Running

/-! ## 4. Two ways to cut the same time -/

/-- Nothing that a host or a platform sees tells two runs apart: they leave the same console, they
make the same calls, and they end in the same way. -/
structure Indistinguishable (a b : Step (Console π) (List Passage)) : Prop where
  state : a.state = b.state
  calls : Event.calls a.events = Event.calls b.events
  /-- Either both carried out the same number of activities, or the same fault ended both. -/
  ending : (∃ t, Passage.AllTicked a.result t ∧ Passage.AllTicked b.result t) ∨
    ∃ f, Passage.Halted a.result f ∧ Passage.Halted b.result f

theorem allTicked_replicate (n : Nat) :
    Passage.AllTicked (List.replicate n (.ticked {})) {} := by
  refine ⟨List.replicate n {}, by simp, ?_⟩
  induction n with
  | zero => rfl
  | succ n ih =>
    rw [List.replicate_succ, Tally.total, ih]
    rfl

/-- **How time is cut makes no difference.**  The scheduler may be idle or in any progress, also in
one that it never comes to; each list has a slice at least, because a slice of no length still
carries out what is due. -/
theorem indistinguishable_of_total_eq (c : Console π) {ds es : List Duration} (hds : ds ≠ [])
    (hes : es ≠ []) (hsum : Duration.total ds = Duration.total es)
    (hmax : c.scheduler.elapsed.nanos + Duration.total ds + 1000000000 ≤ Duration.longest.nanos) :
    Indistinguishable (c.advanceAll ds) (c.advanceAll es) := by
  cases hp : c.scheduler.progress with
  | none =>
    rw [advanceAll_idle hp, advanceAll_idle hp]
    exact ⟨rfl, rfl, .inl ⟨{}, allTicked_replicate _, allTicked_replicate _⟩⟩
  | some p =>
    have helapsed : c.scheduler.elapsed = p.elapsed := by rw [Scheduler.elapsed, hp]; rfl
    rw [helapsed] at hmax
    have hmax' := hsum ▸ hmax
    have hds' : ds = [] → p.due = none := fun h => absurd h hds
    have hes' : es = [] → p.due = none := fun h => absurd h hes
    cases h : (c.carriedUntil p (p.elapsed.nanos + Duration.total ds)).result.2 with
    | none =>
      obtain ⟨hd, hdstate, hdevents⟩ := advanceAll_of_none hp hds' hmax h
      obtain ⟨he, hestate, heevents⟩ := advanceAll_of_none hp hes' hmax' (hsum ▸ h)
      rw [← hsum] at he hestate heevents
      exact ⟨hdstate.trans hestate.symm, congrArg Event.calls (hdevents.trans heevents.symm),
        .inl ⟨_, hd, he⟩⟩
    | some f =>
      obtain ⟨hd, hdstate, hdcalls⟩ := advanceAll_of_some hp hds' hmax h
      obtain ⟨he, hestate, hecalls⟩ := advanceAll_of_some hp hes' hmax' (hsum ▸ h)
      rw [← hsum] at hestate hecalls
      exact ⟨hdstate.trans hestate.symm, hdcalls.trans hecalls.symm, .inr ⟨f, hd, he⟩⟩

/-- A blank machine faults at once, in the second of two slices and in the only one. -/
theorem indistinguishable_two_slices :
    let c := (Console.start ⟨.idle {}, Emulator.scripted []⟩).state
    [⟨0⟩, ⟨3⟩] ≠ ([] : List Duration) ∧ [⟨3⟩] ≠ ([] : List Duration) ∧
      Duration.total [⟨0⟩, ⟨3⟩] = Duration.total [⟨3⟩] ∧
      c.scheduler.elapsed.nanos + Duration.total [⟨0⟩, ⟨3⟩] + 1000000000
        ≤ Duration.longest.nanos ∧
      Indistinguishable (c.advanceAll [⟨0⟩, ⟨3⟩]) (c.advanceAll [⟨3⟩]) :=
  ⟨by simp, by simp, rfl, by decide,
    indistinguishable_of_total_eq _ (by simp) (by simp) rfl (by decide)⟩

end Console

end Chip8
