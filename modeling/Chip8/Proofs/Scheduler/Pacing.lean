/-
# The pace of a host

A host looks at its clock again and again.  Each time it lets the gap since the last look pass for
the console, but never more than a tenth of a second, and then takes the screen; a fault ends that.
This module compares such a run with a single slice of the time that was granted in all.

* `Host.gaps` are the gaps between the instants, and `Host.allowance` is what is granted of them.
* `Firing.core` is what the loop of the scheduler depends on: not its tally, not its events, and not
  the mark that taking the screen clears (`Firing.run_core`).
* `rounds_of_running` puts the rounds together: the loop can be cut where a round ends
  (`Firing.run_reach`), and what is cut off goes on from the same core.
* Behind a slice nothing is due that can still be carried out (`Console.Rested`).  So the deadlines
  that a round meets all lie in its own stretch of time, however late the host came back
  (`countP_fired`).
-/
import Chip8.Host.Round
import Chip8.Proofs.Machine.Effects
import Chip8.Proofs.Scheduler.Deadlines

namespace Chip8

/-! ## 1. Instants and gaps -/

namespace Host

/-- The gaps between the instants at which a host looks at its clock, all in nanoseconds; the first
gap is the one since `start`. -/
def gaps (start : Nat) : List Nat → List Duration
  | [] => []
  | now :: later => ⟨now - start⟩ :: gaps now later

/-- The time that is granted for some gaps: of each what there is, up to the longest gap. -/
def allowance (gs : List Duration) : Duration :=
  ⟨Duration.total (gs.map fun gap => ⟨min gap.nanos longestGap.nanos⟩)⟩

theorem granted_nanos (gap : Duration) :
    (granted gap).nanos = min gap.nanos longestGap.nanos := by
  unfold granted
  simp only [Duration.lt_def]
  split <;> omega

theorem allowance_nil : allowance [] = ⟨0⟩ := rfl

theorem allowance_cons (gap : Duration) (gs : List Duration) :
    (allowance (gap :: gs)).nanos = (granted gap).nanos + (allowance gs).nanos := by
  rw [granted_nanos]
  rfl

theorem allowance_le_total (gs : List Duration) : (allowance gs).nanos ≤ Duration.total gs := by
  induction gs with
  | nil => exact Nat.le_refl 0
  | cons gap gs ih =>
    rw [allowance_cons, Duration.total_cons]
    exact Nat.add_le_add (granted_le gap) ih

/-- A gap of a minute counts as a tenth of a second. -/
example : allowance [⟨16666666⟩, ⟨60000000000⟩] = ⟨116666666⟩ := rfl

/-- **Nothing is lost exactly if no gap is too long.** -/
theorem allowance_eq_total_iff (gs : List Duration) :
    (allowance gs).nanos = Duration.total gs ↔ ∀ gap ∈ gs, gap ≤ longestGap := by
  induction gs with
  | nil => simp [allowance_nil]
  | cons gap gs ih =>
    have hfirst := granted_nanos gap
    have hrest := allowance_le_total gs
    rw [allowance_cons, Duration.total_cons, List.forall_mem_cons, ← ih, Duration.le_def]
    omega

/-- The gaps add up to the time from the start to the last instant. -/
theorem total_gaps {start : Nat} {instants : List Nat}
    (h : (start :: instants).Pairwise (· ≤ ·)) :
    Duration.total (gaps start instants) = instants.getLastD start - start ∧
      start ≤ instants.getLastD start := by
  induction instants generalizing start with
  | nil => simp [gaps]
  | cons now later ih =>
    obtain ⟨hstart, hlater⟩ := List.pairwise_cons.mp h
    have hnow : start ≤ now := hstart now List.mem_cons_self
    obtain ⟨htotal, hlast⟩ := ih hlater
    rw [gaps, Duration.total_cons, htotal, List.getLastD_cons]
    simp only
    omega

end Host

/-! ## 2. Rounds -/

namespace Console

variable {π : Type} [Platform π]

/-- The rounds of a host over some gaps, up to the first that does not end with a tick. -/
def rounds (c : Console π) : List Duration → Step (Console π) (List (Passage × Option Screen))
  | [] => ⟨[], c, []⟩
  | gap :: gs =>
    let first := c.round gap
    match first.result.1 with
    | .ticked _ =>
      let later := rounds first.state gs
      ⟨first.result :: later.result, later.state, first.events ++ later.events⟩
    | _ => ⟨[first.result], first.state, first.events⟩

/-- A round is a slice, and the screen taken after it makes no difference to anything but the
mark. -/
theorem round_eq (c : Console π) (gap : Duration) :
    (c.round gap).result.1 = (c.advance (Host.granted gap)).result ∧
      (c.round gap).state.scheduler = (c.advance (Host.granted gap)).state.scheduler ∧
      (c.round gap).state.emulator.unmarked
        = (c.advance (Host.granted gap)).state.emulator.unmarked := by
  have hpass : (c.pass gap).result = (c.advance (Host.granted gap)).result := rfl
  unfold round
  cases hresult : (c.pass gap).result with
  | ticked t | faulted f | overflowed =>
    simp only [hresult]
    exact ⟨hresult.symm.trans hpass, rfl, rfl⟩

variable {c : Console π} {gap : Duration} {gs : List Duration}

theorem rounds_cons_of_ticked (h : (c.round gap).result.1.end? = none) :
    c.rounds (gap :: gs)
      = (let later := (c.round gap).state.rounds gs
        ⟨(c.round gap).result :: later.result, later.state,
          (c.round gap).events ++ later.events⟩) := by
  obtain ⟨t, ht⟩ := Passage.end?_eq_none_iff.mp h
  rw [rounds]
  simp only [ht]

theorem rounds_cons_of_end {p : Passage} (h : (c.round gap).result.1.end? = some p) :
    c.rounds (gap :: gs) = ⟨[(c.round gap).result], (c.round gap).state, (c.round gap).events⟩ := by
  rw [rounds]
  cases hresult : (c.round gap).result.1 with
  | ticked t => rw [hresult] at h; cases h
  | faulted f | overflowed => rfl

end Console

/-! ## 3. What a loop depends on -/

namespace Firing

variable {π : Type} [Platform π] {f f' : Firing π}

/-- A firing without its tally, its events and the mark of its machine. -/
def core (f : Firing π) : Progress × Emulator π := (f.progress, f.emulator.unmarked)

theorem core_next (h : f.core = f'.core) (a : Activity) (d : Duration) :
    (f.next a d).1.core = (f'.next a d).1.core ∧ (f.next a d).2 = (f'.next a d).2 := by
  obtain ⟨hprogress, hemulator⟩ := Prod.mk.inj h
  have hact := Emulator.act_of_unmarked_eq hemulator a
  have hrearm := congrArg (fun p : Progress => p.rearm a d) hprogress
  have hstate := congrArg Step.state hact
  have hresult := congrArg Step.result hact
  rw [next_eq, next_eq]
  exact ⟨Prod.ext hrearm hstate, hresult⟩

theorem core_strand (h : f.core = f'.core) (a : Activity) :
    (f.strand a).core = (f'.strand a).core := by
  obtain ⟨hprogress, hemulator⟩ := Prod.mk.inj h
  cases a with
  | cycle => exact h
  | timer =>
    have hact := Emulator.act_of_unmarked_eq hemulator .timer
    exact Prod.ext hprogress (congrArg Step.state hact)

/-- **Loops with the same core** end in the same way and with the same core. -/
theorem run_core (c : Clock) (f : Firing π) : ∀ f' : Firing π, f.core = f'.core →
    (f.run c).1.core = (f'.run c).1.core ∧ (f.run c).2.end? = (f'.run c).2.end? := by
  have hprogress : ∀ {f f' : Firing π}, f.core = f'.core → f.progress = f'.progress :=
    fun h => congrArg Prod.fst h
  fun_induction Firing.run f c with
  | case1 f hdue =>
    intro f' h
    rw [hprogress h] at hdue
    rw [run_of_due_eq_none hdue]
    exact ⟨h, rfl⟩
  | case2 f a hdue hsum =>
    intro f' h
    rw [hprogress h] at hdue hsum
    rw [run_of_add?_eq_none hdue hsum]
    exact ⟨core_strand h a, rfl⟩
  | case3 f a hdue d hsum after fault hfault =>
    intro f' h
    obtain ⟨hcore, hresult⟩ := core_next h a d
    rw [hprogress h] at hdue hsum
    rw [run_of_due hdue hsum, ← hresult, hfault]
    exact ⟨hcore, rfl⟩
  | case4 f a hdue d hsum after hok ih =>
    intro f' h
    obtain ⟨hcore, hresult⟩ := core_next h a d
    rw [hprogress h] at hdue hsum
    rw [run_of_due hdue hsum, ← hresult, hok]
    exact ih _ hcore

end Firing

/-! ## 4. Rounds and a single slice -/

namespace Console

variable {π : Type} [Platform π]

theorem unmarked_leave {e e' : Emulator π} {p p' : Passage} (he : e.unmarked = e'.unmarked)
    (hp : p.end? = p'.end?) : (p.leave e).unmarked = (p'.leave e').unmarked := by
  have htell : (e.tell false).state.unmarked = (e'.tell false).state.unmarked :=
    congrArg (fun e : Emulator π => (e.tell false).state) he
  cases p <;> cases p' <;> first | exact he | exact htell | cases hp

/-- Where a round that ended with a tick leaves the console. -/
theorem round_of_ticked {c : Console π} {p : Progress} {gap E : Duration}
    (hp : c.scheduler.progress = some p) (hsum : p.elapsed.add? (Host.granted gap) = some E)
    (hend : ((c.firing p E).run c.scheduler.clock).2.end? = none) :
    let left := ((c.firing p E).run c.scheduler.clock).1
    (c.round gap).state.scheduler = { c.scheduler with progress := some left.progress } ∧
      (c.round gap).state.emulator.unmarked = left.emulator.unmarked ∧
      left.progress.due = none ∧ left.progress.elapsed = E := by
  intro left
  obtain ⟨t, ht⟩ := Passage.end?_eq_none_iff.mp hend
  obtain ⟨-, hscheduler, hemulator⟩ := c.round_eq gap
  have hlanded := (advance_of_sum hp hsum).2.2 hend
  rw [hlanded] at hscheduler hemulator
  have hends := Firing.run_ends c.scheduler.clock (c.firing p E)
  rw [ht] at hends
  exact ⟨hscheduler, hemulator, hends.2, Firing.elapsed_run _ _⟩

/-- **Rounds are a single slice of what was granted**, but for the mark.  The scheduler may be
anywhere between its deadlines. -/
theorem rounds_of_running {c : Console π} {p : Progress} {gs : List Duration}
    (hp : c.scheduler.progress = some p) (hdue : gs = [] → p.due = none)
    (hmax : p.elapsed.nanos + (Host.allowance gs).nanos ≤ Duration.longest.nanos) :
    let whole := (c.firing p ⟨p.elapsed.nanos + (Host.allowance gs).nanos⟩).run c.scheduler.clock
    (c.rounds gs).result.findSome? (fun x => x.1.end?) = whole.2.end? ∧
      (c.rounds gs).state.emulator.unmarked = (whole.2.leave whole.1.emulator).unmarked := by
  induction gs generalizing c p with
  | nil =>
    intro whole
    have hwhole : whole = (c.firing p p.elapsed, .ticked {}) :=
      Firing.run_of_due_eq_none (f := c.firing p p.elapsed) (hdue rfl)
    rw [hwhole]
    exact ⟨rfl, rfl⟩
  | cons gap gs ih =>
    rw [Host.allowance_cons, ← Nat.add_assoc] at hmax ⊢
    let E : Duration := ⟨p.elapsed.nanos + (Host.granted gap).nanos⟩
    let F : Duration := ⟨E.nanos + (Host.allowance gs).nanos⟩
    let first := (c.firing p E).run c.scheduler.clock
    intro whole
    have hsum : p.elapsed.add? (Host.granted gap) = some E :=
      Duration.add?_eq_some_iff.mpr ⟨Nat.le_of_add_right_le hmax, rfl⟩
    have hcut : whole = Firing.resume c.scheduler.clock F first :=
      Firing.run_reach c.scheduler.clock (f := c.firing p E) (E := F) (Nat.le_add_right ..)
    have hround : (c.round gap).result.1 = first.2 :=
      (c.round_eq gap).1.trans (advance_of_sum hp hsum).1
    cases hend : first.2.end? with
    | some passage =>
      -- the first round ends the run, and with it the single slice
      have hend' : (c.round gap).result.1.end? = some passage := (congrArg _ hround).trans hend
      have hpassage : first.2 = passage := Passage.eq_of_end? hend
      have hstate := (advance_of_sum hp hsum).2.1
      rw [rounds_cons_of_end hend', hcut, Firing.resume_of_some hend, ← hpassage]
      refine ⟨?_, ?_⟩
      · rw [List.findSome?_singleton]
        exact congrArg Passage.end? hround
      · rw [(c.round_eq gap).2.2, hstate]
        rfl
    | none =>
      -- the rest of the single slice has the same core as the rest of the rounds
      have hend' : (c.round gap).result.1.end? = none := (congrArg _ hround).trans hend
      obtain ⟨hscheduler, hemulator, hdue', helapsed⟩ := round_of_ticked hp hsum hend
      have hp' : (c.round gap).state.scheduler.progress = some first.1.progress := by
        rw [hscheduler]
      have hclock : (c.round gap).state.scheduler.clock = c.scheduler.clock := by rw [hscheduler]
      obtain ⟨hlater, hafter⟩ := ih hp' (fun _ => hdue') (by rw [helapsed]; exact hmax)
      rw [hclock, helapsed] at hlater hafter
      have hcore : ((c.round gap).state.firing first.1.progress F).core = (first.1.reach F).core :=
        Prod.ext rfl hemulator
      obtain ⟨hsame, hsameEnd⟩ := Firing.run_core c.scheduler.clock _ _ hcore
      have hsameEmulator := congrArg Prod.snd hsame
      rw [rounds_cons_of_ticked hend', hcut, Firing.resume_of_none hend]
      refine ⟨?_, hafter.trans (unmarked_leave hsameEmulator hsameEnd)⟩
      rw [List.findSome?_cons, hend']
      exact hlater.trans hsameEnd

/-- The same, after a start. -/
theorem rounds_start (c : Console π) {gs : List Duration} (h : Host.allowance gs ≤ .longest) :
    (c.start.state.rounds gs).result.findSome? (fun x => x.1.end?)
        = (c.start.state.advance (Host.allowance gs)).result.end? ∧
      (c.start.state.rounds gs).state.emulator.unmarked
        = (c.start.state.advance (Host.allowance gs)).state.emulator.unmarked := by
  have hmax : 0 + (Host.allowance gs).nanos ≤ Duration.longest.nanos := by
    rw [Nat.zero_add]
    exact h
  have hsum : Duration.zero.add? (Host.allowance gs) = some ⟨0 + (Host.allowance gs).nanos⟩ :=
    Duration.add?_eq_some_iff.mpr ⟨hmax, rfl⟩
  obtain ⟨hends, hemulator⟩ := rounds_of_running (c := c.start.state) rfl
    (fun _ => Progress.due_initial _) hmax
  obtain ⟨hresult, hstate, -⟩ :=
    advance_of_sum (c := c.start.state) (p := .initial c.scheduler.clock) rfl hsum
  rw [hresult, hstate]
  exact ⟨hends, hemulator⟩

/-! ## 5. Bursts -/

/-- Nothing is due that could still be carried out. -/
def Rested (c : Console π) : Prop :=
  ∀ p a, c.scheduler.progress = some p → p.due = some a →
    (p.deadline a).add? (c.scheduler.clock.periodOf a) = none

omit [Platform π] in
theorem rested_start (c : Console π) : c.start.state.Rested := by
  intro p a hp hdue
  obtain rfl : Progress.initial c.scheduler.clock = p := Option.some.inj hp
  exact absurd ((Progress.due_initial _).symm.trans hdue) (by simp)

/-- **A slice leaves nothing due.** -/
theorem rested_advance {c : Console π} (h : c.Rested) (d : Duration) :
    (c.advance d).state.Rested := by
  have hcases := c.advance_cases d
  cases hcases with
  | idle hp heq | overlong p hp hsum heq =>
    rw [heq]
    exact h
  | halted p E f hp hsum hrun heq =>
    rw [heq]
    intro q a hq
    cases hq
  | through p E hp hsum hrun heq =>
    have hends := Firing.run_ends c.scheduler.clock (c.firing p E)
    rw [heq]
    intro q a hq hdue
    obtain rfl : ((c.firing p E).run c.scheduler.clock).1.progress = q := Option.some.inj hq
    cases hpassage : ((c.firing p E).run c.scheduler.clock).2 with
    | faulted f => exact absurd hpassage (hrun f)
    | ticked t =>
      rw [hpassage] at hends
      exact absurd (hends.2.symm.trans hdue) (by simp)
    | overflowed =>
      rw [hpassage] at hends
      obtain ⟨b, hb, hnone⟩ := hends
      obtain rfl : a = b := Option.some.inj (hdue.symm.trans hb)
      exact hnone

theorem clock_round (c : Console π) (gap : Duration) :
    (c.round gap).state.scheduler.clock = c.scheduler.clock := by
  rw [(c.round_eq gap).2.1, clock_advance]

theorem rested_round {c : Console π} (h : c.Rested) (gap : Duration) :
    (c.round gap).state.Rested := by
  unfold Rested
  rw [(c.round_eq gap).2.1]
  exact rested_advance h _

/-- Rounds keep the clock and leave nothing due. -/
theorem rested_rounds {c : Console π} (h : c.Rested) (gs : List Duration) :
    (c.rounds gs).state.Rested ∧ (c.rounds gs).state.scheduler.clock = c.scheduler.clock := by
  induction gs generalizing c with
  | nil => exact ⟨h, rfl⟩
  | cons gap gs ih =>
    cases hend : (c.round gap).result.1.end? with
    | some passage =>
      rw [rounds_cons_of_end hend]
      exact ⟨rested_round h gap, clock_round c gap⟩
    | none =>
      rw [rounds_cons_of_ticked hend]
      obtain ⟨hrested, hclock⟩ := ih (rested_round h gap)
      exact ⟨hrested, hclock.trans (clock_round c gap)⟩

/-- **What a slice carries out lies in its own stretch of time**: of each activity as many as fit,
and one for a period that has only begun.  A timer whose next deadline is out of range is counted
down in every slice, so the stretch is a nanosecond at least. -/
theorem countP_fired {c : Console π} (h : c.Rested) {d D : Duration} (hd : d ≤ D)
    (hD : 1 ≤ D.nanos) (a : Activity) :
    (c.fired d).countP (fun x => x.activity = a)
      ≤ (D.nanos + (c.scheduler.clock.periodOf a).nanos - 1)
        / (c.scheduler.clock.periodOf a).nanos := by
  have hperiod := c.scheduler.clock.one_le_periodOf a
  cases hp : c.scheduler.progress with
  | none => simp [fired, hp]
  | some p =>
    cases hsum : p.elapsed.add? d with
    | none => simp [fired, hp, hsum]
    | some E =>
      have hE := (Duration.add?_eq_some_iff.mp hsum).2
      have hle : p.elapsed ≤ E := Duration.le_def.mpr (by omega)
      rw [fired_of_sum hp hsum]
      cases hdue : p.due with
      | some b =>
        have hnone := h p b hp hdue
        have hdue' : (c.firing p E).progress.due = some b := Progress.due_reach hle hdue
        have hdeadline : (c.firing p E).progress.deadline b = p.deadline b := by cases b <;> rfl
        have hlength : ((c.firing p E).stranded b).length ≤ 1 := by cases b <;> simp [Firing.stranded]
        rw [Firing.fired_of_add?_eq_none hdue' (hdeadline ▸ hnone)]
        refine Nat.le_trans (Nat.le_trans List.countP_le_length hlength) ?_
        exact Nat.div_pos (by omega) hperiod
      | none =>
        have hfront := (Firing.run_of_fired c.scheduler.clock (c.firing p E)).1
        have hpassed := Progress.elapsed_le_deadline hdue a
        have hdeadline : (p.reach E).deadline a = p.deadline a := by cases a <;> rfl
        have hagenda := Progress.countP_agenda c.scheduler.clock (p.reach E) a
        rw [hdeadline] at hagenda
        refine Nat.le_trans hfront.sublist.countP_le (Nat.le_trans (Nat.le_of_eq hagenda) ?_)
        refine Nat.div_le_div_right ?_
        have hgap : d.nanos ≤ D.nanos := hd
        show E.nanos - (p.deadline a).nanos + _ - 1 ≤ _
        omega

/-! ## 6. Any instants -/

/-- What the rounds of a host over some gaps come to; `passed` is the time between its first look at
the clock and its last. -/
structure Paced (c : Console π) (gs : List Duration) (passed : Nat) : Prop where
  /-- The rounds leave the emulator that a single slice of what was granted leaves, but for the mark
  that taking the screen clears, -/
  emulator : Host.allowance gs ≤ .longest →
    (c.rounds gs).state.emulator.unmarked
      = (c.advance (Host.allowance gs)).state.emulator.unmarked
  /-- and what ends them first, a fault or a time out of range, is what ends the single slice. -/
  ending : Host.allowance gs ≤ .longest →
    (c.rounds gs).result.findSome? (fun x => x.1.end?)
      = (c.advance (Host.allowance gs)).result.end?
  /-- No more is granted than has passed, -/
  behind : (Host.allowance gs).nanos ≤ passed
  /-- and all of it exactly if no gap is too long. -/
  level : (Host.allowance gs).nanos = passed ↔ ∀ gap ∈ gs, gap ≤ Host.longestGap
  /-- However late the host comes back, a round carries out no more cycles and no more timer ticks
  than begin in the longest gap, -/
  burst : ∀ front gap rest, gs = front ++ gap :: rest → ∀ a,
    (((c.rounds front).state.fired (Host.granted gap)).countP fun d => d.activity = a)
      ≤ (Host.longestGap.nanos + (c.scheduler.clock.periodOf a).nanos - 1)
        / (c.scheduler.clock.periodOf a).nanos
  /-- and what it carries out, timer ticks and instructions one after the other, is all that it does
  to the emulator, and what it counts. -/
  carried : ∀ front gap rest, gs = front ++ gap :: rest →
    let before := (c.rounds front).state
    let out := before.emulator.carryOut (before.fired (Host.granted gap))
    out.result.1 = before.fired (Host.granted gap) ∧
      out.state = before.emulator.afterAll (before.fired (Host.granted gap)) ∧
      (before.round gap).state.emulator.unmarked
        = ((before.round gap).result.1.leave out.state).unmarked ∧
      ∀ t, (before.round gap).result.1 = .ticked t → t = Tally.of out.result.1

/-- **The pace of a host**, from the start of a scheduler on, for any program, at any rates and at
any instants. -/
theorem paced_rounds (c : Console π) {start : Nat} {instants : List Nat}
    (h : (start :: instants).Pairwise (· ≤ ·)) :
    c.start.state.Paced (Host.gaps start instants) (instants.getLastD start - start) := by
  have htotal := (Host.total_gaps h).1
  refine ⟨fun hS => (c.rounds_start hS).2, fun hS => (c.rounds_start hS).1, ?_, ?_, ?_, ?_⟩
  · rw [← htotal]
    exact Host.allowance_le_total _
  · rw [← htotal]
    exact Host.allowance_eq_total_iff _
  · intro front gap rest _ a
    obtain ⟨hrested, hclock⟩ := rested_rounds c.rested_start front
    rw [← hclock]
    exact countP_fired hrested (Host.granted_le_longestGap gap) (by decide) a
  · intro front gap rest _ before out
    obtain ⟨-, hall, -, hstate, htally⟩ := before.traced (Host.granted gap)
    obtain ⟨hresult, -, hemulator⟩ := before.round_eq gap
    rw [hresult, hemulator, hstate]
    refine ⟨hall, ?_, rfl, fun t ht => ?_⟩
    · rw [Emulator.state_carryOut, hall]
    · rw [htally t ht]
      exact congrArg Tally.of hall.symm

/-- A host that comes back after a minute, with a program that jumps to itself. -/
theorem paced_rounds_stalled :
    let c : Console _ := ⟨.idle {}, ((Emulator.scripted []).load [0x12, 0x00]).state⟩
    let instants : List Nat := [16666666, 16666666, 60016666666, 60033333332]
    (0 :: instants).Pairwise (· ≤ ·) ∧
      Host.allowance (Host.gaps 0 instants) ≤ .longest ∧
      c.start.state.Paced (Host.gaps 0 instants) (instants.getLastD 0 - 0) :=
  ⟨by decide, by decide, paced_rounds _ (by decide)⟩

end Console

end Chip8
