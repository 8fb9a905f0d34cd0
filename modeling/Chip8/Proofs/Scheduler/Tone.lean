/-
# The log of the tone

A platform is told of the tone as a level, after every tick and whenever a scheduler stops; the
terminal logs the changes of that level only.  This module compares the two lists over any run of a
console on the terminal.

* `Tone.changes` are the changes in a list of levels.  They alternate (`changes_eq_map`), and there
  are as many as there are neighbours that differ (`length_changes`).
* `Heard` says that what was logged is the changes of what was told; `Heard.append` puts two
  stretches of a run together, `heard_obey` has every command, and the loop of the scheduler in it
  by `Firing.run_invariant`.
* A stopped scheduler has told the platform to be silent last, so what was switched on was switched
  off again (`count_changes`).
-/
import Mathlib.Data.List.Count
import Chip8.Proofs.Scheduler.Lifecycle

namespace Chip8

/-! ## 1. Levels and their changes -/

namespace Tone

/-- The levels that differ from the one before them; the first is compared with `now`. -/
def changes (now : Bool) : List Bool → List Bool
  | [] => []
  | on :: rest => if on = now then changes now rest else on :: changes on rest

/-- How many neighbours differ in a list of levels that begins with `now`. -/
def switches (now : Bool) (levels : List Bool) : Nat :=
  ((now :: levels).zip levels).countP fun pair => pair.1 ≠ pair.2

theorem changes_append (now : Bool) (ls ms : List Bool) :
    changes now (ls ++ ms) = changes now ls ++ changes (ls.getLastD now) ms := by
  induction ls generalizing now with
  | nil => rfl
  | cons on ls ih =>
    rw [List.cons_append, changes, changes, List.getLastD_cons]
    split
    · rename_i h
      rw [ih, h]
    · rw [ih, List.cons_append]

theorem length_changes (now : Bool) (levels : List Bool) :
    (changes now levels).length = switches now levels := by
  induction levels generalizing now with
  | nil => rfl
  | cons on levels ih =>
    rw [changes, switches, List.zip_cons_cons, List.countP_cons, ← switches, ← ih]
    split
    · rename_i h
      simp [h]
    · rename_i h
      have hne : now ≠ on := fun e => h e.symm
      simp [hne]

/-- **Changes alternate**, and the first leaves the level that was there before. -/
theorem changes_eq_map (now : Bool) (levels : List Bool) :
    changes now levels
      = (List.range (changes now levels).length).map fun k => if k % 2 = 0 then !now else now := by
  induction levels generalizing now with
  | nil => rfl
  | cons on levels ih =>
    rw [changes]
    split
    · exact ih now
    · rename_i h
      have hon : on = !now := Bool.eq_not.mpr h
      rw [List.length_cons, List.range_succ_eq_map, List.map_cons, List.map_map]
      refine List.cons_eq_cons.mpr ⟨hon, (ih on).trans ?_⟩
      refine List.map_congr_left fun k _ => ?_
      rw [hon]
      rcases Nat.mod_two_eq_zero_or_one k with hk | hk <;> simp [hk, Nat.add_mod]

example : changes false [false, true, true, false, true] = [true, false, true] := rfl

/-- **What is switched on is switched off again**, if the first level and the last are off. -/
theorem count_changes (now : Bool) (levels : List Bool) :
    (changes now levels).count true + now.toNat
      = (changes now levels).count false + (levels.getLastD now).toNat := by
  induction levels generalizing now with
  | nil => rfl
  | cons on levels ih =>
    have hrest := ih on
    rw [changes, List.getLastD_cons]
    split
    · rename_i h
      rwa [h] at hrest ⊢
    · rename_i h
      obtain rfl : on = !now := Bool.eq_not.mpr h
      cases now <;> simp at hrest ⊢ <;> omega

end Tone

/-! ## 2. What is told and what is logged -/

/-- The level that a call tells the platform, if it is about the tone. -/
def Call.tone? : Call → Option Bool
  | .tone on => some on
  | .random => none

/-- The tone that a notice reports to have been switched, if it does. -/
def Notice.tone? : Notice → Option Bool
  | .toneSwitched on => some on
  | _ => none

namespace Event

/-- The levels of the tone that the platform was told, in order. -/
def told (es : List Event) : List Bool := (calls es).filterMap Call.tone?

/-- The switchings of the tone that were reported, in order. -/
def switched (es : List Event) : List Bool := (notices es).filterMap Notice.tone?

/-- The messages of the terminal, in order. -/
def terminalLines (es : List Event) : List String :=
  ((notices es).filter fun n => n.source = .terminal).map Notice.message

/-- The line that reports the tone switched. -/
def toneLine (on : Bool) : String := if on then "tone on" else "tone off"

/-- Nothing but the tone is reported by the terminal. -/
theorem terminalLines_eq (es : List Event) : terminalLines es = (switched es).map toneLine := by
  unfold terminalLines switched
  induction notices es with
  | nil => rfl
  | cons n ns ih =>
    cases n with
    | toneSwitched on => exact congrArg (toneLine on :: ·) ih
    | _ => exact ih

theorem count_terminalLines (es : List Event) (on : Bool) :
    (terminalLines es).count (toneLine on) = (switched es).count on := by
  have hinjective : Function.Injective toneLine := by
    intro a b hab
    cases a <;> cases b <;> first | rfl | exact absurd hab (by decide)
  rw [terminalLines_eq, List.count_map_of_injective _ _ hinjective]

@[simp] theorem told_append (es fs : List Event) : told (es ++ fs) = told es ++ told fs := by
  rw [told, calls_append, List.filterMap_append]
  rfl

@[simp] theorem switched_append (es fs : List Event) :
    switched (es ++ fs) = switched es ++ switched fs := by
  rw [switched, notices, List.filterMap_append, List.filterMap_append]
  rfl

@[simp] theorem told_notices (ns : List Notice) : told (ns.map .notice) = [] := by
  rw [told, calls_notices]
  rfl

@[simp] theorem switched_notices (ns : List Notice) :
    switched (ns.map .notice) = ns.filterMap Notice.tone? :=
  congrArg (List.filterMap Notice.tone?) (notices_notices ns)

end Event

/-- What was logged in a stretch of a run is the changes of what was told in it.  The terminal
remembers `before` where the stretch begins, and `after` where it ends. -/
structure Heard (before : Bool) (es : List Event) (after : Bool) : Prop where
  logged : Event.switched es = Tone.changes before (Event.told es)
  latest : after = (Event.told es).getLastD before

namespace Heard

theorem silent {b : Bool} {es : List Event} (htold : Event.told es = [])
    (hswitched : Event.switched es = []) : Heard b es b :=
  ⟨by rw [htold, hswitched]; rfl, by rw [htold]; rfl⟩

/-- **Stretches of a run put together.** -/
theorem append {a b c : Bool} {es fs : List Event} (h : Heard a es b) (h' : Heard b fs c) :
    Heard a (es ++ fs) c := by
  obtain ⟨hlogged, rfl⟩ := h
  obtain ⟨hlogged', rfl⟩ := h'
  refine ⟨?_, ?_⟩
  · rw [Event.switched_append, Event.told_append, Tone.changes_append, hlogged, hlogged']
  · simp only [Event.told_append, List.getLastD_eq_getLast?, List.getLast?_append]
    cases (Event.told fs).getLast? <;> simp

/-- Reports that are not about the tone. -/
theorem quiet {b : Bool} {ns : List Notice} (h : ns.filterMap Notice.tone? = []) :
    Heard b (ns.map .notice) b :=
  silent (Event.told_notices ns) ((Event.switched_notices ns).trans h)

/-- A level is told, and logged if it is a change. -/
theorem tone (b on : Bool) :
    Heard b (.call (.tone on) :: (if b = on then [] else [.toneSwitched on]).map .notice) on := by
  cases b <;> cases on <;> exact ⟨rfl, rfl⟩

end Heard

/-! ## 3. Every command -/

namespace Machine

theorem tone?_announced (m : Machine) : m.announced.filterMap Notice.tone? = [] := by
  unfold announced
  cases m.instruction? with
  | none => rfl
  | some i =>
    refine List.filterMap_eq_nil_iff.mpr fun n hn => ?_
    rcases List.mem_cons.mp hn with rfl | hn
    · rfl
    · obtain ⟨address, -, rfl⟩ := List.mem_map.mp hn
      rfl

end Machine

theorem Outcome.tone?_notices (o : Outcome) : o.notices.filterMap Notice.tone? = [] := by
  unfold notices
  split <;> rfl

section Terminals

variable {γ : Type} [Generator γ]

/-- A random byte moves the generator and nothing else. -/
theorem Terminal.soundOn_snd_draw (t : Terminal γ) : (Platform.draw t).2.soundOn = t.soundOn := rfl

namespace Emulator

/-- **An instruction tells the level once**, after everything else it reports. -/
theorem heard_tick (e : Emulator (Terminal γ)) :
    Heard e.platform.soundOn e.tick.events e.tick.state.platform.soundOn := by
  let outcome := e.machine.step e.supply.1
  have hannounced : Heard e.platform.soundOn (e.machine.announced.map .notice)
      e.platform.soundOn := .quiet e.machine.tone?_announced
  have hdrawn : Heard e.platform.soundOn (if e.machine.needsRandom then [.call .random] else [])
      e.supply.2.soundOn := by
    unfold supply
    split
    · rw [Terminal.soundOn_snd_draw]
      exact .silent rfl rfl
    · exact .silent rfl rfl
  have hreported : Heard e.supply.2.soundOn (outcome.notices.map .notice) e.supply.2.soundOn :=
    .quiet outcome.tone?_notices
  have htone := Heard.tone e.supply.2.soundOn outcome.machine.sound.isActive
  exact ((hannounced.append hdrawn).append hreported).append htone

omit [Generator γ] in
theorem heard_countDown (e : Emulator (Terminal γ)) :
    Heard e.platform.soundOn e.countDown.events e.countDown.state.platform.soundOn :=
  .quiet (by split <;> rfl)

theorem heard_perform (e : Emulator (Terminal γ)) (op : Operation) :
    Heard e.platform.soundOn (e.perform op).events (e.perform op).state.platform.soundOn := by
  cases op with
  | tick => exact e.heard_tick
  | countDown => exact e.heard_countDown
  | setKey key down => exact .quiet (by split <;> rfl)
  | load program => exact .quiet (by unfold loadNotices; split <;> rfl)
  | reset | takeScreen => exact .silent rfl rfl

end Emulator

namespace Console

variable (c : Console (Terminal γ))

/-- What a firing has logged, whatever ends it. -/
theorem heard_firing (p : Progress) (E : Duration) :
    let left := ((c.firing p E).run c.scheduler.clock).1
    Heard c.emulator.platform.soundOn left.events.toList left.emulator.platform.soundOn := by
  let P (f : Firing (Terminal γ)) : Prop :=
    Heard c.emulator.platform.soundOn f.events.toList f.emulator.platform.soundOn
  have hcountDown : ∀ f, P f → P f.countDown := by
    intro f hf
    have hlater := hf.append f.emulator.heard_countDown
    simpa only [P, Firing.countDown, Array.toList_appendList] using hlater
  have htick : ∀ f, P f → P f.tick.1 := by
    intro f hf
    have hlater := hf.append f.emulator.heard_tick
    simpa only [P, Firing.tick, Array.toList_appendList] using hlater
  exact Firing.run_invariant _ (P := P) hcountDown htick (fun _ _ _ => id) (.silent rfl rfl)

theorem heard_stop :
    Heard c.emulator.platform.soundOn c.stop.events c.stop.state.emulator.platform.soundOn := by
  have hflag : Heard c.emulator.platform.soundOn
      (if c.scheduler.isRunning then [.notice (.stopped c.scheduler.elapsed)] else [])
      c.emulator.platform.soundOn := by
    split
    · exact .silent rfl rfl
    · exact .silent rfl rfl
  exact hflag.append (Heard.tone c.emulator.platform.soundOn false)

theorem heard_advance (d : Duration) :
    Heard c.emulator.platform.soundOn (c.advance d).events
      (c.advance d).state.emulator.platform.soundOn := by
  have hcases := c.advance_cases d
  cases hcases with
  | idle hp heq | overlong p hp hsum heq =>
    rw [heq]
    exact .silent rfl rfl
  | through p E hp hsum hrun heq =>
    rw [heq]
    exact c.heard_firing p E
  | halted p E f hp hsum hrun heq =>
    -- the tone call of the cycle that faulted is followed by the one of the stop
    rw [heq]
    exact (c.heard_firing p E).append
      (heard_stop (c.landed ((c.firing p E).run c.scheduler.clock).1))

/-- **What a command logs is the changes of what it tells.** -/
theorem heard_obey (cmd : Command) :
    Heard c.emulator.platform.soundOn (c.obey cmd).events
      (c.obey cmd).state.emulator.platform.soundOn := by
  cases cmd with
  | start => exact .silent rfl rfl
  | stop => exact c.heard_stop
  | advance d => exact c.heard_advance d
  | perform op => exact c.emulator.heard_perform op

theorem heard_obeyAll (cmds : List Command) :
    Heard c.emulator.platform.soundOn (c.obeyAll cmds).events
      (c.obeyAll cmds).state.emulator.platform.soundOn := by
  induction cmds generalizing c with
  | nil => exact .silent rfl rfl
  | cons cmd cmds ih => exact (c.heard_obey cmd).append (ih (c.obey cmd).state)

/-- **A stop leaves silence**, also the stop that a fault makes. -/
theorem soundOn_of_stops {x : Moment (Terminal γ)} (h : x.stops = true) :
    (x.state.obey x.input).state.emulator.platform.soundOn = false := by
  obtain ⟨c, cmd⟩ := x
  cases cmd with
  | start | perform op => cases h
  | stop => rfl
  | advance d =>
    have hfault : ((Reply.passed (c.advance d).result).fault?).isSome = true := h
    cases hresult : (c.advance d).result with
    | ticked t | overflowed =>
      rw [hresult] at hfault
      cases hfault
    | faulted f =>
      have heffect := (haltedBy_of_faulted hresult).effect
      exact congrArg (fun e : Emulator (Terminal γ) => e.platform.soundOn) heffect

/-! ## 4. Any list of commands -/

/-- What the log of a run says about the tone; `h` is what was done in the run. -/
structure Logged (run : Step (Console (Terminal γ)) (List Reply))
    (h : List (Moment (Terminal γ))) : Prop where
  /-- The messages of the terminal are in turn that the tone is on and that it is off, and there is
  one for each change in the levels that the platform was told, from silence on. -/
  lines : Event.terminalLines run.events
    = (List.range (Tone.switches false (Event.told run.events))).map fun k =>
        if k % 2 = 0 then "tone on" else "tone off"
  /-- The terminal remembers the level that it was told last, silence if none. -/
  latest : run.state.emulator.platform.soundOn = (Event.told run.events).getLast?.getD false
  /-- Where the run ends with a stop, by the host or by a fault, the tone was switched off as often
  as on. -/
  balanced : ∀ x, h.getLast? = some x → x.stops = true →
    (Event.terminalLines run.events).count "tone on"
      = (Event.terminalLines run.events).count "tone off"

/-- **The log of the tone** tells its changes and nothing else, over any list of commands to any
machine on a terminal, whatever its generator draws. -/
theorem logged_obeyAll (clock : Clock) (m : Machine) (generator : γ) (cmds : List Command) :
    let c : Console (Terminal γ) := ⟨.idle clock, ⟨m, .silent generator⟩⟩
    Logged (c.obeyAll cmds) (c.history cmds) := by
  intro c
  obtain ⟨hlogged, hlatest⟩ : Heard false (c.obeyAll cmds).events _ := c.heard_obeyAll cmds
  refine ⟨?_, ?_, ?_⟩
  · rw [Event.terminalLines_eq, hlogged, Tone.changes_eq_map, Tone.length_changes, List.map_map]
    refine List.map_congr_left fun k _ => ?_
    rw [Function.comp_apply, Event.toneLine]
    split <;> rfl
  · rw [hlatest, List.getLastD_eq_getLast?]
  · intro x hx hstops
    have hsilent : (c.obeyAll cmds).state.emulator.platform.soundOn = false := by
      induction cmds using List.reverseRecOn with
      | nil => rfl
      | append_singleton cmds cmd _ =>
        rw [history_concat, List.getLast?_concat, Option.some.injEq] at hx
        rw [state_obeyAll_concat]
        subst hx
        exact soundOn_of_stops hstops
    have hcount := Tone.count_changes false (Event.told (c.obeyAll cmds).events)
    rw [← hlatest, hsilent, ← hlogged] at hcount
    have hon := Event.count_terminalLines (c.obeyAll cmds).events true
    have hoff := Event.count_terminalLines (c.obeyAll cmds).events false
    exact hon.trans (hcount.trans hoff.symm)

end Console

end Terminals

end Chip8
