/-
# What a display sees

A host shows the screen by taking it now and then: it is handed the screen if something was drawn on
it in the meantime, and nothing otherwise.  This module compares what is on the screen with what was
handed out, over whole runs.

* Of the instructions only `00E0` and `DXYN` change the screen, and both mark it as drawn on
  (`display_step_of_not_draws`, `step_of_draws`).
* `InStep` ties the mark to what was done in the run and the screen to what was handed out;
  `InStep.perform` keeps it for every operation.  Hence no drawing is lost between two resets
  (`tracked_performAll`).
* A reset blanks the screen without marking it.  A display that shows what it was handed last is
  therefore up to date after each take only if something was handed out since the reset, or if it is
  blank anyway (`polled_performAll`); `picture_stale_after_reset` is a run where neither is so.
-/
import Chip8.Proofs.History
import Chip8.Proofs.Machine.Diagnosis
import Chip8.Proofs.Machine.Effects

namespace Chip8

/-! ## 1. Instructions -/

/-- Whether an instruction draws on the screen, be it nothing. -/
def Instruction.draws : Instruction → Bool
  | .clear | .draw _ _ _ => true
  | _ => false

namespace Machine

/-- What a display depends on: the screen, and whether it was drawn on since it was taken. -/
def display (m : Machine) : Screen × Bool := (m.screen, m.redraw)

/-- **An instruction that does not draw leaves the display alone.** -/
theorem display_execute (m : Machine) (byte : UInt8) {i : Instruction} (h : i.draws = false) :
    (m.execute byte i).machine.display = m.display := by
  have hsame : (m.changed i).display = m.display := by
    cases i with
    | clear | draw x y rows => cases h
    | _ => rfl
  exact (congrArg display (m.surroundings_execute byte i)).trans hsame

/-- **An instruction that draws marks the screen as drawn on.** -/
theorem execute_of_draws (m : Machine) (byte : UInt8) {i : Instruction} (h : i.draws = true) :
    ∃ m', m.execute byte i = .done m' ∧ m'.redraw = true := by
  cases i with
  | clear | draw x y rows => exact ⟨_, rfl, rfl⟩
  | _ => cases h

/-- Whether the word at the program counter is `00E0` or `DXYN`. -/
def drawsNext (m : Machine) : Bool := m.fetch = 0x00E0 || Word.family m.fetch = 0xD

theorem drawsNext_iff {m : Machine} :
    m.drawsNext = true ↔ ∃ i, decode m.fetch = .ok i ∧ i.draws = true := by
  rw [drawsNext, Bool.or_eq_true, decide_eq_true_eq, decide_eq_true_eq]
  constructor
  · rintro (hclear | hdraw)
    · exact ⟨_, decode_eq_clear_iff.mpr hclear, rfl⟩
    · exact ⟨_, decode_eq_draw_iff.mpr ⟨hdraw, rfl, rfl, rfl⟩, rfl⟩
  · rintro ⟨i, hdecode, hdraws⟩
    cases i with
    | clear => exact Or.inl (decode_eq_clear_iff.mp hdecode)
    | draw x y rows => exact Or.inr (decode_eq_draw_iff.mp hdecode).1
    | _ => cases hdraws

theorem display_step_of_not_draws {m : Machine} (byte : UInt8) (h : m.drawsNext = false) :
    (m.step byte).machine.display = m.display := by
  cases hdecode : decode m.fetch with
  | error e =>
    simp only [step, hdecode]
    rfl
  | ok i =>
    have hdraws : i.draws = false := by
      by_contra hdraws
      rw [Bool.not_eq_false] at hdraws
      rw [drawsNext_iff.mpr ⟨i, hdecode, hdraws⟩] at h
      cases h
    simp only [step, hdecode]
    exact m.display_execute byte hdraws

theorem step_of_draws {m : Machine} (byte : UInt8) (h : m.drawsNext = true) :
    ∃ m', m.step byte = .done m' ∧ m'.redraw = true := by
  obtain ⟨i, hdecode, hdraws⟩ := drawsNext_iff.mp h
  simp only [step, hdecode]
  exact m.execute_of_draws byte hdraws

end Machine

namespace Emulator

variable {π : Type} [Platform π]

/-! ## 2. What a moment means for a display -/

/-- The screen that an answer hands out, if it does. -/
def Answer.screen? : Answer → Option Screen
  | .taken screen => screen
  | _ => none

namespace Moment

/-- Whether a `00E0` or a `DXYN` took effect. -/
def drew (x : Moment π) : Bool :=
  x.input = .tick && x.state.machine.drawsNext && x.state.tick.result.isOk

/-- The screen that was handed out, if one was. -/
def handedOut? (x : Moment π) : Option Screen := (x.state.perform x.input).result.screen?

/-- Whether nothing drawn before is waiting any more: the machine was reset, or the screen was
handed out. -/
def settles (x : Moment π) : Bool := x.isReset || x.handedOut?.isSome

end Moment

/-- The screen that was handed out last in a run, a blank one if there was none. -/
def lastHandedOut (h : List (Moment π)) : Screen :=
  (h.filterMap Moment.handedOut?).getLast?.getD .blank

theorem lastHandedOut_concat_none {h : List (Moment π)} {x : Moment π} (hx : x.handedOut? = none) :
    lastHandedOut (h ++ [x]) = lastHandedOut h := by
  simp [lastHandedOut, hx]

theorem lastHandedOut_concat_some {h : List (Moment π)} {x : Moment π} {s : Screen}
    (hx : x.handedOut? = some s) : lastHandedOut (h ++ [x]) = s := by
  simp [lastHandedOut, hx]

/-! ## 3. What a run keeps -/

/-- What a display has to go by is in step with what was done. -/
structure InStep (e : Emulator π) (h : List (Moment π)) : Prop where
  /-- The screen is pending if something was drawn on it since it was settled. -/
  pending : e.machine.redraw = (Step.since Moment.settles h).any Moment.drew
  /-- If it is not, then it is the screen that was handed out last since the last reset. -/
  shown : e.machine.redraw = false →
    e.machine.screen = lastHandedOut (Step.since Moment.isReset h)

namespace InStep

variable {e e' : Emulator π} {h : List (Moment π)} {x : Moment π}

/-- A moment that settles nothing and does not draw. -/
theorem idle (hin : e.InStep h) (hreset : x.isReset = false) (hhanded : x.handedOut? = none)
    (hdrew : x.drew = false) (hsame : e'.machine.display = e.machine.display) :
    e'.InStep (h ++ [x]) := by
  have hsettles : x.settles = false := by rw [Moment.settles, hreset, hhanded]; rfl
  obtain ⟨hscreen, hredraw⟩ := Prod.mk.inj hsame
  refine ⟨?_, ?_⟩
  · rw [Step.since_concat hsettles, List.any_append, hredraw, hin.pending]
    simp [hdrew]
  · intro hnot
    rw [Step.since_concat hreset, lastHandedOut_concat_none hhanded, hscreen]
    exact hin.shown (hredraw ▸ hnot)

theorem tick (hin : e.InStep h) : e.tick.state.InStep (h ++ [⟨e, .tick⟩]) := by
  cases hnext : e.machine.drawsNext with
  | false =>
    refine hin.idle rfl rfl ?_ (Machine.display_step_of_not_draws _ hnext)
    simp [Moment.drew, hnext]
  | true =>
    obtain ⟨m', hstep, hredraw⟩ := Machine.step_of_draws e.supply.1 hnext
    have hmachine : e.tick.state.machine = m' := congrArg Outcome.machine hstep
    have hresult : e.tick.result = .ok () := congrArg Outcome.result hstep
    have hdrew : Moment.drew (⟨e, .tick⟩ : Moment π) = true := by
      simp [Moment.drew, hnext, hresult, Except.isOk, Except.toBool]
    have hsettles : Moment.settles (⟨e, .tick⟩ : Moment π) = false := rfl
    refine ⟨?_, ?_⟩
    · rw [Step.since_concat hsettles, List.any_append, hmachine, hredraw]
      simp [hdrew]
    · intro hnot
      rw [hmachine, hredraw] at hnot
      cases hnot

theorem reset (e : Emulator π) (h : List (Moment π)) :
    e.reset.state.InStep (h ++ [⟨e, .reset⟩]) := by
  have hreset : Moment.isReset (⟨e, .reset⟩ : Moment π) = true := rfl
  have hsettles : Moment.settles (⟨e, .reset⟩ : Moment π) = true := rfl
  refine ⟨?_, ?_⟩
  · rw [Step.since_concat_of_stop hsettles]
    rfl
  · intro _
    rw [Step.since_concat_of_stop hreset]
    rfl

theorem takeScreen (hin : e.InStep h) :
    e.takeScreen.state.InStep (h ++ [⟨e, .takeScreen⟩]) := by
  have hreset : Moment.isReset (⟨e, .takeScreen⟩ : Moment π) = false := rfl
  have hhanded : Moment.handedOut? (⟨e, .takeScreen⟩ : Moment π)
      = if e.machine.redraw then some e.machine.screen else none := rfl
  cases hredraw : e.machine.redraw with
  | false =>
    rw [hredraw] at hhanded
    refine hin.idle hreset hhanded rfl ?_
    exact Prod.ext rfl hredraw.symm
  | true =>
    rw [hredraw] at hhanded
    have hsettles : Moment.settles (⟨e, .takeScreen⟩ : Moment π) = true := by
      rw [Moment.settles, hhanded]
      rfl
    refine ⟨?_, ?_⟩
    · rw [Step.since_concat_of_stop hsettles]
      rfl
    · intro _
      rw [Step.since_concat hreset, lastHandedOut_concat_some hhanded]
      rfl

/-- **Every operation keeps the display in step.** -/
theorem perform (hin : e.InStep h) (op : Operation) :
    (e.perform op).state.InStep (h ++ [⟨e, op⟩]) := by
  cases op with
  | tick => exact hin.tick
  | reset => exact reset e h
  | takeScreen => exact hin.takeScreen
  | countDown | setKey key down | load program => exact hin.idle rfl rfl rfl rfl

end InStep

/-- A run of a machine just switched on keeps the display in step. -/
theorem inStep_performAll (d : Dialect) (p : π) (ops : List Operation) :
    let e : Emulator π := ⟨.powerOn d, p⟩
    (e.performAll ops).state.InStep (e.history ops) := by
  intro e
  induction ops using List.reverseRecOn with
  | nil => exact ⟨rfl, fun _ => rfl⟩
  | append_singleton ops op ih =>
    rw [state_performAll_concat, history_concat]
    exact ih.perform op

/-! ## 4. What the machine tells a display -/

/-- What it means that a display which takes the screen now and then misses nothing that was drawn
since the last reset. -/
structure Tracked (e : Emulator π) (h : List (Moment π)) : Prop where
  /-- The screen is pending exactly if something was drawn on it since the last reset and since it
  was last handed out. -/
  pending : e.machine.redraw = true ↔ ∃ x ∈ Step.since Moment.settles h, x.drew = true
  /-- It is handed out exactly if it is pending, as it is. -/
  taken : ∀ s, e.takeScreen.result = some s ↔ e.machine.redraw = true ∧ s = e.machine.screen
  /-- As long as it is not pending, it is what was handed out last since the last reset, or blank if
  nothing was. -/
  shown : e.machine.redraw = false →
    e.machine.screen = lastHandedOut (Step.since Moment.isReset h)

/-- **No drawing is lost between resets**, in any run of a machine just switched on. -/
theorem tracked_performAll (d : Dialect) (p : π) (ops : List Operation) :
    let e : Emulator π := ⟨.powerOn d, p⟩
    (e.performAll ops).state.Tracked (e.history ops) := by
  intro e
  have hin : (e.performAll ops).state.InStep (e.history ops) := inStep_performAll d p ops
  refine ⟨?_, ?_, hin.shown⟩
  · rw [hin.pending, List.any_eq_true]
  · intro s
    show (if (e.performAll ops).state.machine.redraw then some _ else none) = some s ↔ _
    split
    · rename_i hredraw
      rw [Option.some.injEq]
      exact ⟨fun hs => ⟨hredraw, hs.symm⟩, fun hs => hs.2.symm⟩
    · rename_i hredraw
      constructor
      · intro hs
        cases hs
      · rintro ⟨hpending, -⟩
        exact absurd hpending hredraw

/-! ## 5. What the display shows -/

/-- The picture of a display that starts with a blank one and replaces it by each screen that is
handed out. -/
def picture (answers : List Answer) : Screen :=
  answers.foldl (fun shown a => a.screen?.getD shown) .blank

theorem picture_performAll (e : Emulator π) (ops : List Operation) :
    picture (e.performAll ops).result = lastHandedOut (e.history ops) := by
  induction ops using List.reverseRecOn with
  | nil => rfl
  | append_singleton ops op ih =>
    rw [picture] at ih
    rw [result_performAll_concat, picture, List.foldl_concat, history_concat, ih]
    let x : Moment π := ⟨(e.performAll ops).state, op⟩
    show x.handedOut?.getD (lastHandedOut (e.history ops)) = lastHandedOut (e.history ops ++ [x])
    cases hhanded : x.handedOut? with
    | none => exact (lastHandedOut_concat_none hhanded).symm
    | some s => exact (lastHandedOut_concat_some hhanded).symm

/-- If anything was handed out in the last part of a run, then the last one was. -/
theorem lastHandedOut_of_suffix {l h : List (Moment π)} (hl : l <:+ h)
    (hsome : ∃ x ∈ l, x.handedOut?.isSome) : lastHandedOut l = lastHandedOut h := by
  obtain ⟨past, rfl⟩ := hl
  obtain ⟨x, hx, hhanded⟩ := hsome
  obtain ⟨s, hs⟩ := Option.isSome_iff_exists.mp hhanded
  have hmem : s ∈ l.filterMap Moment.handedOut? := List.mem_filterMap.mpr ⟨x, hx, hs⟩
  rw [lastHandedOut, lastHandedOut, List.filterMap_append, List.getLast?_append]
  cases hlast : (l.filterMap Moment.handedOut?).getLast? with
  | none =>
    rw [List.getLast?_eq_none_iff.mp hlast] at hmem
    cases hmem
  | some t => rfl

theorem lastHandedOut_of_none {l : List (Moment π)} (h : ¬ ∃ x ∈ l, x.handedOut?.isSome) :
    lastHandedOut l = .blank := by
  have hnil : l.filterMap Moment.handedOut? = [] := by
    rw [List.filterMap_eq_nil_iff]
    intro x hx
    rw [← Option.not_isSome_iff_eq_none]
    exact fun hhanded => h ⟨x, hx, hhanded⟩
  rw [lastHandedOut, hnil]
  rfl

/-- How the picture of a display that has just taken the screen compares with the screen. -/
structure Polled (shown screen : Screen) (h : List (Moment π)) : Prop where
  /-- Without a reset they are the same. -/
  current : (∀ x ∈ h, x.isReset = false) → shown = screen
  /-- After a reset they are the same only if a screen was handed out since, or if the picture is
  blank, as the screen is then. -/
  current_iff : shown = screen ↔
    (∃ x ∈ Step.since Moment.isReset h, x.handedOut?.isSome) ∨ shown = .blank

/-- **When a display that takes the screen is up to date**, in any run of a machine just switched
on. -/
theorem polled_performAll (d : Dialect) (p : π) (ops : List Operation) :
    let e : Emulator π := ⟨.powerOn d, p⟩
    let run := e.performAll (ops ++ [.takeScreen])
    Polled (picture run.result) run.state.machine.screen (e.history (ops ++ [.takeScreen])) := by
  intro e run
  have hin : run.state.InStep (e.history (ops ++ [.takeScreen])) :=
    inStep_performAll d p (ops ++ [.takeScreen])
  have htaken : run.state.machine.redraw = false := by
    rw [state_performAll_concat]
    rfl
  rw [hin.shown htaken, picture_performAll]
  refine ⟨?_, ?_⟩
  · intro hnone
    rw [Step.since_eq_self hnone]
  · by_cases hsome : ∃ x ∈ Step.since Moment.isReset (e.history (ops ++ [.takeScreen])),
        x.handedOut?.isSome
    · rw [lastHandedOut_of_suffix (Step.since_suffix _ _) hsome]
      exact ⟨fun _ => Or.inl hsome, fun _ => rfl⟩
    · rw [lastHandedOut_of_none hsome]
      exact ⟨fun hblank => Or.inr hblank, fun h => h.resolve_left hsome⟩

/-- A display is not up to date after a digit was drawn, the screen taken, and the machine reset:
nothing is handed out, and the digit stays. -/
theorem picture_stale_after_reset :
    let run := (scripted []).performAll
      [.load [0xA0, 0x50, 0xD0, 0x05], .tick, .tick, .takeScreen, .reset, .takeScreen]
    picture run.result ≠ run.state.machine.screen := by
  -- the two differ in the cell at the top left
  refine mt (congrArg (Screen.cell? · 0)) ?_
  decide +kernel

end Emulator
end Chip8
