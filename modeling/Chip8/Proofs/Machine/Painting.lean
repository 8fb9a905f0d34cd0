/-
# Painting with sprites

A sprite is combined with the screen by exclusive or, cell by cell and inside packed bytes.  Here
whole lists of sprites are drawn, each a `DXYN` with a VX, a VY, an I and an N of its own.

* A `Stroke` is what one `DXYN` reads besides the memory and the screen.  `Painted` says what it
  means to draw a list of strokes: an execution of `DXYN` for each, by machines that may do anything
  between two of them that leaves the memory and the screen alone.
* `painted_iff`: it comes to drawing the cells of all the strokes as one list.  So the order does
  not matter, and the same strokes again bring the screen back (`orderFree`).
* `painted_history`: a run that keeps the memory and does not blank the screen has painted the
  strokes that it made.
* `flags_eq_zero_iff`: a sprite that is drawn twice in a row collides at least once, unless there is
  nothing of it on the screen.
-/
import Chip8.Proofs.Machine.Display
import Chip8.Proofs.Machine.Drawing

namespace Chip8

/-! ## 1. Strokes -/

/-- What a `DXYN` reads besides the memory and the screen. -/
@[ext]
structure Stroke where
  /-- The number in VX. -/
  column : UInt8
  /-- The number in VY. -/
  line : UInt8
  /-- The address in I. -/
  index : UInt16
  /-- N. -/
  rows : Fin 16
deriving DecidableEq

/-- The cells that a stroke switches, each as often as it is listed. -/
def Stroke.cells (k : Stroke) (memory : Memory) : List Nat :=
  Screen.spriteCells (k.column.toNat + 64 * k.line.toNat) (memory.slice k.index.toNat k.rows.val)

namespace Machine

/-- The stroke that `DXYN` makes. -/
def strokeAt (m : Machine) (x y : Register) (rows : Fin 16) : Stroke :=
  ⟨m.v.get x, m.v.get y, m.index, rows⟩

/-- The stroke that the instruction at the program counter makes, if it is a `DXYN`. -/
def stroke? (m : Machine) : Option Stroke :=
  if Word.family m.fetch = 0xD then
    some (m.strokeAt (Word.x m.fetch) (Word.y m.fetch) (Word.n m.fetch))
  else none

theorem cells_strokeAt (m : Machine) (x y : Register) (rows : Fin 16) :
    (m.strokeAt x y rows).cells m.memory
      = Screen.spriteCells (m.origin x y) (m.memory.slice m.index.toNat rows.val) := rfl

/-- **A stroke switches its cells.** -/
theorem screen_of_execute_draw {m m' : Machine} {byte : UInt8} {x y : Register} {rows : Fin 16}
    (h : m.execute byte (.draw x y rows) = .done m') :
    m'.screen = (m.screen.draw ((m.strokeAt x y rows).cells m.memory)).1 := by
  obtain rfl := Outcome.done.inj h
  rfl

end Machine

/-! ## 2. Lists of strokes -/

/-- With a memory that stays as it is, a screen becomes another one by a list of strokes.  Only the
screen is handed on from one stroke to the next. -/
inductive Painted (memory : Memory) : Screen → List Stroke → Screen → Prop
  | nil (s : Screen) : Painted memory s [] s
  | cons {m m' : Machine} {byte : UInt8} {x y : Register} {rows : Fin 16} {ks : List Stroke}
      {s : Screen} (hmemory : m.memory = memory)
      (hdraw : m.execute byte (.draw x y rows) = .done m') (hrest : Painted memory m'.screen ks s) :
      Painted memory m.screen (m.strokeAt x y rows :: ks) s

/-- Any stroke can be made, on any screen. -/
theorem Stroke.exists_machine (k : Stroke) (memory : Memory) (s : Screen) :
    ∃ m : Machine, m.memory = memory ∧ m.screen = s ∧ m.strokeAt 0 1 k.rows = k := by
  let v := (Registers.zero.set 0 k.column).set 1 k.line
  refine ⟨{ Machine.powerOn {} with v, index := k.index, memory, screen := s }, rfl, rfl, ?_⟩
  have hcolumn : v.get 0 = k.column := by simp [v, Registers.get_set]
  have hline : v.get 1 = k.line := Registers.get_set_self ..
  exact Stroke.ext hcolumn hline rfl rfl

/-- **A list of strokes switches the cells of all of them.** -/
theorem painted_iff {memory : Memory} {s t : Screen} {ks : List Stroke} :
    Painted memory s ks t ↔ t = (s.draw (ks.flatMap (·.cells memory))).1 := by
  constructor
  · intro h
    induction h with
    | nil s => rfl
    | cons hmemory hdraw hrest ih =>
      obtain rfl := hmemory
      rw [ih, Machine.screen_of_execute_draw hdraw, List.flatMap_cons, Screen.fst_draw_append]
  · rintro rfl
    induction ks generalizing s with
    | nil => exact Painted.nil s
    | cons k ks ih =>
      obtain ⟨m, rfl, rfl, hk⟩ := k.exists_machine memory s
      have hdraw : m.execute 0 (.draw 0 1 k.rows) = .done (m.drawSprite 0 1 k.rows.val).next := rfl
      rw [List.flatMap_cons, Screen.fst_draw_append, ← hk]
      exact Painted.cons rfl hdraw ih

/-! ## 3. The same sprite twice -/

/-- A sprite that is drawn where it was just drawn covers the same cells. -/
theorem Machine.covered_congr {m m' : Machine} {x y x' y' : Register} {rows : Fin 16}
    (hmemory : m'.memory = m.memory) (h : m'.strokeAt x' y' rows = m.strokeAt x y rows) :
    m'.covered x' y' rows.val = m.covered x y rows.val := by
  rw [covered_eq, covered_eq, ← cells_strokeAt, ← cells_strokeAt, h, hmemory]

/-- **Drawn twice in a row, a sprite collides**, the first time with a lit cell or the second time
with a cell that the first one lit; unless none of it is on the screen. -/
theorem Machine.flags_eq_zero_iff {m m₁ m₂ m₃ : Machine} {x y x' y' : Register} {rows : Fin 16}
    (h₁ : m.Drawn x y rows.val m₁) (h₃ : m₂.Drawn x' y' rows.val m₃)
    (hscreen : m₂.screen = m₁.screen)
    (hcovered : m₂.covered x' y' rows.val = m.covered x y rows.val) :
    (m₁.v.get .flag = 0 ∧ m₃.v.get .flag = 0) ↔ m.covered x y rows.val = ∅ := by
  rw [h₁.flag, h₃.flag, hcovered, hscreen, Finset.eq_empty_iff_forall_notMem]
  constructor
  · rintro ⟨hfirst, hsecond⟩ c hc
    have hdark : ¬ m.screen.cell? c = some true := by
      intro hlit
      rw [if_pos ⟨c, hc, hlit⟩] at hfirst
      cases hfirst
    have hon : c < Screen.cells := by
      rw [covered_eq] at hc
      exact (Screen.mem_onScreen.mp hc).1
    have hlit : m₁.screen.cell? c = some true := (h₁.cells c hon).mpr (Or.inr ⟨hc, hdark⟩)
    rw [if_pos ⟨c, hc, hlit⟩] at hsecond
    cases hsecond
  · intro hempty
    have hnone : ∀ s : Screen, ¬ ∃ c ∈ m.covered x y rows.val, s.cell? c = some true := by
      rintro s ⟨c, hc, -⟩
      exact hempty c hc
    exact ⟨if_neg (hnone _), if_neg (hnone _)⟩

namespace Emulator

variable {π : Type} [Platform π]

/-! ## 4. Runs -/

/-- The stroke that was made, if one was. -/
def Moment.stroke? (t : Moment π) : Option Stroke :=
  if t.input = .tick then t.state.machine.stroke? else none

/-- Whether nothing but a stroke changed the screen, and the stroke was made with the given
memory. -/
def Moment.OnlyPaints (memory : Memory) (t : Moment π) : Prop :=
  t.isReset = false ∧ (t.input = .tick → t.state.machine.fetch ≠ 0x00E0) ∧
    (t.stroke?.isSome → t.state.machine.memory = memory)

/-- The strokes that a run makes. -/
def strokes (e : Emulator π) (ops : List Operation) : List Stroke :=
  (e.history ops).filterMap Moment.stroke?

/-- A tick that makes a stroke executes a `DXYN`. -/
theorem execute_of_stroke? {e : Emulator π} {k : Stroke} (h : e.machine.stroke? = some k) :
    ∃ x y rows, k = e.machine.strokeAt x y rows ∧
      e.machine.execute e.supply.1 (.draw x y rows) = .done e.tick.state.machine := by
  unfold Machine.stroke? at h
  split at h
  · rename_i hfamily
    have hdecode := decode_eq_draw_iff.mpr ⟨hfamily, rfl, rfl, rfl⟩
    let i : Instruction := .draw (Word.x e.machine.fetch) (Word.y e.machine.fetch)
      (Word.n e.machine.fetch)
    have hstep : e.machine.step e.supply.1 = e.machine.execute e.supply.1 i := by
      simp only [Machine.step, hdecode, i]
    refine ⟨_, _, _, (Option.some.inj h).symm, ?_⟩
    exact congrArg (fun o => Outcome.done o.machine) hstep.symm
  · cases h

/-- An operation that makes no stroke, and does not blank the screen, leaves it. -/
theorem screen_perform_of_no_stroke {memory : Memory} {e : Emulator π} {op : Operation}
    (h : Moment.OnlyPaints memory ⟨e, op⟩) (hnone : Moment.stroke? ⟨e, op⟩ = none) :
    (e.perform op).state.machine.screen = e.machine.screen := by
  obtain ⟨hreset, hclear, -⟩ := h
  cases op with
  | tick =>
    have hfamily : ¬ Word.family e.machine.fetch = 0xD := by
      intro hfamily
      simp [Moment.stroke?, Machine.stroke?, hfamily] at hnone
    have hidle : e.machine.drawsNext = false := by
      simp [Machine.drawsNext, hfamily, hclear rfl]
    exact congrArg Prod.fst (Machine.display_step_of_not_draws e.supply.1 hidle)
  | reset => cases hreset
  | countDown | setKey key down | load program | takeScreen => rfl

/-- **A run has painted the strokes that it made**, if nothing else changed the screen. -/
theorem painted_history {memory : Memory} {e : Emulator π} {ops : List Operation}
    (h : ∀ t ∈ e.history ops, t.OnlyPaints memory) :
    Painted memory e.machine.screen (e.strokes ops) (e.performAll ops).state.machine.screen := by
  induction ops generalizing e with
  | nil => exact Painted.nil _
  | cons op ops ih =>
    obtain ⟨hfirst, hlater⟩ := List.forall_mem_cons.mp h
    have hrest : Painted memory (e.perform op).state.machine.screen
        ((e.perform op).state.strokes ops) (e.performAll (op :: ops)).state.machine.screen :=
      ih hlater
    cases hstroke : Moment.stroke? (⟨e, op⟩ : Moment π) with
    | none =>
      have hstrokes : e.strokes (op :: ops) = (e.perform op).state.strokes ops :=
        List.filterMap_cons_none hstroke
      rw [hstrokes, ← screen_perform_of_no_stroke hfirst hstroke]
      exact hrest
    | some k =>
      have hstrokes : e.strokes (op :: ops) = k :: (e.perform op).state.strokes ops :=
        List.filterMap_cons_some hstroke
      have hmemory : e.machine.memory = memory := hfirst.2.2 (by rw [hstroke]; rfl)
      obtain ⟨rfl, hk⟩ : op = .tick ∧ e.machine.stroke? = some k := by
        simpa [Moment.stroke?] using hstroke
      obtain ⟨x, y, rows, rfl, hdraw⟩ := execute_of_stroke? hk
      rw [hstrokes]
      exact Painted.cons hmemory hdraw hrest

/-- A run that stores nothing and never meets `00E0` only paints. -/
theorem onlyPaints_of_not_mayStore {e : Emulator π} {ops : List Operation}
    (h : ∀ t ∈ e.history ops, t.mayStore = false ∧ t.state.machine.fetch ≠ 0x00E0) :
    ∀ t ∈ e.history ops, t.OnlyPaints e.machine.memory := by
  intro t ht
  obtain ⟨hstore, hclear⟩ := h t ht
  have hreset : t.isReset = false := by
    obtain ⟨state, input⟩ := t
    cases input with
    | reset => cases hstore
    | tick | countDown | setKey key down | load program | takeScreen => rfl
  obtain ⟨hmemory, -⟩ := memory_of_not_mayStore fun t ht => (h t ht).1
  exact ⟨hreset, fun _ => hclear, fun _ => hmemory t ht⟩

/-! ## 5. Order -/

/-- What it means that sprites may be drawn in any order, from the screen of an emulator on and with
its memory. -/
structure OrderFree (e : Emulator π) : Prop where
  /-- Any list of strokes can be drawn. -/
  total : ∀ ks, ∃ s, Painted e.machine.memory e.machine.screen ks s
  /-- In any order they give the same screen. -/
  permuted : ∀ ks ks' s s', ks.Perm ks' → Painted e.machine.memory e.machine.screen ks s →
    Painted e.machine.memory e.machine.screen ks' s' → s' = s
  /-- The same strokes again, in any order, bring the screen back. -/
  restored : ∀ ks ks' s s', ks.Perm ks' → Painted e.machine.memory e.machine.screen ks s →
    Painted e.machine.memory s ks' s' → s' = e.machine.screen
  /-- A stroke that is made, and then made again by a machine with the screen it left, reports no
  collision either time exactly if there is no cell of the screen under it. -/
  reported : ∀ x y rows byte m₁, e.machine.execute byte (.draw x y rows) = .done m₁ →
    ∀ (m₂ : Machine) x' y' byte' m₃, m₂.memory = e.machine.memory → m₂.screen = m₁.screen →
      m₂.strokeAt x' y' rows = e.machine.strokeAt x y rows →
      m₂.execute byte' (.draw x' y' rows) = .done m₃ →
      ((m₁.v.get .flag = 0 ∧ m₃.v.get .flag = 0) ↔ e.machine.covered x y rows.val = ∅)
  /-- A run that keeps the memory, does not execute `00E0` and is not reset has drawn the strokes
  that it made. -/
  run : ∀ ops, (∀ t ∈ e.history ops, t.OnlyPaints e.machine.memory) →
    Painted e.machine.memory e.machine.screen (e.strokes ops)
      (e.performAll ops).state.machine.screen

/-- **Sprites may be drawn in any order**, on every screen and with every memory. -/
theorem orderFree (e : Emulator π) : e.OrderFree := by
  refine ⟨?_, ?_, ?_, ?_, fun ops h => painted_history h⟩
  · intro ks
    exact ⟨_, painted_iff.mpr rfl⟩
  · intro ks ks' s s' hperm hs hs'
    rw [painted_iff.mp hs, painted_iff.mp hs']
    exact (Screen.fst_draw_of_perm _ (hperm.flatMap_right _)).symm
  · intro ks ks' s s' hperm hs hs'
    rw [painted_iff.mp hs', painted_iff.mp hs]
    exact Screen.fst_draw_draw_of_perm _ (hperm.flatMap_right _)
  · intro x y rows byte m₁ hfirst m₂ x' y' byte' m₃ hmemory hscreen hstroke hsecond
    obtain rfl := Outcome.done.inj hfirst
    obtain rfl := Outcome.done.inj hsecond
    exact Machine.flags_eq_zero_iff (e.machine.drawn_next_drawSprite x y rows.val)
      (m₂.drawn_next_drawSprite x' y' rows.val) hscreen (Machine.covered_congr hmemory hstroke)

/-- A program draws a zero and an eight in one place, and then an eight and a zero: after the first
two something is left on the screen, after the other two nothing is. -/
theorem orderFree_two_digits :
    let e := ((scripted []).performAll
      [.load [0xA0, 0x50, 0xD0, 0x05, 0xA0, 0x78, 0xD0, 0x05,
        0xA0, 0x78, 0xD0, 0x05, 0xA0, 0x50, 0xD0, 0x05]]).state
    let half : List Operation := [.tick, .tick, .tick, .tick]
    let e' := (e.performAll half).state
    (e.strokes half).Perm (e'.strokes half) ∧
      Painted e.machine.memory e.machine.screen (e.strokes half) e'.machine.screen ∧
      e'.machine.screen ≠ e.machine.screen ∧
      (e'.performAll half).state.machine.screen = e.machine.screen := by
  intro e half e'
  -- the bar in the middle of the eight, cell 129, is not part of the zero
  obtain ⟨hquiet, hquiet', hperm, hbar⟩ :
      (∀ t ∈ e.history half, t.mayStore = false ∧ t.state.machine.fetch ≠ 0x00E0) ∧
      (∀ t ∈ e'.history half, t.mayStore = false ∧ t.state.machine.fetch ≠ 0x00E0) ∧
      (e.strokes half).Perm (e'.strokes half) ∧
      e'.machine.screen.cell? 129 ≠ e.machine.screen.cell? 129 := by
    decide +kernel
  have hpainted := (orderFree e).run half (onlyPaints_of_not_mayStore hquiet)
  have hagain := (orderFree e').run half (onlyPaints_of_not_mayStore hquiet')
  rw [(memory_of_not_mayStore fun t ht => (hquiet t ht).1).2] at hagain
  exact ⟨hperm, hpainted, mt (congrArg (Screen.cell? · 129)) hbar,
    (orderFree e).restored _ _ _ _ hperm hpainted hagain⟩

end Emulator

end Chip8
