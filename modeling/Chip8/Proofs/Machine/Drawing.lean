/-
# Drawing a sprite

`DXYN` goes through the bits of a sprite one by one, and writes VF, which may be one of the
registers that say where to draw, before it is done.  Here its effect is stated at once, with sets
of cells and with the registers from before.

* `Machine.covered` is the set of cells under the sprite: those of its set bits that fall on the
  screen.  A sprite goes on in the line below where it crosses the right edge, and ends where it
  crosses the bottom.
* `Machine.Drawn`: the lit cells afterwards are the symmetric difference with that set, VF tells
  whether the two met, and nothing else changes but the program counter and the redraw mark.
* `drawn_next_drawSprite` compares the two; a tick at the word `DXYN` is an instance
  (`Emulator.tick_draws_sprite`).
-/
import Mathlib.Data.Finset.Prod
import Chip8.Proofs.Machine.Diagnosis
import Chip8.Proofs.Screen.Cells

namespace Chip8

namespace Machine

/-! ## 1. The cells under a sprite -/

/-- The cell at (VX, VY). -/
def origin (m : Machine) (x y : Register) : Nat := (m.v.get x).toNat + 64 * (m.v.get y).toNat

/-- The cells of the screen under the set bits of the `rows` bytes from I on, drawn as a sprite at
(VX, VY). -/
def covered (m : Machine) (x y : Register) (rows : Nat) : Finset Nat :=
  let bits := (Finset.range rows ×ˢ Finset.range 8).filter fun (row, col) =>
    (m.memory.read (m.index.toNat + row)).toNat.testBit (7 - col)
  (bits.image fun (row, col) => m.origin x y + 64 * row + col).filter (· < Screen.cells)

theorem covered_eq (m : Machine) (x y : Register) (rows : Nat) :
    m.covered x y rows = Screen.onScreen
      (Screen.spriteCells (m.origin x y) (m.memory.slice m.index.toNat rows)) := by
  have hrow : ∀ row < rows, (m.memory.slice m.index.toNat rows)[row]?.getD 0
      = m.memory.read (m.index.toNat + row) := by
    intro row hlt
    rw [Memory.slice, List.getElem?_map, List.getElem?_range hlt]
    rfl
  ext c
  rw [Screen.mem_onScreen, Screen.mem_spriteCells, Memory.length_slice, covered,
    Finset.mem_filter, and_comm]
  refine and_congr_right fun _ => ?_
  simp only [Finset.mem_image, Finset.mem_filter, Finset.mem_product, Finset.mem_range,
    Prod.exists]
  constructor
  · rintro ⟨row, col, ⟨⟨hlt, hcol⟩, hbit⟩, rfl⟩
    exact ⟨row, hlt, col, hcol, rfl, (hrow row hlt).symm ▸ hbit⟩
  · rintro ⟨row, hlt, col, hcol, rfl, hbit⟩
    exact ⟨row, col, ⟨⟨hlt, hcol⟩, hrow row hlt ▸ hbit⟩, rfl⟩

/-! ## 2. What drawing does -/

/-- What it means that a machine `m` became `m'` by drawing the `rows` bytes from I on as a sprite
at (VX, VY). -/
structure Drawn (m : Machine) (x y : Register) (rows : Nat) (m' : Machine) : Prop where
  /-- The bytes past the end of memory are zero. -/
  beyond : ∀ a, 0x0FFF < a → m.memory.read a = 0
  /-- A cell is lit if it was lit or is under the sprite, and not both. -/
  cells : ∀ c < Screen.cells, (m'.screen.cell? c = some true ↔
    Xor (m.screen.cell? c = some true) (c ∈ m.covered x y rows))
  /-- VF is one if a cell under the sprite was lit, and zero otherwise. -/
  flag : m'.v.get .flag
    = if ∃ c ∈ m.covered x y rows, m.screen.cell? c = some true then 1 else 0
  /-- The number of lit pixels grows by the cells under the sprite, less twice those that were
  lit. -/
  lit : (m'.screen.lit : Int) = m.screen.lit + (m.covered x y rows).card
    - 2 * (m.covered x y rows ∩ m.screen.litCells).card
  /-- No register but VF changes. -/
  registers : ∀ z, z ≠ .flag → m'.v.get z = m.v.get z
  /-- The screen is marked as drawn on, the program goes on with the next instruction, and memory,
  I and all the rest stay as they are. -/
  rest : m' = { m with screen := m'.screen, v := m'.v, redraw := true, pc := m.pc + 2 }

/-- **Drawing a sprite is drawing the cells under it.** -/
theorem drawn_next_drawSprite (m : Machine) (x y : Register) (rows : Nat) :
    m.Drawn x y rows (m.drawSprite x y rows).next := by
  let cs := Screen.spriteCells (m.origin x y) (m.memory.slice m.index.toNat rows)
  have hnodup : cs.Nodup := Screen.nodup_spriteCells _ _
  have hcovered : m.covered x y rows = Screen.onScreen cs := m.covered_eq x y rows
  have hscreen : (m.drawSprite x y rows).next.screen = (m.screen.draw cs).1 := rfl
  have hregisters : (m.drawSprite x y rows).next.v
      = m.v.set .flag (if (m.screen.draw cs).2 then 1 else 0) := rfl
  refine ⟨fun a ha => Memory.read_of_size_le ha, ?_, ?_, ?_, ?_, rfl⟩
  · intro c hc
    rw [hscreen, ← Screen.mem_litCells, Screen.litCells_draw hnodup, Finset.mem_symmDiff,
      Screen.mem_litCells, hcovered]
    rfl
  · have hmet : (m.screen.draw cs).2 = true ↔
        ∃ c ∈ m.covered x y rows, m.screen.cell? c = some true := by
      rw [Screen.snd_draw_iff hnodup, hcovered]
      refine exists_congr fun c => and_congr_left fun hlit => ?_
      rw [Screen.mem_onScreen, and_iff_right (Screen.lt_of_cell?_eq_some hlit)]
    rw [hregisters, Registers.get_set_self, if_congr hmet rfl rfl]
  · have hlit := Screen.lit_draw (s := m.screen) hnodup
    rw [hscreen, hcovered]
    omega
  · intro z hz
    rw [hregisters, Registers.get_set, if_neg (Ne.symm hz)]

end Machine

namespace Emulator

variable {π : Type} [Platform π]

/-- **`DXYN` draws the sprite at I at the cell (VX, VY)**, in every state of the machine, whichever
registers X and Y are. -/
theorem tick_draws_sprite (e : Emulator π) (x y : Register) (rows : Fin 16) :
    (∀ byte, ∃ m', e.machine.execute byte (.draw x y rows) = .done m' ∧
      e.machine.Drawn x y rows.val m') ∧
    (decode e.machine.fetch = .ok (.draw x y rows) →
      e.tick.result = .ok () ∧ e.machine.Drawn x y rows.val e.tick.state.machine) := by
  have hdrawn := e.machine.drawn_next_drawSprite x y rows.val
  refine ⟨fun byte => ⟨_, rfl, hdrawn⟩, ?_⟩
  intro hdecode
  have hstep : e.machine.step e.supply.1 = .done (e.machine.drawSprite x y rows.val).next := by
    simp only [Machine.step, hdecode, Machine.execute]
  have hmachine : e.tick.state.machine = (e.machine.drawSprite x y rows.val).next :=
    congrArg Outcome.machine hstep
  refine ⟨congrArg Outcome.result hstep, ?_⟩
  rw [hmachine]
  exact hdrawn

/-- VF is 62 and V1 is 31, so that a zero drawn at (VF, V1) starts on the last cell but one: half of
its first row and all of the others fall off the screen. -/
theorem tick_draws_sprite_in_last_corner :
    let e := ((scripted []).performAll
      [.load [0x6F, 0x3E, 0x61, 0x1F, 0xA0, 0x50, 0xDF, 0x15], .tick, .tick, .tick]).state
    decode e.machine.fetch = .ok (.draw .flag 1 5) ∧ e.machine.covered .flag 1 5 = {2046, 2047} ∧
      e.machine.Drawn .flag 1 5 e.tick.state.machine := by
  intro e
  obtain ⟨hdecode, hcovered⟩ : decode e.machine.fetch = .ok (.draw .flag 1 5) ∧
      e.machine.covered .flag 1 5 = {2046, 2047} := by
    decide +kernel
  exact ⟨hdecode, hcovered, ((tick_draws_sprite e .flag 1 5).2 hdecode).2⟩

end Emulator

end Chip8
