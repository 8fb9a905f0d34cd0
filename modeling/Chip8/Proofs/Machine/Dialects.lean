/-
# What the dialect decides

The dialect is read by two kinds of instructions.  A shift reads VX or VY by it, and a bulk transfer
moves the index or leaves it.  This module follows one machine in two dialects.

* `Machine.PartsFrom` says where they may part: at a shift whose two registers differ, or at a bulk
  transfer, if the dialects differ in the setting that counts there.
* `tick_inDialect`: any other tick is the same in both dialects, and so is a run up to the first
  tick where they may part (`united_of_not_partsFrom`).
* `tick_unindexed_of_transfers`: even a bulk transfer is the same in both, the index apart.
-/
import Chip8.Proofs.Machine.Independence

namespace Chip8

/-! ## 1. Where dialects part -/

/-- An operation is the same in two dialects if it shifts the same byte in both. -/
theorem Arithmetic.eval_congr {d d' : Dialect} {op : Arithmetic} {x y : UInt8}
    (h : op = .shiftRight ∨ op = .shiftLeft → x = y ∨ d.shiftReadsY = d'.shiftReadsY) :
    op.eval d x y = op.eval d' x y := by
  cases op with
  | shiftRight | shiftLeft =>
    rcases h (by simp) with rfl | hsetting
    · simp only [eval, ite_self]
    · simp only [eval, hsetting]
  | copy | or | and | xor | add | sub | subFrom => rfl

namespace Machine

/-- Whether the word at the program counter is `8XY6` or `8XYE`, with VX other than VY. -/
def Shifts (m : Machine) : Prop :=
  Word.family m.fetch = 0x8 ∧ (Word.n m.fetch).val ∈ [0x6, 0xE] ∧
    m.v.get (Word.x m.fetch) ≠ m.v.get (Word.y m.fetch)

/-- Whether the word at the program counter is `FX55` or `FX65`. -/
def Transfers (m : Machine) : Prop :=
  Word.family m.fetch = 0xF ∧ (Word.nn m.fetch).toNat ∈ [0x55, 0x65]

/-- Whether a setting in which the machine's dialect differs from another one counts for the
instruction at the program counter. -/
def PartsFrom (m : Machine) (d : Dialect) : Prop :=
  (m.Shifts ∧ m.dialect.shiftReadsY ≠ d.shiftReadsY) ∨
    (m.Transfers ∧ m.dialect.transferMovesIndex ≠ d.transferMovesIndex)

instance (m : Machine) : Decidable m.Shifts := inferInstanceAs (Decidable (_ ∧ _))

instance (m : Machine) : Decidable m.Transfers := inferInstanceAs (Decidable (_ ∧ _))

instance (m : Machine) (d : Dialect) : Decidable (m.PartsFrom d) :=
  inferInstanceAs (Decidable (_ ∨ _))

theorem transfers_iff {m : Machine} :
    m.Transfers ↔ ∃ x, decode m.fetch = .ok (.storeRegisters x) ∨
      decode m.fetch = .ok (.loadRegisters x) := by
  constructor
  · rintro ⟨hfamily, hnn⟩
    refine ⟨Word.x m.fetch, ?_⟩
    rcases List.mem_pair.mp hnn with hstore | hload
    · exact Or.inl ((decode_eq_device_iff (by decide) rfl).mpr ⟨hfamily, hstore, rfl⟩)
    · exact Or.inr ((decode_eq_device_iff (by decide) rfl).mpr ⟨hfamily, hload, rfl⟩)
  · rintro ⟨x, hdecode | hdecode⟩
    · obtain ⟨hfamily, hnn, -⟩ :=
        (decode_eq_device_iff (x := x) (k := 0x55) (by decide) rfl).mp hdecode
      exact ⟨hfamily, List.mem_pair.mpr (Or.inl hnn)⟩
    · obtain ⟨hfamily, hnn, -⟩ :=
        (decode_eq_device_iff (x := x) (k := 0x65) (by decide) rfl).mp hdecode
      exact ⟨hfamily, List.mem_pair.mpr (Or.inr hnn)⟩

end Machine

/-- Another dialect. -/
def Adjustment.spoken (d : Dialect) : Adjustment where
  dialect := fun _ => d

/-- An instruction where the dialects do not part does not notice which of them is spoken. -/
theorem Adjustment.unnoticedNext_spoken {m : Machine} {d : Dialect} (h : ¬ m.PartsFrom d) :
    (spoken d).UnnoticedNext m := by
  obtain ⟨hshift, htransfer⟩ := not_or.mp h
  have hmoves : m.Transfers → d.transferMovesIndex = m.dialect.transferMovesIndex := by
    intro hword
    by_contra hne
    exact htransfer ⟨hword, Ne.symm hne⟩
  intro i hdecode
  cases i with
  | combine op x y =>
    obtain ⟨hfamily, hn, rfl, rfl⟩ := decode_eq_combine_iff.mp hdecode
    refine Arithmetic.eval_congr fun hop => ?_
    have hnibble : (Word.n m.fetch).val ∈ [0x6, 0xE] := by
      rw [hn]
      rcases hop with rfl | rfl <;> decide
    by_contra hne
    obtain ⟨hbytes, hsetting⟩ := not_or.mp hne
    exact hshift ⟨⟨hfamily, hnibble, hbytes⟩, Ne.symm hsetting⟩
  | storeRegisters x => exact hmoves (Machine.transfers_iff.mpr ⟨x, Or.inl hdecode⟩)
  | loadRegisters x => exact hmoves (Machine.transfers_iff.mpr ⟨x, Or.inr hdecode⟩)
  | skipDown x | skipUp x | waitKey x | readDelay x | setDelay x | setSound x => rfl
  | _ => trivial

namespace Machine

/-! ## 2. Bulk transfers -/

/-- The same machine in another dialect. -/
def inDialect (d : Dialect) (m : Machine) : Machine := { m with dialect := d }

/-- A machine without its index. -/
def unindexed (m : Machine) : Machine := { m with index := 0 }

/-- **A bulk transfer depends on the dialect in the index only.** -/
theorem unindexed_step_of_transfers {m : Machine} (d : Dialect) (byte : UInt8)
    (h : m.Transfers) :
    ((m.inDialect d).step byte).map unindexed
      = (m.step byte).map fun m => (m.inDialect d).unindexed := by
  have hfetch : (m.inDialect d).fetch = m.fetch := rfl
  obtain ⟨x, hdecode | hdecode⟩ := transfers_iff.mp h
  · simp only [step, hfetch, hdecode]
    rfl
  · simp only [step, hfetch, hdecode]
    rfl

end Machine

namespace Emulator

variable {π : Type}

/-- The same emulator with its machine in another dialect. -/
def inDialect (d : Dialect) (e : Emulator π) : Emulator π := e.mapMachine (Machine.inDialect d)

/-- An emulator without the index of its machine. -/
def unindexed (e : Emulator π) : Emulator π := e.mapMachine Machine.unindexed

variable [Platform π]

/-! ## 3. One operation in two dialects -/

/-- **A tick where the dialects do not part** is the same in both. -/
theorem tick_inDialect {e : Emulator π} {d : Dialect} (h : ¬ e.machine.PartsFrom d) :
    (e.inDialect d).tick = e.tick.map (inDialect d) :=
  Adjustment.tick_adjust (Adjustment.unnoticedNext_spoken h) rfl

/-- **A bulk transfer is the same in all dialects, the index apart.** -/
theorem tick_unindexed_of_transfers {e : Emulator π} (d : Dialect) (h : e.machine.Transfers) :
    (e.inDialect d).tick.map unindexed = (e.tick.map (inDialect d)).map unindexed := by
  have hstep := Machine.unindexed_step_of_transfers d e.supply.1 h
  have hmachine := congrArg Outcome.machine hstep
  rw [Outcome.machine_map, Outcome.machine_map] at hmachine
  have hsound : ((e.machine.inDialect d).step e.supply.1).machine.unindexed.sound
      = ((e.machine.step e.supply.1).machine.inDialect d).unindexed.sound :=
    congrArg Machine.sound hmachine
  have htick : (e.inDialect d).tick.map (mapMachine Machine.unindexed)
      = e.tick.map (mapMachine fun m => (m.inDialect d).unindexed) :=
    tick_congr rfl rfl rfl hstep (congrArg Countdown.isActive hsound)
  exact htick

/-- Whether a moment is a tick where the dialects may part. -/
def Moment.PartsFrom (x : Moment π) (d : Dialect) : Prop :=
  x.input = .tick ∧ x.state.machine.PartsFrom d

instance (x : Moment π) (d : Dialect) : Decidable (x.PartsFrom d) :=
  inferInstanceAs (Decidable (_ ∧ _))

theorem perform_inDialect {e : Emulator π} {op : Operation} {d : Dialect}
    (h : ¬ Moment.PartsFrom ⟨e, op⟩ d) :
    (e.inDialect d).perform op = (e.perform op).map (inDialect d) := by
  cases op with
  | tick =>
    have htick : (e.inDialect d).tick = e.tick.map (inDialect d) :=
      tick_inDialect fun hparts => h ⟨rfl, hparts⟩
    simp only [perform, htick]
    rfl
  | countDown | setKey key down | load program | reset | takeScreen => rfl

/-! ## 4. Runs in two dialects -/

/-- What it means that a run is the same in another dialect. -/
structure United (e : Emulator π) (d : Dialect) (ops : List Operation) : Prop where
  /-- All that is answered and caused is the same, and so is the emulator afterwards, the dialect
  apart. -/
  same : (e.inDialect d).performAll ops = (e.performAll ops).map (inDialect d)
  /-- If the next tick is a bulk transfer, then it too is the same, the dialect and the index
  apart. -/
  transfer : (e.performAll ops).state.machine.Transfers →
    ((e.inDialect d).performAll ops).state.tick.map unindexed
      = ((e.performAll ops).state.tick.map (inDialect d)).map unindexed

/-- **Dialects make no difference until they part**, in any run from any state. -/
theorem united_of_not_partsFrom {e : Emulator π} {d : Dialect} {ops : List Operation}
    (h : ∀ x ∈ e.history ops, ¬ x.PartsFrom d) : e.United d ops := by
  have hsame : (e.inDialect d).performAll ops = (e.performAll ops).map (inDialect d) :=
    Step.iterate_map fun x hx => perform_inDialect (h x hx)
  refine ⟨hsame, ?_⟩
  intro htransfers
  rw [hsame]
  exact tick_unindexed_of_transfers d htransfers

/-- A program that shifts V0 by itself, and then stores registers: two dialects that differ in both
settings do not part until then. -/
theorem united_of_not_partsFrom_shift :
    let e := scripted []
    let d : Dialect := { shiftReadsY := true, transferMovesIndex := false }
    let ops : List Operation :=
      [.load [0x60, 0x05, 0x80, 0x06, 0xA3, 0x00, 0xF1, 0x55], .tick, .tick, .tick]
    (∀ x ∈ e.history ops, ¬ x.PartsFrom d) ∧ e.United d ops ∧
      (e.performAll ops).state.machine.Transfers := by
  intro e d ops
  obtain ⟨hunited, htransfers⟩ : (∀ x ∈ e.history ops, ¬ x.PartsFrom d) ∧
      (e.performAll ops).state.machine.Transfers := by
    decide +kernel
  exact ⟨hunited, united_of_not_partsFrom hunited, htransfers⟩

end Emulator

end Chip8
