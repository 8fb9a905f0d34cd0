/-
# Loading programs

A program is written to memory from `0x200` on, over whatever stands there.  A shorter program
leaves the end of a longer one before it, an empty one changes nothing, and a program that is longer
than memory has room for loses its end, with a warning.

* `latestByte?` names the byte that a list of programs leaves at a place: that of the last program
  that reaches it.  `Machine.read_loadAll` says that memory has it.
* `performAll_load` is the whole effect of loading programs one after the other: what it does to the
  machine and what it reports.
* `Setup.Part` are the calls that fill in a setup, and `Setup.giveAll_eq` says what a list of them
  comes to: the last one of each kind counts.
* `loadsInTurn_builds` puts both together, since a setup is built with its program loaded.
-/
import Chip8.Proofs.Machine.Restart
import Chip8.Proofs.Machine.Transfers

namespace Chip8

/-! ## 1. Programs in memory -/

/-- The byte at a place of the last program that is long enough to have one there. -/
def latestByte? (programs : List (List UInt8)) (k : Nat) : Option UInt8 :=
  (programs.filter fun p => k < p.length).getLast?.bind fun p => p[k]?

theorem latestByte?_concat (programs : List (List UInt8)) (p : List UInt8) (k : Nat) :
    latestByte? (programs ++ [p]) k = p[k]?.or (latestByte? programs k) := by
  rw [latestByte?, List.filter_append, List.filter_singleton]
  by_cases hk : k < p.length
  · rw [decide_eq_true hk, cond_true, List.getLast?_concat, Option.bind_some,
      List.getElem?_eq_getElem hk, Option.some_or]
  · rw [decide_eq_false hk, cond_false, List.append_nil,
      List.getElem?_eq_none (Nat.le_of_not_lt hk), Option.none_or, latestByte?]

-- A shorter program leaves the end of a longer one before it.
example : (List.range 4).map (latestByte? [[1, 2, 3], [4]]) = [some 4, some 2, some 3, none] := by
  decide

namespace Machine

/-- Loads programs one after the other. -/
def loadAll (m : Machine) (programs : List (List UInt8)) : Machine := programs.foldl load m

theorem loadAll_concat (m : Machine) (programs : List (List UInt8)) (p : List UInt8) :
    m.loadAll (programs ++ [p]) = (m.loadAll programs).load p :=
  List.foldl_concat ..

/-- A program that reaches a place gives it its byte. -/
theorem read_load (m : Machine) (p : List UInt8) {k : Nat} (hk : k < 0xE00) :
    (m.load p).memory.read (0x200 + k) = p[k]?.getD (m.memory.read (0x200 + k)) := by
  cases hbyte : p[k]? with
  | some byte => exact Memory.read_store_of_getElem? hbyte (by rw [programStart]; omega)
  | none =>
    have hlength : p.length ≤ k := List.getElem?_eq_none_iff.mp hbyte
    exact (Memory.read_store ..).trans (if_neg (by rw [programStart]; omega))

theorem read_load_of_lt (m : Machine) (p : List UInt8) {a : Nat} (ha : a < 0x200) :
    (m.load p).memory.read a = m.memory.read a :=
  (Memory.read_store ..).trans (if_neg (by rw [programStart]; omega))

/-- **The last program that reaches a place counts there.** -/
theorem read_loadAll (m : Machine) (programs : List (List UInt8)) {k : Nat} (hk : k < 0xE00) :
    (m.loadAll programs).memory.read (0x200 + k)
      = (latestByte? programs k).getD (m.memory.read (0x200 + k)) := by
  induction programs using List.reverseRecOn with
  | nil => rfl
  | append_singleton programs p ih =>
    rw [loadAll_concat, read_load _ p hk, ih, latestByte?_concat]
    cases p[k]? <;> rfl

theorem read_loadAll_of_lt (m : Machine) (programs : List (List UInt8)) {a : Nat}
    (ha : a < 0x200) : (m.loadAll programs).memory.read a = m.memory.read a := by
  induction programs using List.reverseRecOn with
  | nil => rfl
  | append_singleton programs p ih => rw [loadAll_concat, read_load_of_lt _ p ha, ih]

/-- Loading programs changes nothing but memory. -/
theorem loadAll_eq (m : Machine) (programs : List (List UInt8)) :
    m.loadAll programs = { m with memory := (m.loadAll programs).memory } := by
  induction programs using List.reverseRecOn with
  | nil => rfl
  | append_singleton programs p ih =>
    rw [loadAll_concat, ih]
    rfl

end Machine

/-! ## 2. What loading does and reports -/

theorem Notice.message_programTruncated (bytes : Nat) :
    (programTruncated bytes Machine.programSpace).message
      = "program of " ++ toString bytes ++ " bytes truncated to 3584 bytes" := by
  have hspace : " bytes truncated to " ++ (toString Machine.programSpace ++ " bytes")
      = " bytes truncated to 3584 bytes" := by decide
  show "program of " ++ toString bytes ++ " bytes truncated to " ++ toString Machine.programSpace
    ++ " bytes" = _
  rw [String.append_assoc, String.append_assoc, hspace]

namespace Emulator

variable {π : Type}

/-- **Loading programs one after the other**: each is loaded and reported, and that is all. -/
theorem performAll_load [Platform π] (e : Emulator π) (programs : List (List UInt8)) :
    e.performAll (programs.map .load)
      = ⟨programs.map fun _ => .done, { e with machine := e.machine.loadAll programs },
          (programs.flatMap fun p => loadNotices p.length).map .notice⟩ := by
  induction programs generalizing e with
  | nil => rfl
  | cons p programs ih =>
    have hrest := ih (e.load p).state
    rw [performAll] at hrest ⊢
    rw [List.map_cons, Step.iterate_cons]
    have hfirst : (e.perform (.load p)).state = (e.load p).state := rfl
    rw [hfirst, hrest, List.map_cons, List.flatMap_cons, List.map_append]
    rfl

/-- What is logged when a program of so many bytes is loaded: a warning if that is too many, and how
many were loaded. -/
def loadRecords (bytes : Nat) : List Log.Record :=
  (if 0xE00 < bytes then
    [⟨.warn, "chip8vm::machine",
      "program of " ++ toString bytes ++ " bytes truncated to 3584 bytes"⟩]
  else [])
    ++ [⟨.debug, "chip8vm::machine", "loaded " ++ toString (min bytes 0xE00) ++ " bytes"⟩]

theorem map_record_loadNotices (bytes : Nat) :
    (loadNotices bytes).map Notice.record = loadRecords bytes := by
  by_cases h : 0xE00 < bytes
  · rw [loadNotices, loadRecords, if_pos h, if_pos h, ← Notice.message_programTruncated]
    rfl
  · rw [loadNotices, loadRecords, if_neg h, if_neg h]
    rfl

/-- What it means that programs were loaded one after the other. -/
structure LoadsInTurn {α : Type} (before : Emulator π) (programs : List (List UInt8))
    (run : Step (Emulator π) α) : Prop where
  /-- From `0x200` to the end of memory, a byte is that of the last program that reaches it, or the
  one that was there. -/
  byte : ∀ k < 0xE00, run.state.machine.memory.read (0x200 + k)
    = (latestByte? programs k).getD (before.machine.memory.read (0x200 + k))
  /-- No byte before that changes, -/
  below : ∀ a < 0x200, run.state.machine.memory.read a = before.machine.memory.read a
  /-- nor does anything else. -/
  rest : run.state
    = { before with machine := { before.machine with memory := run.state.machine.memory } }
  calls : Event.calls run.events = []
  /-- There is a warning for each program that is longer than memory has room for, and no other. -/
  log : (Event.notices run.events).map Notice.record
    = programs.flatMap fun p => loadRecords p.length

theorem loadsInTurn_of_eq {α : Type} {before : Emulator π} {programs : List (List UInt8)}
    {run : Step (Emulator π) α}
    (hstate : run.state = { before with machine := before.machine.loadAll programs })
    (hevents : run.events = (programs.flatMap fun p => loadNotices p.length).map .notice) :
    LoadsInTurn before programs run where
  byte k hk := by
    rw [hstate]
    exact before.machine.read_loadAll programs hk
  below a ha := by
    rw [hstate]
    exact before.machine.read_loadAll_of_lt programs ha
  rest := by
    rw [hstate]
    exact congrArg (Emulator.mk · before.platform) (before.machine.loadAll_eq programs)
  calls := by
    rw [hevents]
    exact Event.calls_notices _
  log := by
    rw [hevents, Event.notices_notices, List.map_flatMap]
    simp only [map_record_loadNotices]

end Emulator

/-! ## 3. Setups -/

namespace Setup

variable {π : Type}

/-- Something that is given to a setup. -/
inductive Part (π : Type)
  | platform (p : π)
  | dialect (d : Dialect)
  | program (bytes : List UInt8)

/-- The platform that is given, if it is one. -/
def Part.platform? : Part π → Option π
  | .platform p => some p
  | .dialect _ | .program _ => none

/-- The dialect that is given, if it is one. -/
def Part.dialect? : Part π → Option Dialect
  | .dialect d => some d
  | .platform _ | .program _ => none

/-- The program that is given, if it is one. -/
def Part.program? : Part π → Option (List UInt8)
  | .program bytes => some bytes
  | .platform _ | .dialect _ => none

theorem Part.platform?_eq_some_iff {part : Part π} {p : π} :
    part.platform? = some p ↔ part = .platform p := by
  cases part <;> simp [platform?]

theorem Part.program?_eq_some_iff {part : Part π} {bytes : List UInt8} :
    part.program? = some bytes ↔ part = .program bytes := by
  cases part <;> simp [program?]

/-- Gives a part. -/
def give (s : Setup π) : Part π → Setup π
  | .platform p => s.withPlatform p
  | .dialect d => s.withDialect d
  | .program bytes => s.withProgram bytes

/-- Gives parts one after the other. -/
def giveAll (s : Setup π) (parts : List (Part π)) : Setup π := parts.foldl give s

/-- **The last part of each kind counts.** -/
theorem giveAll_eq (parts : List (Part π)) :
    ({} : Setup π).giveAll parts
      = { platform := (parts.filterMap Part.platform?).getLast?
          dialect := (parts.filterMap Part.dialect?).getLast?.getD {}
          program := (parts.filterMap Part.program?).getLast? } := by
  induction parts using List.reverseRecOn with
  | nil => rfl
  | append_singleton parts part ih =>
    have hgive : ({} : Setup π).giveAll (parts ++ [part])
        = (({} : Setup π).giveAll parts).give part := List.foldl_concat ..
    rw [hgive, ih]
    cases part <;>
      simp [give, withPlatform, withDialect, withProgram, Part.platform?, Part.dialect?,
        Part.program?]

/-- There is a last part of a kind unless no part of that kind was given. -/
theorem getLast?_filterMap_eq_none_iff {β : Type} {parts : List (Part π)}
    {kind : Part π → Option β} {ofKind : β → Part π}
    (hkind : ∀ {part b}, kind part = some b ↔ part = ofKind b) :
    (parts.filterMap kind).getLast? = none ↔ ∀ b, ofKind b ∉ parts := by
  rw [List.getLast?_eq_none_iff, List.filterMap_eq_nil_iff]
  constructor
  · intro h b hb
    have hnone := h _ hb
    rw [hkind.mpr rfl] at hnone
    cases hnone
  · intro h part hpart
    rw [Option.eq_none_iff_forall_ne_some]
    intro b hb
    exact h b (hkind.mp hb ▸ hpart)

/-- What it means that an emulator was made: a machine was switched on with all keys up, and one
program was loaded. -/
structure Made (platform : π) (dialect : Dialect) (program : List UInt8)
    (made : Step (Emulator π) Unit) : Prop where
  loaded : ∃ m : Machine, m.SwitchedOn ∧ m.dialect = dialect ∧ (∀ key, m.keys.isDown key = false) ∧
    Emulator.LoadsInTurn ⟨m, platform⟩ [program] made
  /-- Memory has the program, the sprites of the digits and zeros everywhere else. -/
  memory : ∀ a, made.state.machine.memory.read a =
    if 0x200 ≤ a ∧ a < 0x200 + min program.length 0xE00 then program[a - 0x200]?.getD 0
    else if 0x050 ≤ a ∧ a < 0x0A0 then Machine.glyphs[a - 0x050]?.getD 0
    else 0

theorem made_load (platform : π) (dialect : Dialect) (program : List UInt8) :
    Made platform dialect program (Emulator.load ⟨.powerOn dialect, platform⟩ program) where
  loaded := by
    refine ⟨.powerOn dialect, Machine.switchedOn_powerOn dialect, rfl, ?_, ?_⟩
    · exact Keypad.isDown_released
    · refine Emulator.loadsInTurn_of_eq rfl ?_
      rw [List.flatMap_singleton]
      rfl
  memory a := by
    have hmemory : ((Machine.powerOn dialect).load program).memory.read a = _ :=
      Memory.read_store ..
    have hon := (Machine.switchedOn_powerOn dialect).memory a
    refine hmemory.trans (if_congr ?_ rfl hon)
    rw [Machine.programStart, Memory.size]
    omega

/-- What it means that `result` comes of building from parts, given in this order. -/
structure Builds (parts : List (Part π)) (result : Except SetupError (Step (Emulator π) Unit)) :
    Prop where
  /-- A missing platform is reported, -/
  noPlatform : (∃ e, result = .error e ∧ e.message = "Context not provided") ↔
    ∀ p, .platform p ∉ parts
  /-- and a missing program if a platform is given. -/
  noProgram : (∃ e, result = .error e ∧ e.message = "Program not provided") ↔
    (∃ p, .platform p ∈ parts) ∧ ∀ bytes, .program bytes ∉ parts
  /-- If both are given, the last of each is used, and the last dialect if there is one. -/
  made : (∃ p, .platform p ∈ parts) → (∃ bytes, .program bytes ∈ parts) →
    ∃ platform program made,
      (parts.filterMap Part.platform?).getLast? = some platform ∧
      (parts.filterMap Part.program?).getLast? = some program ∧
      result = .ok made ∧
      Made platform ((parts.filterMap Part.dialect?).getLast?.getD ⟨false, true⟩) program made

/-- The sentences tell the two errors apart. -/
theorem exists_message_iff {α : Type} {result : Except SetupError α} (error : SetupError) :
    (∃ e, result = .error e ∧ e.message = error.message) ↔ result = .error error := by
  constructor
  · rintro ⟨e, rfl, hmessage⟩
    cases e <;> cases error
    case noPlatform.noPlatform | noProgram.noProgram => rfl
    all_goals exact absurd hmessage (by decide)
  · intro h
    exact ⟨error, h, rfl⟩

theorem build_eq_noPlatform_iff {s : Setup π} :
    s.build = .error .noPlatform ↔ s.platform = none := by
  obtain ⟨platform, dialect, program⟩ := s
  cases platform <;> cases program <;> simp [build]

theorem build_eq_noProgram_iff {s : Setup π} :
    s.build = .error .noProgram ↔ s.platform ≠ none ∧ s.program = none := by
  obtain ⟨platform, dialect, program⟩ := s
  cases platform <;> cases program <;> simp [build]

/-- **What is built from parts**, in whatever order they are given and however often. -/
theorem builds (parts : List (Part π)) : Builds parts (({} : Setup π).giveAll parts).build := by
  have hplatform : (parts.filterMap Part.platform?).getLast? = none ↔ ∀ p, .platform p ∉ parts :=
    getLast?_filterMap_eq_none_iff Part.platform?_eq_some_iff
  have hprogram : (parts.filterMap Part.program?).getLast? = none ↔ ∀ b, .program b ∉ parts :=
    getLast?_filterMap_eq_none_iff Part.program?_eq_some_iff
  have hgiven : (parts.filterMap Part.platform?).getLast? ≠ none ↔ ∃ p, .platform p ∈ parts :=
    hplatform.not.trans not_forall_not
  rw [giveAll_eq]
  refine ⟨?_, ?_, ?_⟩
  · exact (exists_message_iff .noPlatform).trans (build_eq_noPlatform_iff.trans hplatform)
  · exact (exists_message_iff .noProgram).trans
      (build_eq_noProgram_iff.trans (and_congr hgiven hprogram))
  · intro hsomePlatform hsomeProgram
    obtain ⟨platform, hlast⟩ := Option.ne_none_iff_exists'.mp (hgiven.mpr hsomePlatform)
    obtain ⟨program, hlast'⟩ := Option.ne_none_iff_exists'.mp
      ((hprogram.not.trans not_forall_not).mpr hsomeProgram)
    refine ⟨platform, program, _, hlast, hlast', ?_, made_load platform _ program⟩
    rw [hlast, hlast']
    rfl

end Setup

/-! ## 4. Loading and building -/

namespace Emulator

variable {π : Type} [Platform π]

/-- **Programs are loaded in turn**, into every machine and also where one is built. -/
theorem loadsInTurn_builds (e : Emulator π) (programs : List (List UInt8))
    (parts : List (Setup.Part π)) :
    LoadsInTurn e programs (e.performAll (programs.map .load)) ∧
      Setup.Builds parts (({} : Setup π).giveAll parts).build := by
  have hloaded := e.performAll_load programs
  refine ⟨loadsInTurn_of_eq ?_ ?_, Setup.builds parts⟩
  · rw [hloaded]
  · rw [hloaded]

end Emulator

end Chip8
