/-
# Faults told by their sentences

A run that ends in a fault reports it in one sentence.  The sentence tells everything about the
fault: what kind it is, the word that is to blame if there is one, and the program counter.

* `Fault.words` are the words of each sentence, and `Fault.ofWords?` reads them: the words that do
  not change tell the kinds apart, and hexadecimal numbers are read back however many digits they
  have.
* `ofMessage?_message`: every fault can be read off its sentence.
* `message_identifies_fault`: so no two faults have the same sentence, and where a tick ends in a fault, the
  sentence tells what the machine was stopped by and where.
-/
import Chip8.Proofs.Machine.Diagnosis
import Chip8.Proofs.Numeral

namespace Chip8

/-! ## 1. Words -/

/-- The words of a text, which are separated by single blanks. -/
def wordsOf (text : String) : List String := (text.toList.splitOn ' ').map String.ofList

theorem wordsOf_intercalate {ws : List String} (hne : ws ≠ []) (h : ∀ w ∈ ws, ' ' ∉ w.toList) :
    wordsOf (" ".intercalate ws) = ws := by
  have hblank : " ".toList = [' '] := by decide
  have hopen : ∀ l ∈ ws.map String.toList, ' ' ∉ l := by
    intro l hl
    obtain ⟨w, hw, rfl⟩ := List.mem_map.mp hl
    exact h w hw
  have hlists : ws.map String.toList ≠ [] := fun e => hne (List.map_eq_nil_iff.mp e)
  rw [wordsOf, String.toList_intercalate, hblank, List.splitOn_intercalate ' ' hopen hlists,
    List.map_map]
  exact List.map_id'' (fun w => String.ofList_toList) ws

/-- The number of sixteen bits that a word writes in hexadecimal. -/
def ofHexWord? (text : String) : Option UInt16 :=
  match text.toList with
  | '0' :: 'x' :: digits =>
    (Numeral.value? 16 digits).bind fun n => if n < 65536 then some (UInt16.ofNat n) else none
  | _ => none

theorem toList_hexWord (width n : Nat) :
    (hexWord width n).toList = '0' :: 'x' :: (hex width n).toList := by
  rw [hexWord, String.toList_append]
  rfl

theorem ofHexWord?_hexWord (width : Nat) (w : UInt16) :
    ofHexWord? (hexWord width w.toNat) = some w := by
  simp only [ofHexWord?, toList_hexWord, Numeral.value?_hex, Option.bind_some]
  rw [if_pos w.toNat_lt, UInt16.ofNat_toNat]

theorem blank_not_mem_hexWord (width n : Nat) : ' ' ∉ (hexWord width n).toList := by
  rw [toList_hexWord]
  simp [Numeral.blank_not_mem_hex]

namespace Fault

/-! ## 2. Sentences -/

/-- The words of the sentence that reports a fault. -/
def words : Fault → List String
  | .emptyWord pc => ["empty", "opcode", "0x0000", "at", "pc", hexWord 3 pc.toNat]
  | .unknownWord word pc =>
    ["unknown", "opcode", hexWord 4 word.toNat, "at", "pc", hexWord 3 pc.toNat]
  | .routine word pc =>
    ["machine", "code", "routine", hexWord 4 word.toNat, "at", "pc", hexWord 3 pc.toNat,
      "is", "not", "supported"]
  | .stackFull pc => ["call", "stack", "overflow", "at", "pc", hexWord 3 pc.toNat]
  | .stackEmpty pc => ["return", "with", "empty", "call", "stack", "at", "pc", hexWord 3 pc.toNat]

theorem intercalate_words (f : Fault) : " ".intercalate f.words = f.message := by
  -- The fixed words run together by themselves, except after a number.
  have hat : ∀ s : String, s ++ " " ++ "at pc " = s ++ " at pc " := fun s => String.append_assoc ..
  have hnot : ∀ s : String, s ++ " " ++ "is not supported" = s ++ " is not supported" :=
    fun s => String.append_assoc ..
  unfold message
  cases f <;> simp only [words, String.intercalate_cons_cons, String.intercalate_singleton,
    ← String.append_assoc, String.reduceAppend, hat, hnot]

theorem wordsOf_message (f : Fault) : wordsOf f.message = f.words := by
  rw [← intercalate_words]
  refine wordsOf_intercalate ?_ ?_
  · cases f <;> exact List.cons_ne_nil _ _
  · cases f <;> simp [words, blank_not_mem_hexWord]

/-- The fault that is reported in these words. -/
def ofWords? : List String → Option Fault
  | ["empty", "opcode", "0x0000", "at", "pc", pc] => (ofHexWord? pc).map .emptyWord
  | ["unknown", "opcode", word, "at", "pc", pc] =>
    (ofHexWord? word).bind fun word => (ofHexWord? pc).map (.unknownWord word)
  | ["machine", "code", "routine", word, "at", "pc", pc, "is", "not", "supported"] =>
    (ofHexWord? word).bind fun word => (ofHexWord? pc).map (.routine word)
  | ["call", "stack", "overflow", "at", "pc", pc] => (ofHexWord? pc).map .stackFull
  | ["return", "with", "empty", "call", "stack", "at", "pc", pc] =>
    (ofHexWord? pc).map .stackEmpty
  | _ => none

theorem ofWords?_words (f : Fault) : ofWords? f.words = some f := by
  cases f <;> simp [words, ofWords?, ofHexWord?_hexWord]

/-- The fault that a sentence reports. -/
def ofMessage? (text : String) : Option Fault := ofWords? (wordsOf text)

/-- **A fault can be read off its sentence.** -/
theorem ofMessage?_message (f : Fault) : ofMessage? f.message = some f := by
  rw [ofMessage?, wordsOf_message, ofWords?_words]

example : ofMessage? "call stack overflow at pc 0x00A" = some (.stackFull 0x00A) := by decide

/-- What it means that the sentence of a fault identifies it. -/
structure Identified (f : Fault) : Prop where
  /-- The fault can be read off it, -/
  read : ofMessage? f.message = some f
  /-- and no other fault has the same sentence, whatever its kind, its word and its place. -/
  unique : ∀ f' : Fault, f.message = f'.message → f = f'

theorem identified_message (f : Fault) : f.Identified where
  read := f.ofMessage?_message
  unique f' h := by
    have hread := f.ofMessage?_message
    rw [h, ofMessage?_message] at hread
    exact (Option.some.inj hread).symm

end Fault

/-! ## 3. Ticks that end in a fault -/

/-- The faults that name a word are those of words that cannot be executed. -/
theorem Fault.isSome_word?_iff {f : Fault} :
    f.word?.isSome ↔ f.cause = .unknownWord ∨ f.cause = .routine := by
  cases f <;> simp [word?, cause]

namespace Emulator

variable {π : Type} [Platform π]

/-- A machine that raises a fault meets the cause of that fault and no other. -/
theorem meets_iff_of_fault {e : Emulator π} {f : Fault} (h : e.tick.result = .error (.fault f))
    (c : Cause) : e.machine.Meets c ↔ f.cause = c := by
  obtain ⟨c', hc', hstop⟩ := Machine.obstacle_eq_some_iff.mp (result_tick_eq_error_iff.mp h)
  have hcause : f.cause = c' := (congrArg Stop.cause hstop).trans (e.machine.cause_stopFor c')
  constructor
  · intro hc
    have hboth := (Machine.obstacle_of_meets hc').symm.trans (Machine.obstacle_of_meets hc)
    have hsame := congrArg Stop.cause (Option.some.inj hboth)
    rw [Machine.cause_stopFor, Machine.cause_stopFor] at hsame
    exact hcause.trans hsame
  · rintro rfl
    rwa [hcause]

/-- What it means that a text tells of the fault in which the next tick of an emulator ends. -/
structure Explains (text : String) (e : Emulator π) : Prop where
  /-- The result of the tick can be read off the text. -/
  result : (Fault.ofMessage? text).map (fun f => .error (.fault f)) = some e.tick.result
  /-- The kind of the fault is the one cause that applies to the instruction. -/
  kind : ∀ c, (Fault.ofMessage? text).map Fault.cause = some c ↔ e.machine.Meets c
  /-- If the word is to blame, and only then, the text has a word: the one that was fetched. -/
  word : ∀ w, (Fault.ofMessage? text).bind Fault.word? = some w ↔
    w = e.machine.fetch ∧ (e.machine.Meets .unknownWord ∨ e.machine.Meets .routine)
  /-- The place is the program counter, and the tick has not moved it. -/
  place : (Fault.ofMessage? text).map Fault.pc = some e.machine.pc ∧
    e.tick.state.machine.pc = e.machine.pc

theorem explains_message {e : Emulator π} {f : Fault} (h : e.tick.result = .error (.fault f)) :
    Explains f.message e := by
  obtain ⟨c, -, hstop⟩ := Machine.obstacle_eq_some_iff.mp (result_tick_eq_error_iff.mp h)
  obtain ⟨hpc, hword⟩ := Machine.place_of_stopFor hstop
  have hread := f.ofMessage?_message
  refine ⟨?_, ?_, ?_, ?_⟩
  · rw [hread, h]
    rfl
  · intro c
    rw [hread, meets_iff_of_fault h]
    exact Option.some_inj
  · intro w
    rw [hread, meets_iff_of_fault h, meets_iff_of_fault h, ← Fault.isSome_word?_iff,
      Option.bind_some]
    constructor
    · intro hw
      exact ⟨hword w hw, by rw [hw]; rfl⟩
    · rintro ⟨rfl, hsome⟩
      obtain ⟨w, hw⟩ := Option.isSome_iff_exists.mp hsome
      rw [hw, hword w hw]
  · rw [hread, pc_tick_of_fault h, ← hpc]
    exact ⟨rfl, rfl⟩

/-- **A fault is identified by its sentence**, and the sentence of a fault in which a tick ends
explains it. -/
theorem message_identifies_fault (f : Fault) (e : Emulator π) :
    f.Identified ∧ (e.tick.result = .error (.fault f) → Explains f.message e) :=
  ⟨f.identified_message, explains_message⟩

/-- Past the end of memory the program counter has four digits, one more than the width. -/
theorem message_identifies_fault_past_end :
    let e := ((scripted []).performAll [.load [0x60, 0xFF, 0xBF, 0xFF], .tick, .tick]).state
    e.tick.result = .error (.fault (.emptyWord 0x10FE)) ∧
      Explains "empty opcode 0x0000 at pc 0x10FE" e :=
  have hempty : Machine.obstacle? _ = some (Stop.fault (.emptyWord 0x10FE)) := by decide +kernel
  ⟨result_tick_of_obstacle hempty,
    (message_identifies_fault (.emptyWord 0x10FE) _).2 (result_tick_of_obstacle hempty)⟩

end Emulator

end Chip8
