/-
# The instruction format

An instruction is shown by a pattern, four digits of which some are letters.  That is also how its
word is put together, and words and instructions stand for each other:

* `digits_encode`: the digits of an instruction's word are those of its pattern, with the letters
  replaced by the digits of the operands.  The pattern knows nothing of `encode`, so the two cannot
  have gone wrong in the same place.
* `decode_encode`: an instruction that was written is read as it was.  The other direction is
  `encode_of_decode`; only the last digit of `5XY?` and `9XY?` is not read, and written as zero.
* `decode_encode_ne_unknown`: a word that fits no pattern is not that of an instruction.

`instructionFormat` puts these together.
-/
import Mathlib
import Chip8.Proofs.Instruction.Words
import Chip8.Proofs.Machine.Access

namespace Chip8

open Numeral (digit digits)

namespace Instruction

/-! ## 1. Words by their patterns -/

/-- The number for which a letter of the pattern stands: X and Y for a register, N for a number of
as many digits as the letter is repeated. -/
def letterValue : Instruction → Char → Nat
  | .routine t, _ | .jump t, _ | .call t, _ | .setIndex t, _ | .jumpPlus t, _ => t.val
  | .skipEqual x b, c | .skipUnequal x b, c | .setByte x b, c | .addByte x b, c
  | .random x b, c => if c = 'X' then x.val else b.toNat
  | .skipSame x y, c | .combine _ x y, c | .skipDifferent x y, c =>
    if c = 'X' then x.val else y.val
  | .draw x y rows, c => if c = 'X' then x.val else if c = 'Y' then y.val else rows.val
  | .skipDown x, _ | .skipUp x, _ | .readDelay x, _ | .waitKey x, _ | .setDelay x, _
  | .setSound x, _ | .addIndex x, _ | .pointGlyph x, _ | .storeDecimal x, _
  | .storeRegisters x, _ | .loadRegisters x, _ => x.val
  | .clear, _ | .ret, _ => 0

/-- Some characters with their letters X, Y and N replaced by the digits of numbers: of a letter
that is repeated, the last one is the last digit. -/
def spell (value : Char → Nat) : List Char → List Char
  | [] => []
  | c :: rest =>
    (if c ∈ ['X', 'Y', 'N'] then digit (value c / 16 ^ rest.count c % 16) else c)
      :: spell value rest

/-- The digits of an instruction's word as its pattern gives them; a pattern starts with a mark that
stands for nothing. -/
def spelling (i : Instruction) : List Char := spell i.letterValue i.pattern.toList.tail

/-- The digits of a number that was put together from four of them. -/
theorem digits_of_eq {n a b c d : Nat} (h : n = a * 4096 + b * 256 + c * 16 + d) (ha : a < 16)
    (hb : b < 16) (hc : c < 16) (hd : d < 16) :
    digits 16 4 n = [digit a, digit b, digit c, digit d] := by
  have h₁ : n / 16 / 16 / 16 % 16 = a := by omega
  have h₂ : n / 16 / 16 % 16 = b := by omega
  have h₃ : n / 16 % 16 = c := by omega
  have h₄ : n % 16 = d := by omega
  simp only [digits, List.nil_append, List.cons_append, h₁, h₂, h₃, h₄]

theorem digits_word {f : Nat} (hf : f < 16) (t : Address) :
    digits 16 4 (word f t.val).toNat
      = [digit f, digit (t.val / 16 ^ 2 % 16), digit (t.val / 16 ^ 1 % 16),
        digit (t.val / 16 ^ 0 % 16)] := by
  have ht := t.isLt
  apply digits_of_eq _ hf <;> try exact Nat.mod_lt _ (by decide)
  rw [toNat_word hf ht]
  omega

theorem digits_wordXNN {f : Nat} (hf : f < 16) (x : Register) (b : UInt8) :
    digits 16 4 (wordXNN f x b).toNat
      = [digit f, digit (x.val / 16 ^ 0 % 16), digit (b.toNat / 16 ^ 1 % 16),
        digit (b.toNat / 16 ^ 0 % 16)] := by
  have hx := x.isLt
  have hb := b.toNat_lt
  apply digits_of_eq _ hf <;> try exact Nat.mod_lt _ (by decide)
  rw [wordXNN, toNat_word hf (by omega)]
  omega

theorem digits_wordXYN {f n : Nat} (hf : f < 16) (hn : n < 16) (x y : Register) :
    digits 16 4 (wordXYN f x y n).toNat
      = [digit f, digit (x.val / 16 ^ 0 % 16), digit (y.val / 16 ^ 0 % 16),
        digit (n / 16 ^ 0 % 16)] := by
  have hx := x.isLt
  have hy := y.isLt
  apply digits_of_eq _ hf <;> try exact Nat.mod_lt _ (by decide)
  rw [wordXYN, toNat_word hf (by omega)]
  omega

/-- **A word is written as its pattern says.** -/
theorem digits_encode (i : Instruction) : digits 16 4 i.encode.toNat = i.spelling := by
  rw [spelling]
  cases i with
  | clear | ret => decide
  | routine t | jump t | call t | setIndex t | jumpPlus t =>
    rw [pattern]
    exact digits_word (by decide) t
  | skipEqual x b | skipUnequal x b | setByte x b | addByte x b | random x b =>
    rw [pattern]
    exact digits_wordXNN (by decide) x b
  | skipSame x y | skipDifferent x y =>
    rw [pattern]
    exact digits_wordXYN (by decide) (by decide) x y
  | combine op x y =>
    cases op <;> rw [pattern] <;> exact digits_wordXYN (by decide) (by decide) x y
  | draw x y rows =>
    rw [pattern]
    exact digits_wordXYN (by decide) rows.isLt x y
  | skipDown x | skipUp x | readDelay x | waitKey x | setDelay x | setSound x =>
    rw [pattern]
    exact digits_wordXNN (by decide) x _
  | addIndex x | pointGlyph x | storeDecimal x | storeRegisters x | loadRegisters x =>
    rw [pattern]
    exact digits_wordXNN (by decide) x _

/-! ## 2. Reading what was written -/

/-- The instructions that have a word: no routine is at the addresses whose words would be the zero
word and those of `00E0` and `00EE`. -/
def HasWord : Instruction → Prop
  | .routine t => t.val ∉ [0x000, 0x0E0, 0x0EE]
  | _ => True

/-- The fields of a word that was put together from a digit and an address. -/
theorem fields_word {f : Nat} (hf : f < 16) (t : Address) :
    Word.family (word f t.val) = f ∧ Word.nnn (word f t.val) = t := by
  have ht := t.isLt
  have hword : (word f t.val).toNat = f * 4096 + t.val := toNat_word hf ht
  refine ⟨?_, Fin.ext ?_⟩
  · rw [Word.family]
    omega
  · rw [Word.val_nnn]
    omega

section Reading

variable {f : Nat} {i : Instruction} (hf : f < 16) (h0 : f ≠ 0)

include hf h0

theorem decode_word (t : Address)
    (h : ∀ w, Word.family w = f → Word.nnn w = t → ofWord? w = some i) :
    decode (word f t.val) = .ok i := by
  obtain ⟨hfamily, ht⟩ := fields_word hf t
  exact decode_eq_ok_iff.mpr ⟨Word.ne_zero_of_family hfamily h0, h _ hfamily ht⟩

theorem decode_wordXNN (x : Register) (b : UInt8)
    (h : ∀ w, Word.family w = f → Word.x w = x → Word.nn w = b → ofWord? w = some i) :
    decode (wordXNN f x b) = .ok i := by
  obtain ⟨hfamily, hx, hb⟩ := fields_wordXNN hf x b
  exact decode_eq_ok_iff.mpr ⟨Word.ne_zero_of_family hfamily h0, h _ hfamily hx hb⟩

theorem decode_wordXYN (x y : Register) (n : Fin 16)
    (h : ∀ w, Word.family w = f → Word.x w = x → Word.y w = y → Word.n w = n →
      ofWord? w = some i) :
    decode (wordXYN f x y n.val) = .ok i := by
  obtain ⟨hfamily, hx, hy, hn⟩ := fields_wordXYN hf n.isLt x y
  exact decode_eq_ok_iff.mpr
    ⟨Word.ne_zero_of_family hfamily h0, h _ hfamily hx hy (Fin.ext hn)⟩

end Reading

theorem isRoutine_word {t : Address} (ht : (routine t).HasWord) :
    Word.IsRoutine (word 0 t.val) := by
  have hlt := t.isLt
  have hword : (word 0 t.val).toNat = t.val := by
    rw [toNat_word (by decide) hlt]
    omega
  simp only [HasWord, List.mem_cons, List.not_mem_nil, or_false, not_or] at ht
  obtain ⟨hzero, hclear, hret⟩ := ht
  refine ⟨?_, ?_, ?_, ?_⟩
  · rw [UInt16.le_iff_toNat_le, hword]
    exact Nat.pos_of_ne_zero hzero
  · rw [UInt16.le_iff_toNat_le, hword]
    exact Nat.le_of_lt_succ hlt
  · exact fun h => hclear (hword.symm.trans (congrArg UInt16.toNat h))
  · exact fun h => hret (hword.symm.trans (congrArg UInt16.toNat h))

/-- **What is written is read as it was.** -/
theorem decode_encode {i : Instruction} (h : i.HasWord) : decode i.encode = .ok i := by
  cases i with
  | routine t =>
    obtain ⟨-, ht⟩ := fields_word (f := 0) (by decide) t
    exact decode_eq_routine_iff.mpr ⟨isRoutine_word h, ht.symm⟩
  | clear | ret => rfl
  | jump t | call t | setIndex t | jumpPlus t =>
    refine decode_word (by decide) (by decide) t fun w hfamily ht => ?_
    simp only [ofWord?, hfamily, ht]
  | skipEqual x b | skipUnequal x b | setByte x b | addByte x b | random x b =>
    refine decode_wordXNN (by decide) (by decide) x b fun w hfamily hx hb => ?_
    simp only [ofWord?, hfamily, hx, hb]
  | skipSame x y | skipDifferent x y =>
    refine decode_wordXYN (by decide) (by decide) x y 0 fun w hfamily hx hy _ => ?_
    simp only [ofWord?, hfamily, hx, hy]
  | combine op x y =>
    refine decode_wordXYN (by decide) (by decide) x y op.nibble fun w hfamily hx hy hn => ?_
    simp only [ofWord?, hfamily, hx, hy, hn, Arithmetic.ofNibble?_nibble, Option.map_some]
  | draw x y rows =>
    refine decode_wordXYN (by decide) (by decide) x y rows fun w hfamily hx hy hn => ?_
    simp only [ofWord?, hfamily, hx, hy, hn]
  | skipDown x | skipUp x | readDelay x | waitKey x | setDelay x | setSound x =>
    refine decode_wordXNN (by decide) (by decide) x _ fun w hfamily hx hb => ?_
    simp only [ofWord?, hfamily, hx, hb]
    rfl
  | addIndex x | pointGlyph x | storeDecimal x | storeRegisters x | loadRegisters x =>
    refine decode_wordXNN (by decide) (by decide) x _ fun w hfamily hx hb => ?_
    simp only [ofWord?, hfamily, hx, hb]
    rfl

/-- **A word without a meaning is not written for any instruction**, be it a routine that has no
word. -/
theorem decode_encode_ne_unknown (i : Instruction) (u : UInt16) :
    decode i.encode ≠ .error (.unknown u) := by
  by_cases h : i.HasWord
  · rw [decode_encode h]
    intro hunknown
    cases hunknown
  · cases i with
    | routine t =>
      have ht : t.val ∈ [0x000, 0x0E0, 0x0EE] := not_not.mp h
      simp only [List.mem_cons, List.not_mem_nil, or_false] at ht
      intro hunknown
      rcases ht with hzero | hclear | hret
      · rw [encode, hzero] at hunknown
        cases hunknown
      · rw [encode, hclear] at hunknown
        cases hunknown
      · rw [encode, hret] at hunknown
        cases hunknown
    | _ => exact absurd trivial h

/-! ## 3. Writing what was read -/

/-- The families in which the last digit is not read. -/
theorem ignoresLastDigit_of_ofWord? {w : UInt16} {i : Instruction} (h : ofWord? w = some i) :
    i.ignoresLastDigit = true ↔ Word.family w = 0x5 ∨ Word.family w = 0x9 := by
  have hfamily := Word.family_lt w
  unfold ofWord? at h
  split at h
  case h_1 h0 =>
    obtain rfl := Option.some.inj h
    simp [(encode_ofSystem h0).1, h0]
  case h_9 h8 =>
    obtain ⟨op, hop, rfl⟩ := Option.map_eq_some_iff.mp h
    simp [ignoresLastDigit, h8]
  case h_15 he =>
    simp [(encode_of_ofKeyTest? h).1, he]
  case h_16 =>
    simp only [imp_false] at *
    simp [(encode_of_ofDevice? h).1, *]
  all_goals
    obtain rfl := Option.some.inj h
    simp [ignoresLastDigit, *]

/-- **What was read has a word.** -/
theorem hasWord_of_decode {w : UInt16} {i : Instruction} (h : decode w = .ok i) : i.HasWord := by
  cases i with
  | routine t =>
    obtain ⟨⟨hpos, hle, hclear, hret⟩, rfl⟩ := decode_eq_routine_iff.mp h
    have hword : (Word.nnn w).val = w.toNat := by
      rw [UInt16.le_iff_toNat_le] at hle
      exact Nat.mod_eq_of_lt (Nat.lt_succ_of_le hle)
    simp only [HasWord, hword, List.mem_cons, List.not_mem_nil, or_false, not_or]
    refine ⟨?_, ?_, ?_⟩
    · rw [UInt16.le_iff_toNat_le] at hpos
      exact Nat.pos_iff_ne_zero.mp hpos
    · exact fun hw => hclear (UInt16.toNat_inj.mp hw)
    · exact fun hw => hret (UInt16.toNat_inj.mp hw)
  | _ => trivial

end Instruction

/-- Whether a field holds a number of as many hexadecimal digits as its name has letters. -/
def Field.IsOperand (f : Field) : Prop := ∃ k < 16 ^ f.name.length, f = .number f.name k

theorem Field.IsOperand.of_length {name : String} {k l : Nat} (hname : name.length = l)
    (hk : k < 16 ^ l) : (Field.number name k).IsOperand :=
  ⟨k, hname.symm ▸ hk, rfl⟩

namespace Instruction

theorem isOperand_of_mem_operands (i : Instruction) : ∀ f ∈ i.operands, f.IsOperand := by
  have hx (x : Register) : (Field.number "x" x.val).IsOperand := .of_length rfl x.isLt
  have hy (y : Register) : (Field.number "y" y.val).IsOperand := .of_length rfl y.isLt
  have hn (n : Fin 16) : (Field.number "n" n.val).IsOperand := .of_length rfl n.isLt
  have hnn (b : UInt8) : (Field.number "nn" b.toNat).IsOperand := .of_length rfl b.toNat_lt
  have hnnn (t : Address) : (Field.number "nnn" t.val).IsOperand := .of_length rfl t.isLt
  cases i <;> simp [operands, hx, hy, hn, hnn, hnnn]

/-! ## 4. Both ways -/

/-- What it means that an instruction was read from a word. -/
structure ReadFrom (i : Instruction) (w : UInt16) : Prop where
  operands : ∀ f ∈ i.operands, f.IsOperand
  hasWord : i.HasWord
  /-- Only in two families does the word lose its last digit. -/
  encode : i.encode = if Word.family w = 0x5 ∨ Word.family w = 0x9 then w - w % 16 else w
  /-- Every register that the instruction looks up by number is there, in every machine. -/
  registers : ∀ m : Machine, ∀ k ∈ i.registerNumbers, ∃ byte, m.v.cells[k]? = some byte
  /-- It looks up no others, -/
  sees : ∀ (m : Machine) byte,
    ((m.only i.registerNumbers).execute byte i).map (Machine.only i.registerNumbers)
      = (m.execute byte i).map (Machine.only i.registerNumbers)
  /-- and it changes no others. -/
  keeps : ∀ (m : Machine) byte (z : Register), z.val ∉ i.registerNumbers →
    (m.execute byte i).machine.v.get z = m.v.get z

theorem readFrom_of_decode {w : UInt16} {i : Instruction} (h : decode w = .ok i) :
    i.ReadFrom w where
  operands := i.isOperand_of_mem_operands
  hasWord := hasWord_of_decode h
  encode := by
    have hlast := ignoresLastDigit_of_ofWord? (decode_eq_ok_iff.mp h).2
    rw [encode_of_decode h]
    simp only [hlast]
  registers m k hk := by
    have hlt : k < 16 := lt_of_mem_registerNumbers hk
    exact ⟨_, Vector.getElem?_eq_getElem hlt⟩
  sees m byte := m.execute_only byte i
  keeps m byte _ hz := m.get_execute_of_not_numbered byte hz

end Instruction

/-- What it means that words and instructions stand for each other. -/
structure InstructionFormat : Prop where
  /-- The word of an instruction has the digits of its pattern. -/
  digits : ∀ i : Instruction, Numeral.digits 16 4 i.encode.toNat = i.spelling
  decode_encode : ∀ i : Instruction, i.HasWord → decode i.encode = .ok i
  readFrom : ∀ w i, decode w = .ok i → i.ReadFrom w
  empty : ∀ w, decode w = .error .empty ↔ w = 0
  /-- A word that fits no pattern is reported as it is, and is not that of an instruction. -/
  unknown : ∀ w u, decode w = .error (.unknown u) → u = w ∧ ∀ i : Instruction, i.encode ≠ w

/-- **Words and instructions stand for each other**, up to a digit that is not read. -/
theorem instructionFormat : InstructionFormat where
  digits := Instruction.digits_encode
  decode_encode _ := Instruction.decode_encode
  readFrom _ _ := Instruction.readFrom_of_decode
  empty _ := decode_eq_empty_iff
  unknown w u h := by
    refine ⟨eq_of_decode_unknown h, ?_⟩
    rintro i rfl
    exact i.decode_encode_ne_unknown u h

end Chip8
