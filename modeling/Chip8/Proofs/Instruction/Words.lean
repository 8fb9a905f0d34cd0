/-
# What a word says about its instruction

`decode` reads a word digit by digit; this module says the same from the other end: which words are
read as a given instruction, and which as none.

* `Word.IsUnknown` lists the nonzero words without a meaning, and `decode_eq_unknown_iff` says that
  the list is complete.
* `encode_of_decode`: an instruction that was read, written again, is the word it was read from. The
  instructions `5XY?` and `9XY?` are the exception, since the last digit of their words is not read.
* From it follows what the word of each single instruction looks like (`eq_of_decode`), without
  going through the decoder again.
-/
import Chip8.Instruction.Coding

namespace Chip8

/-! ## 1. Kinds of words -/

namespace Word

/-- The words that call a routine of the host processor: `0NNN`, apart from the zero word and the
two instructions that have such words. -/
def IsRoutine (w : UInt16) : Prop := 0x0001 ≤ w ∧ w ≤ 0x0FFF ∧ w ≠ 0x00E0 ∧ w ≠ 0x00EE

/-- The words that fit no pattern: in the families `8`, `E` and `F` the last digit, or the last
two, may select no member. -/
def IsUnknown (w : UInt16) : Prop :=
  (family w = 0x8 ∧ (n w).val ∉ [0x0, 0x1, 0x2, 0x3, 0x4, 0x5, 0x6, 0x7, 0xE]) ∨
  (family w = 0xE ∧ (nn w).toNat ∉ [0x9E, 0xA1]) ∨
  (family w = 0xF ∧ (nn w).toNat ∉ [0x07, 0x0A, 0x15, 0x18, 0x1E, 0x29, 0x33, 0x55, 0x65])

instance : DecidablePred IsRoutine := fun _ => inferInstanceAs (Decidable (_ ∧ _))

instance : DecidablePred IsUnknown := fun _ => inferInstanceAs (Decidable (_ ∨ _))

/-! ## 2. The fields of a word as numbers -/

theorem ne_zero_of_family {w : UInt16} {f : Nat} (h : family w = f) (hf : f ≠ 0) : w ≠ 0 := by
  rintro rfl
  exact hf h.symm

theorem family_lt (w : UInt16) : family w < 16 := Nat.div_lt_of_lt_mul w.toNat_lt

@[simp] theorem val_x (w : UInt16) : (x w).val = w.toNat / 256 % 16 := rfl

@[simp] theorem val_y (w : UInt16) : (y w).val = w.toNat / 16 % 16 := rfl

@[simp] theorem val_n (w : UInt16) : (n w).val = w.toNat % 16 := rfl

@[simp] theorem val_nnn (w : UInt16) : (nnn w).val = w.toNat % 4096 := rfl

@[simp] theorem toNat_nn (w : UInt16) : (nn w).toNat = w.toNat % 256 := by
  rw [nn, UInt8.toNat_ofNat']
  omega

end Word

/-! ## 3. Words that are read as nothing -/

theorem Arithmetic.ofNibble?_eq_none_iff {n : Fin 16} :
    ofNibble? n = none ↔ n.val ∉ [0x0, 0x1, 0x2, 0x3, 0x4, 0x5, 0x6, 0x7, 0xE] := by
  revert n
  decide

namespace Instruction

theorem ofKeyTest?_eq_none_iff {x : Register} {k : Nat} :
    ofKeyTest? x k = none ↔ k ∉ [0x9E, 0xA1] := by
  unfold ofKeyTest?
  split <;> simp_all

theorem ofDevice?_eq_none_iff {x : Register} {k : Nat} :
    ofDevice? x k = none ↔ k ∉ [0x07, 0x0A, 0x15, 0x18, 0x1E, 0x29, 0x33, 0x55, 0x65] := by
  unfold ofDevice?
  split <;> simp_all

/-- **The words without a meaning**, whatever the zero word means. -/
theorem ofWord?_eq_none_iff {w : UInt16} : ofWord? w = none ↔ Word.IsUnknown w := by
  have hfamily := Word.family_lt w
  unfold ofWord? Word.IsUnknown
  split
  -- one case for each family, numbered from one on
  case h_9 h =>
    simp only [h, Option.map_eq_none_iff, Arithmetic.ofNibble?_eq_none_iff]
    simp
  case h_15 h =>
    simp only [h, ofKeyTest?_eq_none_iff]
    simp
  case h_16 =>
    -- the last family is what the others leave
    simp only [imp_false] at *
    have h : Word.family w = 0xF := by omega
    simp only [h, ofDevice?_eq_none_iff]
    simp
  all_goals simp [*]

/-! ## 4. Writing what was read -/

/-- The instructions that are read whatever the last digit of the word is. -/
def ignoresLastDigit : Instruction → Bool
  | .skipSame _ _ | .skipDifferent _ _ => true
  | _ => false

section Fields

variable {w : UInt16} {f : Nat} (h : Word.family w = f)

include h

theorem word_rest : word f (w.toNat % 4096) = w := by
  have hsplit : f * 4096 + w.toNat % 4096 = w.toNat := by
    rw [← h, Word.family]
    omega
  rw [word, hsplit, UInt16.ofNat_toNat]

theorem wordXNN_fields : wordXNN f (Word.x w) (Word.nn w) = w := by
  have hrest : (Word.x w).val * 256 + (Word.nn w).toNat = w.toNat % 4096 := by
    rw [Word.toNat_nn, Word.val_x]
    omega
  rw [wordXNN, hrest, word_rest h]

theorem wordXYN_fields : wordXYN f (Word.x w) (Word.y w) (Word.n w).val = w := by
  have hrest : (Word.x w).val * 256 + (Word.y w).val * 16 + (Word.n w).val
      = w.toNat % 4096 := by
    rw [Word.val_x, Word.val_y, Word.val_n]
    omega
  rw [wordXYN, hrest, word_rest h]

/-- Without its last digit. -/
theorem wordXYN_fields_zero : wordXYN f (Word.x w) (Word.y w) 0 = w - w % 16 := by
  have hlast : (w % 16).toNat = w.toNat % 16 := UInt16.toNat_mod w 16
  have hle : w % 16 ≤ w := by
    rw [UInt16.le_iff_toNat_le, hlast]
    exact Nat.mod_le _ _
  have hlt := w.toNat_lt
  apply UInt16.toNat_inj.mp
  rw [UInt16.toNat_sub_of_le _ _ hle, hlast, wordXYN, word, ← h, UInt16.toNat_ofNat',
    Word.family, Word.val_x, Word.val_y]
  omega

end Fields

theorem encode_ofSystem {w : UInt16} (h : Word.family w = 0x0) :
    (ofSystem w).ignoresLastDigit = false ∧ (ofSystem w).encode = w := by
  unfold ofSystem
  split
  · rename_i hclear
    exact ⟨rfl, hclear.symm⟩
  · split
    · rename_i hret
      exact ⟨rfl, hret.symm⟩
    · exact ⟨rfl, word_rest h⟩

theorem encode_of_ofKeyTest? {x : Register} {k : Nat} {i : Instruction}
    (h : ofKeyTest? x k = some i) :
    i.ignoresLastDigit = false ∧ i.encode = wordXNN 0xE x (UInt8.ofNat k) := by
  unfold ofKeyTest? at h
  split at h <;> cases h <;> exact ⟨rfl, rfl⟩

theorem encode_of_ofDevice? {x : Register} {k : Nat} {i : Instruction}
    (h : ofDevice? x k = some i) :
    i.ignoresLastDigit = false ∧ i.encode = wordXNN 0xF x (UInt8.ofNat k) := by
  unfold ofDevice? at h
  split at h <;> cases h <;> exact ⟨rfl, rfl⟩

theorem encode_of_ofWord? {w : UInt16} {i : Instruction} (h : ofWord? w = some i) :
    i.encode = if i.ignoresLastDigit then w - w % 16 else w := by
  have hfamily := Word.family_lt w
  have hnn : UInt8.ofNat (Word.nn w).toNat = Word.nn w := UInt8.ofNat_toNat
  unfold ofWord? at h
  split at h
  -- again numbered by family from one on; grouped by the operands below
  case h_1 h0 =>
    obtain rfl := Option.some.inj h
    obtain ⟨hreads, hword⟩ := encode_ofSystem h0
    rw [hreads, hword]
    rfl
  case h_9 h8 =>
    obtain ⟨op, hop, rfl⟩ := Option.map_eq_some_iff.mp h
    show wordXYN 8 (Word.x w) (Word.y w) op.nibble.val = w
    rw [Arithmetic.nibble_of_ofNibble? hop]
    exact wordXYN_fields h8
  case h_14 hd =>
    obtain rfl := Option.some.inj h
    exact wordXYN_fields hd
  case h_15 he =>
    obtain ⟨hreads, hword⟩ := encode_of_ofKeyTest? h
    rw [hreads, hword, hnn]
    exact wordXNN_fields he
  case h_16 =>
    simp only [imp_false] at *
    have hf : Word.family w = 0xF := by omega
    obtain ⟨hreads, hword⟩ := encode_of_ofDevice? h
    rw [hreads, hword, hnn]
    exact wordXNN_fields hf
  case h_6 | h_10 =>
    obtain rfl := Option.some.inj h
    exact wordXYN_fields_zero ‹_›
  case h_2 | h_3 | h_11 | h_12 =>
    obtain rfl := Option.some.inj h
    exact word_rest ‹_›
  case h_4 | h_5 | h_7 | h_8 | h_13 =>
    obtain rfl := Option.some.inj h
    exact wordXNN_fields ‹_›

end Instruction

/-! ## 5. Reading -/

theorem Instruction.toNat_word {f rest : Nat} (hf : f < 16) (hrest : rest < 4096) :
    (word f rest).toNat = f * 4096 + rest := by
  rw [word, UInt16.toNat_ofNat_of_lt']
  show f * 4096 + rest < 65536
  omega

/-- The fields of a word that was put together from a digit, a register and two digits. -/
theorem Instruction.fields_wordXNN {f : Nat} (hf : f < 16) (x : Register) (b : UInt8) :
    Word.family (wordXNN f x b) = f ∧ Word.x (wordXNN f x b) = x ∧
      Word.nn (wordXNN f x b) = b := by
  have hx := x.isLt
  have hb := b.toNat_lt
  have hword : (wordXNN f x b).toNat = f * 4096 + (x.val * 256 + b.toNat) := by
    rw [wordXNN, toNat_word hf (by omega)]
  refine ⟨?_, Fin.ext ?_, UInt8.toNat_inj.mp ?_⟩
  · rw [Word.family]
    omega
  · rw [Word.val_x]
    omega
  · rw [Word.toNat_nn]
    omega

/-- The fields of a word that was put together from a digit, two registers and a digit. -/
theorem Instruction.fields_wordXYN {f n : Nat} (hf : f < 16) (hn : n < 16) (x y : Register) :
    Word.family (wordXYN f x y n) = f ∧ Word.x (wordXYN f x y n) = x ∧
      Word.y (wordXYN f x y n) = y ∧ (Word.n (wordXYN f x y n)).val = n := by
  have hx := x.isLt
  have hy := y.isLt
  have hword : (wordXYN f x y n).toNat = f * 4096 + (x.val * 256 + y.val * 16 + n) := by
    rw [wordXYN, toNat_word hf (by omega)]
  refine ⟨?_, Fin.ext ?_, Fin.ext ?_, ?_⟩
  · rw [Word.family]
    omega
  · rw [Word.val_x]
    omega
  · rw [Word.val_y]
    omega
  · rw [Word.val_n]
    omega

theorem decode_of_ne_zero {w : UInt16} (h : w ≠ 0) :
    decode w = match Instruction.ofWord? w with
      | some i => .ok i
      | none => .error (.unknown w) := if_neg h

theorem ne_zero_of_decode {w : UInt16} {r : Except DecodeError Instruction} (h : decode w = r)
    (hr : r ≠ .error .empty) : w ≠ 0 := by
  rintro rfl
  exact hr h.symm

theorem decode_eq_ok_iff {w : UInt16} {i : Instruction} :
    decode w = .ok i ↔ w ≠ 0 ∧ Instruction.ofWord? w = some i := by
  constructor
  · intro h
    have hzero : w ≠ 0 := ne_zero_of_decode h nofun
    rw [decode_of_ne_zero hzero] at h
    refine ⟨hzero, ?_⟩
    split at h
    · rename_i j hj
      obtain rfl := Except.ok.inj h
      exact hj
    · cases h
  · rintro ⟨hzero, h⟩
    rw [decode_of_ne_zero hzero, h]

theorem Word.IsUnknown.ne_zero {w : UInt16} (h : Word.IsUnknown w) : w ≠ 0 := by
  rintro rfl
  revert h
  decide

/-- **A word is unknown exactly if it fits no pattern**, and it is reported as it is. -/
theorem decode_eq_unknown_iff {w u : UInt16} :
    decode w = .error (.unknown u) ↔ u = w ∧ Word.IsUnknown w := by
  constructor
  · intro h
    refine ⟨eq_of_decode_unknown h, Instruction.ofWord?_eq_none_iff.mp ?_⟩
    rw [decode_of_ne_zero (ne_zero_of_decode h nofun)] at h
    split at h
    · cases h
    · assumption
  · rintro ⟨rfl, h⟩
    rw [decode_of_ne_zero h.ne_zero, Instruction.ofWord?_eq_none_iff.mpr h]

example : decode 0x8AB8 = .error (.unknown 0x8AB8) := decode_eq_unknown_iff.mpr ⟨rfl, by decide⟩

/-- **What was read is written as it was**, up to a digit that was not read. -/
theorem encode_of_decode {w : UInt16} {i : Instruction} (h : decode w = .ok i) :
    i.encode = if i.ignoresLastDigit then w - w % 16 else w :=
  Instruction.encode_of_ofWord? (decode_eq_ok_iff.mp h).2

theorem eq_of_decode {w : UInt16} {i : Instruction} (h : decode w = .ok i)
    (hi : i.ignoresLastDigit = false) : w = i.encode := by
  have hencode := encode_of_decode h
  rw [hi] at hencode
  exact hencode.symm

/-! ## 6. The words of single instructions -/

theorem decode_eq_routine_iff {w : UInt16} {t : Address} :
    decode w = .ok (.routine t) ↔ Word.IsRoutine w ∧ t = Word.nnn w := by
  constructor
  · intro h
    have hword : w.toNat = t.val := by
      rw [eq_of_decode h rfl, Instruction.encode, Instruction.toNat_word (by decide) t.isLt]
      omega
    have ht := t.isLt
    have hzero : w ≠ 0 := ne_zero_of_decode h nofun
    refine ⟨⟨?_, ?_, ?_, ?_⟩, ?_⟩
    · have hpos : w.toNat ≠ 0 := fun h0 => hzero (UInt16.toNat_inj.mp h0)
      rw [UInt16.le_iff_toNat_le]
      exact Nat.pos_of_ne_zero hpos
    · rw [UInt16.le_iff_toNat_le, hword]
      exact Nat.le_of_lt_succ ht
    · rintro rfl
      cases h
    · rintro rfl
      cases h
    · apply Fin.ext
      rw [Word.val_nnn]
      omega
  · rintro ⟨⟨hpos, hle, hclear, hret⟩, rfl⟩
    have hfamily : Word.family w = 0x0 :=
      Nat.div_eq_of_lt (Nat.lt_succ_of_le (UInt16.le_iff_toNat_le.mp hle))
    refine decode_eq_ok_iff.mpr ⟨?_, ?_⟩
    · rintro rfl
      exact absurd hpos (by decide)
    · simp only [Instruction.ofWord?, hfamily, Instruction.ofSystem, if_neg hclear, if_neg hret]

/-- The word of a routine is its operand. -/
theorem ofNat_of_decode_routine {w : UInt16} {t : Address} (h : decode w = .ok (.routine t)) :
    UInt16.ofNat t.val = w := by
  rw [eq_of_decode h rfl, Instruction.encode, Instruction.word, Nat.zero_mul, Nat.zero_add]

theorem decode_eq_clear_iff {w : UInt16} : decode w = .ok .clear ↔ w = 0x00E0 := by
  constructor
  · intro h
    exact eq_of_decode h rfl
  · rintro rfl
    rfl

theorem decode_eq_ret_iff {w : UInt16} : decode w = .ok .ret ↔ w = 0x00EE := by
  constructor
  · intro h
    exact eq_of_decode h rfl
  · rintro rfl
    rfl

theorem decode_eq_call_iff {w : UInt16} {t : Address} :
    decode w = .ok (.call t) ↔ Word.family w = 0x2 ∧ t = Word.nnn w := by
  constructor
  · intro h
    have hword : w.toNat = 0x2 * 4096 + t.val := by
      rw [eq_of_decode h rfl, Instruction.encode, Instruction.toNat_word (by decide) t.isLt]
    have ht := t.isLt
    refine ⟨?_, Fin.ext ?_⟩
    · rw [Word.family]
      omega
    · rw [Word.val_nnn]
      omega
  · rintro ⟨hfamily, rfl⟩
    refine decode_eq_ok_iff.mpr ⟨Word.ne_zero_of_family hfamily (by decide), ?_⟩
    simp only [Instruction.ofWord?, hfamily]

theorem decode_eq_combine_iff {w : UInt16} {op : Arithmetic} {x y : Register} :
    decode w = .ok (.combine op x y) ↔
      Word.family w = 0x8 ∧ Word.n w = op.nibble ∧ x = Word.x w ∧ y = Word.y w := by
  constructor
  · intro h
    obtain rfl := eq_of_decode h rfl
    obtain ⟨hfamily, hx, hy, hn⟩ :=
      Instruction.fields_wordXYN (f := 0x8) (by decide) op.nibble.isLt x y
    exact ⟨hfamily, Fin.ext hn, hx.symm, hy.symm⟩
  · rintro ⟨hfamily, hn, rfl, rfl⟩
    refine decode_eq_ok_iff.mpr ⟨Word.ne_zero_of_family hfamily (by decide), ?_⟩
    simp only [Instruction.ofWord?, hfamily, hn, Arithmetic.ofNibble?_nibble, Option.map_some]

theorem decode_eq_random_iff {w : UInt16} {x : Register} {mask : UInt8} :
    decode w = .ok (.random x mask) ↔
      Word.family w = 0xC ∧ x = Word.x w ∧ mask = Word.nn w := by
  constructor
  · intro h
    obtain rfl := eq_of_decode h rfl
    obtain ⟨hfamily, hx, hmask⟩ := Instruction.fields_wordXNN (f := 0xC) (by decide) x mask
    exact ⟨hfamily, hx.symm, hmask.symm⟩
  · rintro ⟨hfamily, rfl, rfl⟩
    refine decode_eq_ok_iff.mpr ⟨Word.ne_zero_of_family hfamily (by decide), ?_⟩
    simp only [Instruction.ofWord?, hfamily]

theorem decode_eq_draw_iff {w : UInt16} {x y : Register} {rows : Fin 16} :
    decode w = .ok (.draw x y rows) ↔
      Word.family w = 0xD ∧ x = Word.x w ∧ y = Word.y w ∧ rows = Word.n w := by
  constructor
  · intro h
    obtain rfl := eq_of_decode h rfl
    obtain ⟨hfamily, hx, hy, hn⟩ :=
      Instruction.fields_wordXYN (f := 0xD) (by decide) rows.isLt x y
    exact ⟨hfamily, hx.symm, hy.symm, (Fin.ext hn).symm⟩
  · rintro ⟨hfamily, rfl, rfl, rfl⟩
    refine decode_eq_ok_iff.mpr ⟨Word.ne_zero_of_family hfamily (by decide), ?_⟩
    simp only [Instruction.ofWord?, hfamily]

/-- The words of the family `E`: their last two digits select the instruction. -/
theorem decode_eq_keyTest_iff {w : UInt16} {x : Register} {k : Nat} {i : Instruction}
    (hk : k < 256) (hi : Instruction.ofKeyTest? x k = some i) :
    decode w = .ok i ↔ Word.family w = 0xE ∧ (Word.nn w).toNat = k ∧
      Instruction.ofKeyTest? (Word.x w) k = some i := by
  obtain ⟨hreads, hencode⟩ := Instruction.encode_of_ofKeyTest? hi
  constructor
  · intro h
    obtain rfl := (eq_of_decode h hreads).trans hencode
    obtain ⟨hfamily, hx, hnn⟩ :=
      Instruction.fields_wordXNN (f := 0xE) (by decide) x (UInt8.ofNat k)
    refine ⟨hfamily, ?_, hx.symm ▸ hi⟩
    rw [hnn, UInt8.toNat_ofNat_of_lt' hk]
  · rintro ⟨hfamily, hnn, hread⟩
    refine decode_eq_ok_iff.mpr ⟨Word.ne_zero_of_family hfamily (by decide), ?_⟩
    simp only [Instruction.ofWord?, hfamily, hnn, hread]

/-- The words of the family `F`: their last two digits select the instruction. -/
theorem decode_eq_device_iff {w : UInt16} {x : Register} {k : Nat} {i : Instruction}
    (hk : k < 256) (hi : Instruction.ofDevice? x k = some i) :
    decode w = .ok i ↔ Word.family w = 0xF ∧ (Word.nn w).toNat = k ∧
      Instruction.ofDevice? (Word.x w) k = some i := by
  obtain ⟨hreads, hencode⟩ := Instruction.encode_of_ofDevice? hi
  constructor
  · intro h
    obtain rfl := (eq_of_decode h hreads).trans hencode
    obtain ⟨hfamily, hx, hnn⟩ :=
      Instruction.fields_wordXNN (f := 0xF) (by decide) x (UInt8.ofNat k)
    refine ⟨hfamily, ?_, hx.symm ▸ hi⟩
    rw [hnn, UInt8.toNat_ofNat_of_lt' hk]
  · rintro ⟨hfamily, hnn, hread⟩
    refine decode_eq_ok_iff.mpr ⟨Word.ne_zero_of_family hfamily (by decide), ?_⟩
    simp only [Instruction.ofWord?, hfamily, hnn, hread]

theorem decode_eq_waitKey_iff {w : UInt16} {x : Register} :
    decode w = .ok (.waitKey x) ↔
      Word.family w = 0xF ∧ (Word.nn w).toNat = 0x0A ∧ x = Word.x w := by
  rw [decode_eq_device_iff (x := x) (k := 0x0A) (by decide) rfl]
  simp [Instruction.ofDevice?, eq_comm]

end Chip8
