/-
# The screen as a set of lit cells

A screen packs its cells into bytes; seen from outside it is the set of the cells that are lit.

* `ext_cell?`: screens that agree on every cell are equal.  `getElem?_bits` ties the list of all
  bits to the cells, and `lit_eq_card` the count of lit pixels to the size of the set.
* `cell?_draw`: drawing a list of cells switches each of them as often as it is listed, so the order
  makes no difference (`fst_draw_of_perm`), and the same cells again bring the screen back
  (`fst_draw_draw_of_perm`).
* If no cell is listed twice, then drawing is the symmetric difference with the listed cells that
  are on the screen (`litCells_draw`), it reports whether one of them was lit (`snd_draw_iff`), and
  the number of lit cells follows (`lit_draw`).
* The cells of a sprite are such a list (`mem_spriteCells`, `nodup_spriteCells`).
-/
import Mathlib.Data.Finset.Card
import Mathlib.Data.Finset.Range
import Mathlib.Data.Finset.SymmDiff
import Mathlib.Data.List.Nodup
import Chip8.Screen.Sprite

namespace Chip8.Screen

/-! ## 1. Bits and cells -/

/-- Lists of one length, put together: the place in the whole says which list and which place
in it. -/
theorem getElem?_flatMap_of_length {α β : Type} {f : α → List β} {n : Nat} (hn : 0 < n)
    (h : ∀ a, (f a).length = n) (l : List α) (c : Nat) :
    (l.flatMap f)[c]? = l[c / n]?.bind fun a => (f a)[c % n]? := by
  induction l generalizing c with
  | nil => rfl
  | cons a l ih =>
    rw [List.flatMap_cons]
    rcases Nat.lt_or_ge c n with hlt | hge
    · rw [List.getElem?_append_left (by rw [h]; exact hlt), Nat.div_eq_of_lt hlt,
        Nat.mod_eq_of_lt hlt]
      rfl
    · rw [List.getElem?_append_right (by rw [h]; exact hge), h, ih, Nat.mod_eq_sub_mod hge,
        Nat.div_eq_sub_div hn hge, List.getElem?_cons_succ]

theorem length_bitsOf (byte : UInt8) : (bitsOf byte).length = 8 := by
  rw [bitsOf, List.length_map, List.length_range]

/-- **The bits of a screen are its cells in order.** -/
theorem getElem?_bits (s : Screen) (c : Nat) : s.bits[c]? = s.cell? c := by
  rw [bits, getElem?_flatMap_of_length (by decide) length_bitsOf, cell?, Vector.getElem?_toList]
  cases s.bytes[c / 8]? with
  | none => rfl
  | some byte => simp [bitsOf, List.getElem?_range (Nat.mod_lt c (by decide : 0 < 8))]

theorem eq_of_bit {a b : UInt8} (h : ∀ k < 8, bit a k = bit b k) : a = b := by
  refine UInt8.toNat_inj.mp (Nat.eq_of_testBit_eq fun j => ?_)
  rcases Nat.lt_or_ge j 8 with hj | hj
  · have hbit := h (7 - j) (by omega)
    rwa [bit, bit, Nat.sub_sub_self (Nat.le_of_lt_succ hj)] at hbit
  · have hpow : 2 ^ 8 ≤ 2 ^ j := Nat.pow_le_pow_right (by decide) hj
    rw [Nat.testBit_lt_two_pow (Nat.lt_of_lt_of_le a.toNat_lt hpow),
      Nat.testBit_lt_two_pow (Nat.lt_of_lt_of_le b.toNat_lt hpow)]

/-- **A screen is what its cells are.** -/
theorem ext_cell? {s t : Screen} (h : ∀ c, s.cell? c = t.cell? c) : s = t := by
  refine Screen.ext (Vector.ext fun j hj => eq_of_bit fun k hk => ?_)
  have hcell := h (8 * j + k)
  have hdiv : (8 * j + k) / 8 = j := by omega
  have hmod : (8 * j + k) % 8 = k := by omega
  rw [cell?, cell?, hdiv, hmod, Vector.getElem?_eq_getElem hj,
    Vector.getElem?_eq_getElem hj] at hcell
  exact Option.some.inj hcell

/-! ## 2. The set of lit cells -/

/-- The cells that are lit. -/
def litCells (s : Screen) : Finset Nat := (Finset.range cells).filter fun c => s.cell? c = some true

theorem lt_of_cell?_eq_some {s : Screen} {c : Nat} {lit : Bool} (h : s.cell? c = some lit) :
    c < cells := by
  by_contra hout
  rw [cell?_eq_none_iff.mpr (Nat.le_of_not_lt hout)] at h
  cases h

theorem mem_litCells {s : Screen} {c : Nat} : c ∈ s.litCells ↔ s.cell? c = some true := by
  rw [litCells, Finset.mem_filter, Finset.mem_range, and_iff_right_iff_imp]
  exact lt_of_cell?_eq_some

/-- A cell of the screen is lit or dark. -/
theorem exists_cell?_eq_some {s : Screen} {c : Nat} (hc : c < cells) :
    ∃ lit, s.cell? c = some lit := by
  rw [← Option.ne_none_iff_exists', ne_eq, cell?_eq_none_iff]
  exact Nat.not_le_of_lt hc

/-- The bits of a screen say which of its cells are in the set. -/
theorem bits_eq_map (s : Screen) :
    s.bits = (List.range cells).map fun c => decide (c ∈ s.litCells) := by
  refine List.ext_getElem? fun c => ?_
  rw [getElem?_bits, List.getElem?_map]
  rcases Nat.lt_or_ge c cells with hc | hc
  · obtain ⟨lit, hlit⟩ := exists_cell?_eq_some hc
    rw [List.getElem?_range hc, hlit]
    simp [mem_litCells, hlit]
  · rw [cell?_eq_none_iff.mpr hc, List.getElem?_eq_none (by rwa [List.length_range])]
    rfl

/-- **The number of lit pixels** is the size of the set. -/
theorem lit_eq_card (s : Screen) : s.lit = s.litCells.card := by
  let lits := (List.range cells).filter fun c => decide (c ∈ s.litCells)
  have hlits : s.litCells = lits.toFinset := by
    ext c
    have hon : c ∈ s.litCells → c < cells := fun h => Finset.mem_range.mp (Finset.mem_filter.mp h).1
    simp only [lits, List.mem_toFinset, List.mem_filter, List.mem_range, decide_eq_true_eq]
    exact ⟨fun h => ⟨hon h, h⟩, And.right⟩
  have hcount : s.lit = lits.length := by
    rw [lit, bits_eq_map, List.count_eq_countP, List.countP_map, List.countP_eq_length_filter]
    simp [lits, Function.comp_def]
  rw [hcount, hlits, List.toFinset_card_of_nodup (List.nodup_range.filter _)]

/-! ## 3. Drawing -/

/-- **Drawing a list of cells** switches each cell as often as it is listed. -/
theorem cell?_draw (s : Screen) (cs : List Nat) (d : Nat) :
    (s.draw cs).1.cell? d = (s.cell? d).map fun lit => lit ^^ decide (cs.count d % 2 = 1) := by
  induction cs generalizing s with
  | nil => simp [draw]
  | cons c rest ih =>
    have hdraw : (s.draw (c :: rest)).1 = ((s.flip c).draw rest).1 := rfl
    rw [hdraw, ih, cell?_flip, Option.map_map]
    refine congrArg (Option.map · (s.cell? d)) (funext fun lit => ?_)
    rw [Function.comp_apply, List.count_cons]
    by_cases h : d = c
    · subst h
      rcases Nat.mod_two_eq_zero_or_one (rest.count d) with heven | hodd
      · simp [heven, Nat.add_mod]
      · simp [hodd, Nat.add_mod]
    · simp [h, Ne.symm h]

/-- Drawing two lists in turn is drawing them as one. -/
theorem fst_draw_append (s : Screen) (cs ds : List Nat) :
    (s.draw (cs ++ ds)).1 = ((s.draw cs).1.draw ds).1 := by
  rw [draw_fst, draw_fst, draw_fst, List.foldl_append]

/-- **The order of the cells does not matter.** -/
theorem fst_draw_of_perm (s : Screen) {cs ds : List Nat} (h : cs.Perm ds) :
    (s.draw cs).1 = (s.draw ds).1 := by
  refine ext_cell? fun c => ?_
  rw [cell?_draw, cell?_draw, h.count_eq]

/-- **Drawing the same cells again undoes it**, in whatever order. -/
theorem fst_draw_draw_of_perm (s : Screen) {cs ds : List Nat} (h : cs.Perm ds) :
    ((s.draw cs).1.draw ds).1 = s := by
  refine ext_cell? fun c => ?_
  have heven : ¬ (cs ++ ds).count c % 2 = 1 := by
    rw [List.count_append, h.count_eq]
    omega
  rw [← fst_draw_append, cell?_draw, decide_eq_false heven]
  simp

/-- The cells of a list that are on the screen. -/
def onScreen (cs : List Nat) : Finset Nat := (Finset.range cells).filter (· ∈ cs)

theorem mem_onScreen {cs : List Nat} {c : Nat} : c ∈ onScreen cs ↔ c < cells ∧ c ∈ cs := by
  rw [onScreen, Finset.mem_filter, Finset.mem_range]

section Nodup

variable {s : Screen} {cs : List Nat} (h : cs.Nodup)

include h

/-- A cell that is listed once is switched, and any other is not. -/
theorem cell?_draw_of_nodup (d : Nat) :
    (s.draw cs).1.cell? d = (s.cell? d).map fun lit => lit ^^ decide (d ∈ cs) := by
  rw [cell?_draw]
  by_cases hd : d ∈ cs
  · simp [hd, List.count_eq_one_of_mem h hd]
  · simp [hd, List.count_eq_zero_of_not_mem hd]

/-- **Drawing is a symmetric difference.** -/
theorem litCells_draw : (s.draw cs).1.litCells = symmDiff s.litCells (onScreen cs) := by
  ext c
  rw [Finset.mem_symmDiff, mem_litCells, mem_litCells, mem_onScreen, cell?_draw_of_nodup h]
  rcases Nat.lt_or_ge c cells with hc | hc
  · obtain ⟨lit, hlit⟩ := exists_cell?_eq_some hc
    rw [hlit]
    cases lit <;> simp [hc]
  · rw [cell?_eq_none_iff.mpr hc]
    simp [Nat.not_lt_of_le hc]

/-- **Drawing reports a collision** exactly if one of the cells was lit. -/
theorem snd_draw_iff : (s.draw cs).2 = true ↔ ∃ c ∈ cs, s.cell? c = some true := by
  induction cs generalizing s with
  | nil => simp [draw]
  | cons c rest ih =>
    obtain ⟨hfresh, hrest⟩ := List.nodup_cons.mp h
    have hdraw : (s.draw (c :: rest)).2
        = (((s.cell? c).map fun lit => lit && true).getD false || ((s.flip c).draw rest).2) := rfl
    have hfirst : ((s.cell? c).map fun lit => lit && true).getD false = true ↔
        s.cell? c = some true := by
      cases s.cell? c <;> simp
    have hlater : ∀ d ∈ rest, ((s.flip c).cell? d = some true ↔ s.cell? d = some true) := by
      intro d hd
      have hne : d ≠ c := fun e => hfresh (e ▸ hd)
      rw [cell?_flip]
      simp [hne]
    rw [hdraw, Bool.or_eq_true, hfirst, ih hrest, List.exists_mem_cons_iff]
    refine or_congr_right (exists_congr fun d => ?_)
    exact and_congr_right (hlater d)

/-- **The number of lit pixels after drawing**: each of the cells adds one, unless it was lit, when
it takes one off. -/
theorem lit_draw :
    (s.draw cs).1.lit + 2 * (onScreen cs ∩ s.litCells).card = s.lit + (onScreen cs).card := by
  have hlit := Finset.card_sdiff_add_card_inter s.litCells (onScreen cs)
  have hon := Finset.card_sdiff_add_card_inter (onScreen cs) s.litCells
  have hunion : (symmDiff s.litCells (onScreen cs)).card
      = (s.litCells \ onScreen cs).card + (onScreen cs \ s.litCells).card :=
    Finset.card_union_of_disjoint disjoint_sdiff_sdiff
  rw [lit_eq_card, lit_eq_card, litCells_draw h, hunion]
  rw [Finset.inter_comm] at hlit
  omega

end Nodup

/-! ## 4. The cells of a sprite -/

/-- A sprite has no cell before its first one. -/
theorem le_of_mem_spriteCells {origin c : Nat} {rows : List UInt8}
    (h : c ∈ spriteCells origin rows) : origin ≤ c := by
  induction rows generalizing origin with
  | nil => cases h
  | cons row rest ih =>
    rcases List.mem_append.mp h with hrow | hrest
    · obtain ⟨k, -, rfl⟩ := List.mem_map.mp hrow
      exact Nat.le_add_right origin k
    · exact Nat.le_trans (Nat.le_add_right origin width) (ih hrest)

/-- **The cells of a sprite**: those under the set bits of its rows. -/
theorem mem_spriteCells {origin c : Nat} {rows : List UInt8} :
    c ∈ spriteCells origin rows ↔
      ∃ r < rows.length, ∃ k < 8, c = origin + width * r + k ∧ bit (rows[r]?.getD 0) k = true := by
  induction rows generalizing origin with
  | nil => simp [spriteCells]
  | cons row rest ih =>
    rw [spriteCells, List.mem_append, ih]
    constructor
    · rintro (hrow | ⟨r, hr, k, hk, rfl, hbit⟩)
      · obtain ⟨k, hk, rfl⟩ := List.mem_map.mp hrow
        obtain ⟨hk, hbit⟩ := List.mem_filter.mp hk
        exact ⟨0, Nat.succ_pos _, k, List.mem_range.mp hk, rfl, hbit⟩
      · refine ⟨r + 1, Nat.succ_lt_succ hr, k, hk, ?_, hbit⟩
        rw [Nat.mul_add]
        omega
    · rintro ⟨r, hr, k, hk, rfl, hbit⟩
      cases r with
      | zero =>
        refine Or.inl (List.mem_map.mpr ⟨k, List.mem_filter.mpr ⟨List.mem_range.mpr hk, hbit⟩, ?_⟩)
        rfl
      | succ r =>
        refine Or.inr ⟨r, Nat.lt_of_succ_lt_succ hr, k, hk, ?_, hbit⟩
        rw [Nat.mul_add]
        omega

/-- **No cell of a sprite is met twice**: rows are eight cells wide and 64 apart. -/
theorem nodup_spriteCells (origin : Nat) (rows : List UInt8) : (spriteCells origin rows).Nodup := by
  induction rows generalizing origin with
  | nil => exact List.nodup_nil
  | cons row rest ih =>
    refine List.nodup_append.mpr ⟨?_, ih _, ?_⟩
    · exact (List.nodup_range.filter _).map fun _ _ => Nat.add_left_cancel
    · rintro c hc d hd rfl
      obtain ⟨k, hk, rfl⟩ := List.mem_map.mp hc
      have hlt := List.mem_range.mp (List.mem_filter.mp hk).1
      have hle : origin + 64 ≤ origin + k := le_of_mem_spriteCells hd
      omega

end Chip8.Screen
