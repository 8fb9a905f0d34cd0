/-
# One picture, seen in many ways

A screen can be looked at through its bytes, by the number of a cell, by column and line, line by
line, and as text.  Each way counts in its own manner, and all of them show the same cells.

* `entryAt?_rows`: the entries of the lines are the cells.
* `textLines_picture`: the text, taken apart at its line feeds, is the lines of the picture;
  `entryAt?_lines` finds the cells in it, and `count_picture` counts them.
* `painted_eq`: the same picture comes about when the pixels are handed out in the order in which
  they are packed, and each lit one is put on a grid of blanks.
* `views_agree` puts these together, with what `plot` does to a cell.
-/
import Chip8.Proofs.Screen.Cells
import Chip8.Proofs.Screen.Coordinates
import Chip8.Screen.Picture

namespace Chip8

/-- What stands in a column of a line. -/
def entryAt? {α : Type} (lines : List (List α)) (x y : Nat) : Option α :=
  lines[y]?.bind fun row => row[x]?

theorem entryAt?_map {α β : Type} (f : α → β) (lines : List (List α)) (x y : Nat) :
    entryAt? (lines.map (·.map f)) x y = (entryAt? lines x y).map f := by
  rw [entryAt?, entryAt?, List.getElem?_map]
  cases lines[y]? with
  | none => rfl
  | some line => exact List.getElem?_map ..

theorem ext_entryAt? {α : Type} {g h : List (List α)} (hlength : g.length = h.length)
    (hentry : ∀ x y, entryAt? g x y = entryAt? h x y) : g = h := by
  refine List.ext_getElem hlength fun y hg hh => List.ext_getElem? fun x => ?_
  have hxy := hentry x y
  rwa [entryAt?, entryAt?, List.getElem?_eq_getElem hg, List.getElem?_eq_getElem hh] at hxy

namespace Screen

/-! ## 1. The lines of the screen -/

theorem length_bits (s : Screen) : s.bits.length = cells := by
  rw [bits_eq_map, List.length_map, List.length_range]

theorem length_rows (s : Screen) : s.rows.length = height := by
  rw [rows, List.length_map, List.length_range]

theorem length_of_mem_rows {s : Screen} {row : List Bool} (h : row ∈ s.rows) :
    row.length = width := by
  obtain ⟨y, hy, rfl⟩ := List.mem_map.mp h
  have hline : y < 32 := List.mem_range.mp hy
  rw [List.length_take, List.length_drop, length_bits, cells, width]
  omega

/-- **An entry of a line is a cell.** -/
theorem entryAt?_rows (s : Screen) (x y : Nat) :
    entryAt? s.rows x y = if x < width ∧ y < height then s.cell? (x + width * y) else none := by
  rw [entryAt?, rows, List.getElem?_map]
  by_cases hy : y < height
  · rw [List.getElem?_range hy, Option.map_some, Option.bind_some, List.getElem?_take,
      List.getElem?_drop, getElem?_bits, Nat.add_comm]
    simp only [hy, and_true]
  · rw [List.getElem?_eq_none (by rwa [List.length_range, ← Nat.not_lt]), if_neg fun h => hy h.2]
    rfl

/-- Pieces of one length, cut off one after the other, put together again. -/
theorem flatMap_take_drop {α : Type} (l : List α) (w n : Nat) :
    ((List.range n).flatMap fun k => (l.drop (w * k)).take w) = l.take (w * n) := by
  induction n with
  | zero =>
    rw [Nat.mul_zero]
    rfl
  | succ n ih =>
    rw [List.range_succ, List.flatMap_append, ih, List.flatMap_singleton, Nat.mul_succ,
      List.take_add]

/-- The lines one after the other are all the cells. -/
theorem flatten_rows (s : Screen) : s.rows.flatten = s.bits := by
  rw [rows, ← List.flatMap_def, flatMap_take_drop]
  exact List.take_of_length_le (Nat.le_of_eq s.length_bits)

/-! ## 2. The lines of the picture -/

/-- What stands between the line feeds of a text, before the first and after the last of them. -/
def textLines (text : String) : List (List Char) := text.toList.splitOn '\n'

theorem splitOn_flatMap {x : Char} {ls : List (List Char)} (h : ∀ l ∈ ls, x ∉ l) :
    (ls.flatMap (· ++ [x])).splitOn x = ls ++ [[]] := by
  induction ls with
  | nil => rfl
  | cons l ls ih =>
    obtain ⟨hl, hls⟩ := List.forall_mem_cons.mp h
    have hfirst : l.splitOnP (· == x) = [l] :=
      List.splitOnP_eq_singleton fun c hc => beq_eq_false_iff_ne.mpr fun e => hl (e ▸ hc)
    have hrest : (ls.flatMap (· ++ [x])).splitOnP (· == x) = ls ++ [[]] := ih hls
    rw [List.flatMap_cons, List.append_assoc, List.singleton_append, List.splitOn,
      List.splitOnP_append_cons (p := (· == x)) l _ (beq_self_eq_true x), hfirst, hrest]
    rfl

theorem mem_lines {s : Screen} {l : List Char} :
    l ∈ s.lines ↔ l = border ∨ ∃ row ∈ s.rows, rowLine row = l := by
  simp only [lines, List.cons_append, List.mem_cons, List.mem_append, List.mem_map,
    List.not_mem_nil, or_false]
  exact ⟨fun h => h.elim .inl Or.symm, fun h => h.elim .inl fun hrow => .inr (.inl hrow)⟩

theorem feed_not_mem_lines {s : Screen} {l : List Char} (h : l ∈ s.lines) : '\n' ∉ l := by
  rcases mem_lines.mp h with rfl | ⟨row, -, rfl⟩
  · decide
  · have hcell : ∀ lit, cellChar lit ≠ '\n' := by decide
    simp [rowLine, hcell]

/-- **The lines of the text are those of the picture**; nothing follows the last line feed. -/
theorem textLines_picture (s : Screen) : textLines s.picture = s.lines ++ [[]] := by
  rw [textLines, picture, String.toList_ofList, splitOn_flatMap fun _ => feed_not_mem_lines]

theorem length_lines (s : Screen) : s.lines.length = 34 := by
  simp [lines, length_rows]

theorem length_of_mem_lines {s : Screen} {l : List Char} (h : l ∈ s.lines) : l.length = 66 := by
  rcases mem_lines.mp h with rfl | ⟨row, hrow, rfl⟩
  · decide
  · simp [rowLine, length_of_mem_rows hrow]

/-- **The character of a cell** stands one column and one line further, inside the border. -/
theorem entryAt?_lines (s : Screen) {x y : Nat} (hx : x < width) (hy : y < height) :
    entryAt? s.lines (x + 1) (y + 1) = (s.cell? (x + width * y)).map cellChar := by
  have hentry := s.entryAt?_rows x y
  rw [if_pos ⟨hx, hy⟩, entryAt?] at hentry
  have hlength : y < s.rows.length := by rwa [length_rows]
  have hrow : s.rows[y]? = some s.rows[y] := List.getElem?_eq_getElem hlength
  have hline : s.lines[y + 1]? = (s.rows.map rowLine)[y]? := by
    rw [lines, List.cons_append, List.getElem?_cons_succ, List.getElem?_append_left]
    rwa [List.length_map, length_rows]
  rw [← hentry, entryAt?, hline, List.getElem?_map, hrow, Option.map_some, Option.bind_some,
    Option.bind_some, rowLine, List.cons_append, List.getElem?_cons_succ,
    List.getElem?_append_left, List.getElem?_map]
  rwa [List.length_map, length_of_mem_rows (List.getElem_mem hlength)]

theorem count_rowLine (row : List Bool) :
    (rowLine row ++ ['\n']).count '#' = row.count true := by
  have hcell : (fun lit => cellChar lit == '#') = (· == true) := by decide
  have hcells : (row.map cellChar).count '#' = row.count true := by
    rw [List.count_eq_countP, List.countP_map, List.count_eq_countP]
    exact congrArg (List.countP · row) hcell
  rw [rowLine, List.count_append, List.cons_append, List.count_cons, List.count_append, hcells]
  rfl

/-- **There are as many `#` in the picture as lit cells.** -/
theorem count_picture (s : Screen) : s.picture.toList.count '#' = s.lit := by
  have hborder : border.count '#' + ['\n'].count '#' = 0 := by decide
  have hrows : (s.rows.flatMap fun row => rowLine row ++ ['\n']).count '#' = s.lit := by
    rw [lit, ← flatten_rows, List.count_flatMap, List.count_flatten]
    exact congrArg List.sum (List.map_congr_left fun row _ => count_rowLine row)
  rw [picture, String.toList_ofList, lines, List.cons_append, List.flatMap_cons,
    List.flatMap_append, List.flatMap_map, List.flatMap_singleton]
  simp only [List.count_append, hborder, Nat.zero_add, Nat.add_zero] at hrows ⊢
  exact hrows

/-! ## 3. Painting -/

/-- A pixel: its place, and whether it is lit. -/
structure Pixel where
  column : Nat
  line : Nat
  lit : Bool

/-- The pixels in the order in which they are packed: one byte after the other, eight bytes to a
line, each from its highest bit on. -/
def pixels (s : Screen) : List Pixel :=
  s.bytes.toList.zipIdx.flatMap fun (byte, j) =>
    (List.range 8).map fun k => ⟨8 * (j % 8) + k, j / 8, bit byte k⟩

/-- Puts a `#` in the place of a pixel. -/
def dot (grid : List (List Char)) (p : Pixel) : List (List Char) :=
  grid.modify p.line fun line => line.set p.column '#'

/-- The screen painted on a grid of blanks, one lit pixel after the other. -/
def painted (s : Screen) : List (List Char) :=
  (s.pixels.filter Pixel.lit).foldl dot (List.replicate height (List.replicate width ' '))

/-- Every cell is handed out as a pixel, and nothing else is. -/
theorem mem_pixels {s : Screen} {p : Pixel} :
    p ∈ s.pixels ↔ p.column < width ∧ s.cell? (p.column + width * p.line) = some p.lit := by
  simp only [pixels, List.mem_flatMap, List.mem_map, List.mem_range, Prod.exists,
    List.mem_zipIdx_iff_getElem?, Vector.getElem?_toList]
  constructor
  · rintro ⟨byte, j, hbyte, k, hk, rfl⟩
    have hdiv : (8 * (j % 8) + k + 64 * (j / 8)) / 8 = j := by omega
    have hmod : (8 * (j % 8) + k + 64 * (j / 8)) % 8 = k := by omega
    have hcolumn : 8 * (j % 8) + k < 64 := by omega
    refine ⟨hcolumn, ?_⟩
    rw [cell?, hdiv, hmod, hbyte]
    rfl
  · obtain ⟨x, y, lit⟩ := p
    rintro ⟨hx, hcell⟩
    obtain ⟨byte, hbyte, hbit⟩ := Option.map_eq_some_iff.mp hcell
    have hcolumn : x < 64 := hx
    have hback : 8 * ((x + 64 * y) / 8 % 8) + (x + 64 * y) % 8 = x := by omega
    have hline : (x + 64 * y) / 8 / 8 = y := by omega
    refine ⟨byte, _, hbyte, (x + 64 * y) % 8, Nat.mod_lt _ (by decide), ?_⟩
    rw [hback, hline]
    exact congrArg (Pixel.mk x y) hbit

theorem entryAt?_dot (grid : List (List Char)) (p : Pixel) (x y : Nat) :
    entryAt? (dot grid p) x y
      = (entryAt? grid x y).map fun c => if p.column = x ∧ p.line = y then '#' else c := by
  rw [entryAt?, entryAt?, dot, List.getElem?_modify]
  cases grid[y]? with
  | none => rfl
  | some line =>
    by_cases hline : p.line = y
    · by_cases hcolumn : p.column = x <;>
        simp [hline, hcolumn, List.getElem?_set', Function.const_def]
    · simp [hline]

/-- **What is painted on a grid** does not depend on the order of the pixels. -/
theorem entryAt?_foldl_dot (grid : List (List Char)) (ps : List Pixel) (x y : Nat) :
    entryAt? (ps.foldl dot grid) x y
      = (entryAt? grid x y).map fun c =>
          if ∃ p ∈ ps, p.column = x ∧ p.line = y then '#' else c := by
  induction ps generalizing grid with
  | nil => simp
  | cons p ps ih =>
    rw [List.foldl_cons, ih, entryAt?_dot, Option.map_map]
    refine congrArg (Option.map · (entryAt? grid x y)) (funext fun c => ?_)
    by_cases hp : p.column = x ∧ p.line = y <;> simp [hp]

theorem length_foldl_dot (grid : List (List Char)) (ps : List Pixel) :
    (ps.foldl dot grid).length = grid.length := by
  induction ps generalizing grid with
  | nil => rfl
  | cons p ps ih => rw [List.foldl_cons, ih, dot, List.length_modify]

/-- **Painting gives the lines of the screen.** -/
theorem painted_eq (s : Screen) : s.painted = s.rows.map (·.map cellChar) := by
  refine ext_entryAt? ?_ fun x y => ?_
  · rw [painted, length_foldl_dot, List.length_replicate, List.length_map, length_rows]
  have hgrid : entryAt? (List.replicate height (List.replicate width ' ')) x y
      = if x < width ∧ y < height then some ' ' else none := by
    rw [entryAt?, List.getElem?_replicate]
    by_cases hy : y < height <;> simp [hy, List.getElem?_replicate]
  have hlit : (∃ p ∈ s.pixels.filter Pixel.lit, p.column = x ∧ p.line = y)
      ↔ x < width ∧ s.cell? (x + width * y) = some true := by
    constructor
    · rintro ⟨⟨_, _, lit⟩, hp, rfl, rfl⟩
      obtain ⟨hmem, rfl : lit = true⟩ := List.mem_filter.mp hp
      exact mem_pixels.mp hmem
    · intro h
      exact ⟨⟨x, y, true⟩, List.mem_filter.mpr ⟨mem_pixels.mpr h, rfl⟩, rfl, rfl⟩
  rw [painted, entryAt?_foldl_dot, hgrid, entryAt?_map, entryAt?_rows]
  simp only [hlit]
  by_cases hxy : x < width ∧ y < height
  · have hcell : x + width * y < cells := by
      obtain ⟨hx, hy⟩ : x < 64 ∧ y < 32 := hxy
      rw [width, cells]
      omega
    obtain ⟨lit, hcell⟩ := s.exists_cell?_eq_some hcell
    rw [if_pos hxy, if_pos hxy, hcell]
    cases lit <;> simp [hxy.1, cellChar]
  · rw [if_neg hxy, if_neg hxy]
    rfl

/-! ## 4. All of it together -/

/-- What a cell looks like in every way there is to look at it. -/
structure Shows (s : Screen) (x y : Nat) (lit : Bool) : Prop where
  /-- A bit of a byte, the leftmost one the highest; -/
  byte : s.bytes[8 * y + x / 8]?.map (fun byte => byte.toNat.testBit (7 - x % 8)) = some lit
  /-- the cell of a number; -/
  cell : s.cell? (x + 64 * y) = some lit
  /-- the pixel at a column and a line; -/
  pixel : s.pixel? (.ofNat x) (.ofNat y) = .ok (some lit)
  /-- an entry of a line; -/
  row : entryAt? s.rows x y = some lit
  /-- a pixel that is handed out; -/
  packed : ⟨x, y, lit⟩ ∈ s.pixels
  /-- a character of the text, inside the border. -/
  text : entryAt? (textLines s.picture) (x + 1) (y + 1) = some (if lit then '#' else ' ')

/-- What plotting does to a screen, and what it answers. -/
structure Plots (s : Screen) (c : Nat) (value : Bool) : Prop where
  /-- The cell is the only one that changes, and it changes if it is there and the value is set. -/
  changes_iff : ∀ d, (s.plot c value).1.cell? d ≠ s.cell? d ↔ d = c ∧ value = true ∧ c < 2048
  /-- There is no answer exactly if there is no such cell, -/
  none_iff : (s.plot c value).2 = none ↔ 2048 ≤ c
  /-- and it says whether a lit cell was switched off. -/
  true_iff : (s.plot c value).2 = some true ↔ s.cell? c = some true ∧ value = true

/-- What it means that all ways to look at a screen agree. -/
structure Agrees (s : Screen) : Prop where
  shows : ∀ x < 64, ∀ y < 32, ∃ lit, s.Shows x y lit
  rows : s.rows.length = 32 ∧ ∀ row ∈ s.rows, row.length = 64
  /-- The picture has 34 lines of 66 characters, and nothing after the last of them. -/
  lines : ∃ ls, textLines s.picture = ls ++ [[]] ∧ ls.length = 34 ∧ ∀ l ∈ ls, l.length = 66
  /-- It is the painted one, framed. -/
  framed : s.picture = String.ofList
    ((border :: s.painted.map (fun row => '|' :: row ++ ['|']) ++ [border]).flatMap (· ++ ['\n']))
  lit : s.lit = s.picture.toList.count '#'
  /-- No other screen has the same picture. -/
  picture_eq_iff : ∀ t : Screen, s.picture = t.picture ↔ s = t
  plots : ∀ c value, s.Plots c value

/-- **One cell, seen in every way.** -/
theorem exists_shows (s : Screen) {x y : Nat} (hx : x < 64) (hy : y < 32) :
    ∃ lit, s.Shows x y lit := by
  obtain ⟨lit, hcell⟩ := s.exists_cell?_eq_some (c := x + 64 * y) (by rw [cells]; omega)
  have hcolumn : (UInt64.ofNat x).toNat = x :=
    UInt64.toNat_ofNat_of_lt' (by rw [UInt64.size]; omega)
  have hline : (UInt64.ofNat y).toNat = y :=
    UInt64.toNat_ofNat_of_lt' (by rw [UInt64.size]; omega)
  have hdiv : (x + 64 * y) / 8 = 8 * y + x / 8 := by omega
  have hmod : (x + 64 * y) % 8 = x % 8 := by omega
  refine ⟨lit, ?_, hcell, ?_, ?_, mem_pixels.mpr ⟨hx, hcell⟩, ?_⟩
  · rw [← hdiv, ← hmod]
    exact hcell
  · have hinside : UInt64.ofNat x < 64 := by
      rw [UInt64.lt_iff_toNat_lt, hcolumn]
      exact hx
    rw [pixel?_of_lt hinside s (by omega), hcolumn, hline]
    exact congrArg Except.ok hcell
  · rw [entryAt?_rows, if_pos ⟨hx, hy⟩]
    exact hcell
  · have hline : (s.lines ++ [[]])[y + 1]? = s.lines[y + 1]? :=
      List.getElem?_append_left (by rw [length_lines]; omega)
    have hentry := s.entryAt?_lines hx hy
    rw [width, hcell, entryAt?] at hentry
    rw [textLines_picture, entryAt?, hline, hentry]
    rfl

/-- **The picture tells the screens apart.** -/
theorem eq_of_picture_eq {s t : Screen} (h : s.picture = t.picture) : s = t := by
  have hlines : s.lines = t.lines := by
    have htext := congrArg textLines h
    rwa [textLines_picture, textLines_picture, List.append_left_inj] at htext
  have hchar : ∀ a b : Bool, cellChar a = cellChar b → a = b := by decide
  refine ext_cell? fun c => ?_
  rcases Nat.lt_or_ge c cells with hc | hc
  · have hx : c % 64 < width := Nat.mod_lt c (by decide)
    have hy : c / 64 < height := Nat.div_lt_of_lt_mul hc
    have hentry := s.entryAt?_lines hx hy
    rw [hlines, t.entryAt?_lines hx hy, Nat.mod_add_div] at hentry
    exact (Option.map_injective hchar hentry).symm
  · rw [cell?_eq_none_iff.mpr hc, cell?_eq_none_iff.mpr hc]

theorem plots (s : Screen) (c : Nat) (value : Bool) : s.Plots c value where
  changes_iff d := by
    cases value with
    | false => simp [plot]
    | true =>
      have hplot : (s.plot c true).1 = s.flip c := rfl
      rw [hplot, cell?_flip]
      rcases Nat.lt_or_ge d cells with hd | hd
      · obtain ⟨lit, hlit⟩ := s.exists_cell?_eq_some hd
        rw [hlit]
        by_cases hdc : d = c
        · subst hdc
          simpa using hd
        · simp [hdc]
      · rw [cell?_eq_none_iff.mpr hd]
        constructor
        · exact fun h => absurd rfl h
        · rintro ⟨rfl, -, hc⟩
          exact absurd hc (Nat.not_lt_of_le hd)
  none_iff := by
    rw [plot, Option.map_eq_none_iff, cell?_eq_none_iff]
  true_iff := by
    rw [plot]
    cases s.cell? c <;> simp

/-- **All ways to look at a screen agree.** -/
theorem views_agree (s : Screen) : s.Agrees where
  shows _ hx _ hy := s.exists_shows hx hy
  rows := ⟨s.length_rows, fun _ => length_of_mem_rows⟩
  lines := ⟨s.lines, s.textLines_picture, s.length_lines, fun _ => length_of_mem_lines⟩
  framed := by
    rw [painted_eq, List.map_map]
    rfl
  lit := s.count_picture.symm
  picture_eq_iff _ := ⟨eq_of_picture_eq, congrArg picture⟩
  plots := s.plots

end Screen

end Chip8
