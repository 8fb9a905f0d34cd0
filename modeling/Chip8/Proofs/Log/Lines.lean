/-
# Log lines read back

Whatever a message says, a line of the log tells apart its level, its source and its message: the
level stands in the first eight characters, which are the same for every record of that level, the
source ends with the first bracket that closes after them, and the rest is the message.  A message
may look like the head of a line without doing harm.

* `Record.ofLine?` reads lines.
* `ofLine?_eq_some_iff`: it reads the lines of the records whose source closes no bracket, each as
  the record that was written, and nothing else.
* `ofLine?_line_record`: all that the program reports can be read back from the log.
-/
import Mathlib.Data.List.TakeWhile
import Chip8.Log.Notice

namespace Chip8.Log

/-! ## 1. The head of a line -/

/-- What stands before the source in the lines of a level. -/
def Level.head (l : Level) : List Char := '[' :: l.column.toList ++ [']', '[']

/-- The level whose lines begin in this way. -/
def Level.ofHead? (head : List Char) : Option Level := Level.all.find? fun l => l.head = head

@[simp] theorem Level.length_head (l : Level) : l.head.length = 8 := by
  cases l <;> decide

theorem Level.ofHead?_head (l : Level) : Level.ofHead? l.head = some l := by
  cases l <;> decide

theorem Level.head_of_ofHead? {head : List Char} {l : Level} (h : Level.ofHead? head = some l) :
    l.head = head := by
  have hfound := List.find?_some h
  exact of_decide_eq_true hfound

namespace Record

/-- A line is the head of its level, the source, a closing bracket and the message. -/
theorem toList_line (r : Record) :
    r.line.toList = r.level.head ++ (r.source.toList ++ ']' :: ' ' :: r.message.toList) := by
  simp [line, Level.head]

/-! ## 2. Reading lines -/

/-- The record of a line: the level is known by the head, and the source ends with the first bracket
that closes after it. -/
def ofLine? (text : String) : Option Record :=
  let rest := text.toList.drop 8
  match Level.ofHead? (text.toList.take 8), rest.dropWhile (· ≠ ']') with
  | some level, ']' :: ' ' :: message =>
    some ⟨level, String.ofList (rest.takeWhile (· ≠ ']')), String.ofList message⟩
  | _, _ => none

theorem ofLine?_line {r : Record} (h : ']' ∉ r.source.toList) : ofLine? r.line = some r := by
  have hhead : r.line.toList.take 8 = r.level.head := by
    rw [toList_line, List.take_left' (Level.length_head _)]
  have hrest : r.line.toList.drop 8 = r.source.toList ++ ']' :: ' ' :: r.message.toList := by
    rw [toList_line, List.drop_left' (Level.length_head _)]
  have hopen : ∀ c ∈ r.source.toList, decide (c ≠ ']') = true := by
    intro c hc
    exact decide_eq_true fun e => h (e ▸ hc)
  have hsource : (r.source.toList ++ ']' :: ' ' :: r.message.toList).takeWhile (· ≠ ']')
      = r.source.toList := by
    rw [List.takeWhile_append_of_pos hopen]
    simp
  have hmessage : (r.source.toList ++ ']' :: ' ' :: r.message.toList).dropWhile (· ≠ ']')
      = ']' :: ' ' :: r.message.toList := by
    rw [List.dropWhile_append_of_pos hopen]
    simp
  simp only [ofLine?, hhead, hrest, Level.ofHead?_head, hsource, hmessage, String.ofList_toList]

theorem eq_line_of_ofLine? {t : String} {r : Record} (h : ofLine? t = some r) :
    t = r.line ∧ ']' ∉ r.source.toList := by
  simp only [ofLine?] at h
  split at h
  · rename_i level message hlevel hmessage
    obtain rfl := Option.some.inj h
    constructor
    · have hrest := List.takeWhile_append_dropWhile (p := (· ≠ ']')) (l := t.toList.drop 8)
      rw [hmessage] at hrest
      refine String.toList_inj.mp ?_
      rw [toList_line, Level.head_of_ofHead? hlevel, String.toList_ofList, String.toList_ofList,
        hrest, List.take_append_drop]
    · rw [String.toList_ofList]
      intro hmem
      have hopen := List.mem_takeWhile_imp hmem
      simp at hopen
  · cases h

/-- **What can be read.** -/
theorem ofLine?_eq_some_iff {t : String} {r : Record} :
    ofLine? t = some r ↔ t = r.line ∧ ']' ∉ r.source.toList := by
  constructor
  · exact eq_line_of_ofLine?
  · rintro ⟨rfl, h⟩
    exact ofLine?_line h

example : ofLine? "[WARN ][m] [INFO ][x] y" = some ⟨.warn, "m", "[INFO ][x] y"⟩ := by decide

/-! ## 3. Lines tell records apart -/

/-- What it means that the line of a record tells all about it. -/
structure Legible (r : Record) : Prop where
  /-- If its source closes no bracket, the line is read as the record, whatever the message is, and
  no other text is. -/
  read : ∀ t, ofLine? t = some r ↔ t = r.line ∧ ']' ∉ r.source.toList
  /-- So no two such records have the same line. -/
  unique : ∀ r' : Record, ']' ∉ r.source.toList → ']' ∉ r'.source.toList → r.line = r'.line → r = r'
  /-- The source starts in the ninth column, whatever the level, and the message follows it. -/
  columns : r.line.toList.drop 8 = r.source.toList ++ (']' :: ' ' :: r.message.toList)

/-- **Log lines are unambiguous.** -/
theorem legible (r : Record) : r.Legible where
  read _ := ofLine?_eq_some_iff
  unique r' h h' hline := by
    have hread := ofLine?_line h
    rw [hline, ofLine?_line h'] at hread
    exact (Option.some.inj hread).symm
  columns := by
    rw [toList_line, List.drop_left' (Level.length_head _)]

-- A source that closes a bracket can hide where the message starts.
example : (⟨.info, "a] b", "c"⟩ : Record).line = (⟨.info, "a", "b] c"⟩ : Record).line := by decide

end Record

/-- Everything that the program reports can be read off the log. -/
theorem ofLine?_line_record (n : Notice) : Record.ofLine? n.record.line = some n.record := by
  refine Record.ofLine?_line ?_
  have hname : ∀ s : Source, ']' ∉ s.name.toList := by
    intro s
    cases s <;> decide
  exact hname n.source

end Chip8.Log
