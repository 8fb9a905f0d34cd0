/-
# Labelled values

The one-line form in which the program shows a record: its label, then its fields by name in
braces, as in `_3XNN { x: 10, nn: 188 }`.  A label without fields stands alone.
-/
namespace Chip8

/-- A field of a labelled value: its name and the text of its value. -/
structure Field where
  name : String
  value : String
deriving DecidableEq

/-- A field that holds a number, written in decimal. -/
def Field.number (name : String) (n : Nat) : Field := ⟨name, toString n⟩

/-- A field that holds a truth value. -/
def Field.flag (name : String) (b : Bool) : Field := ⟨name, if b then "true" else "false"⟩

/-- The field as it stands between the braces. -/
def Field.text (f : Field) : String := f.name ++ ": " ++ f.value

/-- The label, followed by the fields in braces if there are any. -/
def labelled (label : String) : List Field → String
  | [] => label
  | fields => label ++ " \x7b " ++ String.intercalate ", " (fields.map Field.text) ++ " \x7d"

end Chip8
