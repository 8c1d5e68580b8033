import Mathlib.Data.List.Basic

/-! # Lines and fields of a text

A text as its characters, cut into lines at line feeds and into fields at a
separator. What was joined without the separator is cut into the same parts.
-/

namespace Irohsion

abbrev Text := List Char

namespace Text

/-- A line without the carriage return before its line feed. -/
def stripCarriageReturn (line : Text) : Text :=
  if line.getLast? = some '\r' then line.dropLast else line

/-- The lines of a text, without their line ends. A last line need not have one. -/
def lines (text : Text) : List Text :=
  let parts := text.splitOn '\n'
  let last := parts.getLastD []
  parts.dropLast.map stripCarriageReturn ++ if last = [] then [] else [last]

/-- Fields with a separator between each two. -/
def joinFields (separator : Char) : List Text → Text
  | [] => []
  | [field] => field
  | field :: next :: rest => field ++ separator :: joinFields separator (next :: rest)

theorem stripCarriageReturn_of_not_mem {line : Text} (absent : '\r' ∉ line) :
    stripCarriageReturn line = line := by
  apply if_neg
  intro last
  exact absent (List.mem_of_getLast? last)

theorem splitOn_joinFields {separator : Char} : ∀ {fields : List Text}, fields ≠ [] →
    (∀ field ∈ fields, separator ∉ field) →
    (joinFields separator fields).splitOn separator = fields
  | [], nonempty, _ => absurd rfl nonempty
  | [field], _, absent => List.splitOn_eq_singleton (absent field List.mem_cons_self)
  | field :: next :: rest, _, absent => by
      have others : ∀ other ∈ next :: rest, separator ∉ other :=
        fun other member => absent other (List.mem_cons_of_mem field member)
      rw [joinFields, List.splitOn_append_cons_self_of_not_mem (absent field List.mem_cons_self),
        splitOn_joinFields (List.cons_ne_nil next rest) others]

theorem not_mem_joinFields {separator other : Char} (different : other ≠ separator) :
    ∀ {fields : List Text}, (∀ field ∈ fields, other ∉ field) → other ∉ joinFields separator fields
  | [], _ => List.not_mem_nil
  | [field], absent => absent field List.mem_cons_self
  | field :: next :: rest, absent => by
      have others : ∀ field ∈ next :: rest, other ∉ field :=
        fun other member => absent other (List.mem_cons_of_mem field member)
      simp only [joinFields, List.mem_append, List.mem_cons, not_or]
      exact ⟨absent field List.mem_cons_self, different, not_mem_joinFields different others⟩

/-- A text of whole lines is cut into the rows and an empty rest. -/
theorem splitOn_flatMap_newline {rows : List Text} (absent : ∀ row ∈ rows, '\n' ∉ row) :
    (rows.flatMap (· ++ ['\n'])).splitOn '\n' = rows ++ [[]] := by
  induction rows with
  | nil => exact List.splitOn_nil '\n'
  | cons row rest induction =>
      have others : ∀ other ∈ rest, '\n' ∉ other :=
        fun other member => absent other (List.mem_cons_of_mem row member)
      rw [List.flatMap_cons, List.append_assoc, List.singleton_append,
        List.splitOn_append_cons_self_of_not_mem (absent row List.mem_cons_self),
        induction others, List.cons_append]

theorem lines_flatMap_newline {rows : List Text}
    (absent : ∀ row ∈ rows, '\n' ∉ row ∧ '\r' ∉ row) :
    lines (rows.flatMap (· ++ ['\n'])) = rows := by
  have kept : rows.map stripCarriageReturn = rows := by
    rw [List.map_congr_left fun row member => stripCarriageReturn_of_not_mem (absent row member).2,
      List.map_id']
  rw [lines, splitOn_flatMap_newline fun row member => (absent row member).1]
  simp [kept]

/-- A text without the characters that end a field or a line. -/
structure IsField (field : Text) : Prop where
  noTab : '\t' ∉ field
  noNewline : '\n' ∉ field
  noCarriageReturn : '\r' ∉ field

instance decidableIsField (field : Text) : Decidable (IsField field) :=
  decidable_of_iff ('\t' ∉ field ∧ '\n' ∉ field ∧ '\r' ∉ field)
    ⟨fun absent => ⟨absent.1, absent.2.1, absent.2.2⟩,
      fun isField => ⟨isField.noTab, isField.noNewline, isField.noCarriageReturn⟩⟩

theorem IsField.of_isDigit {text : Text} (digits : ∀ digit ∈ text, digit.isDigit = true) :
    text.IsField := by
  constructor <;> intro member <;> exact absurd (digits _ member) (by decide)

theorem IsField.append {first second : Text} (firstField : first.IsField)
    (secondField : second.IsField) : (first ++ second).IsField := by
  constructor <;> rw [List.mem_append, not_or]
  · exact ⟨firstField.noTab, secondField.noTab⟩
  · exact ⟨firstField.noNewline, secondField.noNewline⟩
  · exact ⟨firstField.noCarriageReturn, secondField.noCarriageReturn⟩

theorem splitOn_tab_joinFields {fields : List Text} (nonempty : fields ≠ [])
    (areFields : ∀ field ∈ fields, IsField field) :
    (joinFields '\t' fields).splitOn '\t' = fields :=
  splitOn_joinFields nonempty fun field member => (areFields field member).noTab

theorem lines_of_rows {rows : List (List Text)}
    (areFields : ∀ row ∈ rows, ∀ field ∈ row, IsField field) :
    lines ((rows.map (joinFields '\t')).flatMap (· ++ ['\n'])) = rows.map (joinFields '\t') := by
  apply lines_flatMap_newline
  intro line member
  rcases List.mem_map.mp member with ⟨row, rowMember, rfl⟩
  have fieldsOfRow := areFields row rowMember
  constructor
  · exact not_mem_joinFields (by decide) fun field inRow => (fieldsOfRow field inRow).noNewline
  · exact not_mem_joinFields (by decide)
      fun field inRow => (fieldsOfRow field inRow).noCarriageReturn

end Text

end Irohsion
