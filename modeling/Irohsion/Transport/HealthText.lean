import Irohsion.Foundation.TextFields

/-! # Escaped chat texts

The user and the text of a chat message may hold the characters that separate
fields and lines of a health report. They are escaped by a backslash.
-/

namespace Irohsion.Transport

def escape (ch : Char) : Text :=
  if ch = '\\' then ['\\', '\\']
  else if ch = '\t' then ['\\', 't']
  else if ch = '\n' then ['\\', 'n']
  else if ch = '\r' then ['\\', 'r']
  else [ch]

def encodeHealthText (text : Text) : Text := text.flatMap escape

/-- An unknown escape stands for itself. -/
def unescape (ch : Char) : Text :=
  if ch = '\\' then ['\\']
  else if ch = 't' then ['\t']
  else if ch = 'n' then ['\n']
  else if ch = 'r' then ['\r']
  else ['\\', ch]

def decodeHealthText : Text → Text
  | [] => []
  | [ch] => [ch]
  | ch :: next :: rest =>
      if ch = '\\' then unescape next ++ decodeHealthText rest
      else ch :: decodeHealthText (next :: rest)

theorem decodeHealthText_backslash (next : Char) (rest : Text) :
    decodeHealthText ('\\' :: next :: rest) = unescape next ++ decodeHealthText rest := by
  rw [decodeHealthText, if_pos rfl]

theorem decodeHealthText_cons {ch : Char} (rest : Text) (plain : ch ≠ '\\') :
    decodeHealthText (ch :: rest) = ch :: decodeHealthText rest := by
  cases rest with
  | nil => rfl
  | cons next rest => rw [decodeHealthText, if_neg plain]

theorem decodeHealthText_escape_append (ch : Char) (rest : Text) :
    decodeHealthText (escape ch ++ rest) = ch :: decodeHealthText rest := by
  unfold escape
  split_ifs with backslash tab newline carriageReturn
  · rw [backslash]
    exact decodeHealthText_backslash '\\' rest
  · rw [tab]
    exact decodeHealthText_backslash 't' rest
  · rw [newline]
    exact decodeHealthText_backslash 'n' rest
  · rw [carriageReturn]
    exact decodeHealthText_backslash 'r' rest
  · exact decodeHealthText_cons rest backslash

theorem decodeHealthText_encodeHealthText (text : Text) :
    decodeHealthText (encodeHealthText text) = text := by
  induction text with
  | nil => rfl
  | cons ch rest induction =>
      rw [encodeHealthText, List.flatMap_cons, decodeHealthText_escape_append, ← encodeHealthText,
        induction]

theorem not_mem_escape {ch separator : Char}
    (special : separator = '\t' ∨ separator = '\n' ∨ separator = '\r') :
    separator ∉ escape ch := by
  unfold escape
  split_ifs <;> rcases special with rfl | rfl | rfl <;> simp_all [eq_comm]

/-- An encoded text stays within its field and its line. -/
theorem not_mem_encodeHealthText {separator : Char} (text : Text)
    (special : separator = '\t' ∨ separator = '\n' ∨ separator = '\r') :
    separator ∉ encodeHealthText text := by
  intro member
  rcases List.mem_flatMap.mp member with ⟨ch, -, escaped⟩
  exact not_mem_escape special escaped

end Irohsion.Transport
