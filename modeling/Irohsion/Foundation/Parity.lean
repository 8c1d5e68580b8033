import Mathlib.Data.List.Basic

/-! # Padded parity

A self-inverse symbol operation, applied position by position to words of
different lengths. Shorter words count as padded with the neutral symbol. The
parity of a group of words recovers any one word from the others.
-/

namespace Irohsion

/-- A commutative symbol operation in which every symbol is its own inverse. -/
class ParitySymbol (α : Type u) where
  combine : α → α → α
  neutral : α
  combine_assoc : ∀ first second third,
    combine (combine first second) third = combine first (combine second third)
  combine_comm : ∀ left right, combine left right = combine right left
  combine_neutral : ∀ symbol, combine symbol neutral = symbol
  combine_self : ∀ symbol, combine symbol symbol = neutral

instance : ParitySymbol UInt8 where
  combine := (· ^^^ ·)
  neutral := 0
  combine_assoc := UInt8.xor_assoc
  combine_comm := UInt8.xor_comm
  combine_neutral _ := UInt8.xor_zero
  combine_self _ := UInt8.xor_self

namespace Parity

open ParitySymbol

/-- The length of the longest word of a group. -/
def longest {α : Type u} (words : List (List α)) : Nat :=
  (words.map List.length).foldr max 0

theorem length_le_longest {α : Type u} {words : List (List α)} {word : List α}
    (member : word ∈ words) : word.length ≤ longest words := by
  induction words with
  | nil => cases member
  | cons head tail induction =>
      rcases List.mem_cons.mp member with equal | member
      · subst equal
        exact Nat.le_max_left _ _
      · exact Nat.le_trans (induction member) (Nat.le_max_right _ _)

theorem longest_le_iff {α : Type u} {words : List (List α)} {bound : Nat} :
    longest words ≤ bound ↔ ∀ word ∈ words, word.length ≤ bound := by
  constructor
  · intro short word member
    exact Nat.le_trans (length_le_longest member) short
  · intro short
    induction words with
    | nil => exact Nat.zero_le bound
    | cons head tail induction =>
        rw [List.forall_mem_cons] at short
        exact Nat.max_le.mpr ⟨short.1, induction short.2⟩

variable {α : Type u} [ParitySymbol α]

/-- Combine `word` into the front of `parity`, leaving the rest unchanged. -/
def overlay : (parity word : List α) → List α
  | parity, [] => parity
  | [], _ :: _ => []
  | symbol :: parity, other :: word =>
      combine symbol other :: overlay parity word

/-- The symbol at a position, neutral past the end. -/
def symbolAt (word : List α) (position : Nat) : α :=
  word.getD position neutral

@[simp] theorem overlay_nil (parity : List α) : overlay parity [] = parity := by
  cases parity <;> rfl

@[simp] theorem length_overlay : ∀ parity word : List α,
    (overlay parity word).length = parity.length
  | parity, [] => by rw [overlay_nil]
  | [], _ :: _ => rfl
  | _ :: parity, _ :: word => congrArg (· + 1) (length_overlay parity word)

theorem symbolAt_overlay : ∀ {parity word : List α},
    word.length ≤ parity.length → ∀ position,
    symbolAt (overlay parity word) position =
      combine (symbolAt parity position) (symbolAt word position)
  | parity, [], _, position => by simp [symbolAt, combine_neutral]
  | [], _ :: _, fits, _ => absurd fits (Nat.not_succ_le_zero _)
  | _ :: parity, _ :: word, fits, 0 => rfl
  | _ :: parity, _ :: word, fits, position + 1 => by
      simpa [symbolAt, overlay] using
        symbolAt_overlay (Nat.le_of_succ_le_succ fits) position

/-- Words of one length with equal symbols are equal. -/
theorem ext_symbolAt {left right : List α} (sameLength : left.length = right.length)
    (sameSymbols : ∀ position, symbolAt left position = symbolAt right position) :
    left = right := by
  apply List.ext_getElem sameLength
  intro position leftBound rightBound
  simpa [symbolAt, leftBound, rightBound] using sameSymbols position

/-- The combination of the symbols that a group of words has at one position. -/
def columnAt (words : List (List α)) (position : Nat) : α :=
  words.foldr (fun word column => combine (symbolAt word position) column) neutral

theorem symbolAt_foldl_overlay {words : List (List α)} {parity : List α}
    (fits : ∀ word ∈ words, word.length ≤ parity.length) (position : Nat) :
    symbolAt (words.foldl overlay parity) position =
      combine (symbolAt parity position) (columnAt words position) := by
  induction words generalizing parity with
  | nil => exact (combine_neutral _).symm
  | cons head tail induction =>
      have headFits := fits head (by simp)
      have tailFits : ∀ word ∈ tail, word.length ≤ (overlay parity head).length := by
        intro word member
        rw [length_overlay]
        exact fits word (by simp [member])
      rw [List.foldl_cons, induction tailFits, symbolAt_overlay headFits, combine_assoc]
      rfl

@[simp] theorem length_foldl_overlay (words : List (List α)) (parity : List α) :
    (words.foldl overlay parity).length = parity.length := by
  induction words generalizing parity with
  | nil => rfl
  | cons head tail induction => rw [List.foldl_cons, induction, length_overlay]

theorem symbolAt_replicate_neutral (width position : Nat) :
    symbolAt (List.replicate width (neutral : α)) position = neutral := by
  simp [symbolAt, List.getD_eq_getElem?_getD, List.getElem?_replicate]
  split <;> rfl

/-- The parity word of a group: every word, padded to the longest, combined. -/
def parityOf (words : List (List α)) : List α :=
  words.foldl overlay (List.replicate (longest words) neutral)

@[simp] theorem length_parityOf (words : List (List α)) :
    (parityOf words).length = longest words := by
  simp [parityOf]

theorem symbolAt_parityOf (words : List (List α)) (position : Nat) :
    symbolAt (parityOf words) position = columnAt words position := by
  have fits : ∀ word ∈ words,
      word.length ≤ (List.replicate (longest words) (neutral : α)).length := by
    intro word member
    simpa using length_le_longest member
  rw [parityOf, symbolAt_foldl_overlay fits, symbolAt_replicate_neutral,
    combine_comm, combine_neutral]

theorem columnAt_append (front back : List (List α)) (position : Nat) :
    columnAt (front ++ back) position =
      combine (columnAt front position) (columnAt back position) := by
  induction front with
  | nil => exact ((combine_comm _ _).trans (combine_neutral _)).symm
  | cons head tail induction =>
      calc
        columnAt (head :: tail ++ back) position =
            combine (symbolAt head position) (columnAt (tail ++ back) position) := rfl
        _ = combine (symbolAt head position)
            (combine (columnAt tail position) (columnAt back position)) := by rw [induction]
        _ = _ := (combine_assoc _ _ _).symm

theorem combine_cancel (left right : α) : combine (combine left right) right = left := by
  rw [combine_assoc, combine_self, combine_neutral]

theorem combine_left_comm (first second third : α) :
    combine first (combine second third) = combine second (combine first third) := by
  rw [← combine_assoc, combine_comm first second, combine_assoc]

/-- Removing every word but one from the parity of the group leaves that word,
padded; cutting it to its length gives the word back. -/
theorem take_foldl_overlay_parityOf (front back : List (List α)) (word : List α) :
    ((front ++ back).foldl overlay (parityOf (front ++ word :: back))).take
      word.length = word := by
  have longEnough : word.length ≤ longest (front ++ word :: back) :=
    length_le_longest (by simp)
  have fits : ∀ other ∈ front ++ back,
      other.length ≤ (parityOf (front ++ word :: back)).length := by
    intro other member
    rw [length_parityOf]
    apply length_le_longest
    simp only [List.mem_append, List.mem_cons] at member ⊢
    tauto
  apply ext_symbolAt
  · rw [List.length_take, length_foldl_overlay, length_parityOf, Nat.min_eq_left longEnough]
  · intro position
    by_cases inside : position < word.length
    · have cut : symbolAt (((front ++ back).foldl overlay
          (parityOf (front ++ word :: back))).take word.length) position =
          symbolAt ((front ++ back).foldl overlay
            (parityOf (front ++ word :: back))) position := by
        simp [symbolAt, List.getD_eq_getElem?_getD, inside]
      rw [cut, symbolAt_foldl_overlay fits, symbolAt_parityOf, columnAt_append,
        columnAt_append]
      change combine (combine (columnAt front position)
        (combine (symbolAt word position) (columnAt back position)))
          (combine (columnAt front position) (columnAt back position)) = _
      rw [combine_left_comm (columnAt front position) (symbolAt word position),
        combine_cancel]
    · have wordEnds : symbolAt word position = neutral := by
        simp [symbolAt, List.getD_eq_getElem?_getD, Nat.le_of_not_lt inside]
      rw [wordEnds, symbolAt, List.getD_eq_getElem?_getD,
        List.getElem?_take_eq_none (Nat.le_of_not_lt inside), Option.getD_none]

end Parity

end Irohsion
