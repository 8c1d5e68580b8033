import Mathlib.Algebra.Order.Ring.Nat
import Mathlib.Data.List.TakeWhile
import Irohsion.Foundation.TextFields

/-! # Numbers in texts

Reading and printing of 64-bit integers and of single-precision numbers as the
source's standard library does it. A number printed with four decimals is read
back as the number which that text denotes.
-/

namespace Irohsion

/-- A nonempty run of decimal digits. -/
def readDigits (text : Text) : Option Nat :=
  if text ≠ [] ∧ text.all Char.isDigit then some (Nat.ofDigitChars 10 text 0) else none

/-- `str::parse::<u64>`. -/
def parseU64 (text : Text) : Option UInt64 :=
  let digits := match text with
    | '+' :: rest => rest
    | _ => text
  match readDigits digits with
  | some value => if value < 2 ^ 64 then some (UInt64.ofNat value) else none
  | none => none

def printU64 (value : UInt64) : Text := Nat.toDigits 10 value.toNat

/-- What the text of a number denotes: `digits * 10 ^ exponent`, or no such number. -/
inductive Numeral where
  | nan
  | infinite (negative : Bool)
  | decimal (negative : Bool) (digits : Nat) (exponent : Int)
  deriving DecidableEq, Repr

namespace Numeral

/-- The closest single-precision number. -/
def toF32 : Numeral → Float32
  | nan => Float32.ofBits 0x7fc00000
  | infinite negative => Float32.ofBits (if negative then 0xff800000 else 0x7f800000)
  | decimal negative digits exponent =>
      let magnitude := Float32.ofScientific digits (exponent < 0) exponent.natAbs
      if negative then -magnitude else magnitude

def readExponent : Text → Option Int
  | [] => some 0
  | mark :: rest =>
      if mark = 'e' ∨ mark = 'E' then
        match rest with
        | '-' :: digits => (readDigits digits).map fun value => -(value : Int)
        | '+' :: digits => (readDigits digits).map fun value => (value : Int)
        | digits => (readDigits digits).map fun value => (value : Int)
      else none

/-- Digits with an optional fraction and exponent. -/
def readDecimal (negative : Bool) (text : Text) : Option Numeral :=
  let whole := text.takeWhile Char.isDigit
  let afterWhole := text.dropWhile Char.isDigit
  let fraction := match afterWhole with
    | '.' :: rest => rest.takeWhile Char.isDigit
    | _ => []
  let afterFraction := match afterWhole with
    | '.' :: rest => rest.dropWhile Char.isDigit
    | rest => rest
  if whole = [] ∧ fraction = [] then none
  else
    (readExponent afterFraction).map fun exponent =>
      decimal negative (Nat.ofDigitChars 10 (whole ++ fraction) 0) (exponent - fraction.length)

def readSpecial (negative : Bool) (text : Text) : Option Numeral :=
  let lower := text.map Char.toLower
  if lower = "nan".toList then some nan
  else if lower = "inf".toList ∨ lower = "infinity".toList then some (infinite negative)
  else none

/-- The grammar of `str::parse::<f32>`. -/
def read (text : Text) : Option Numeral :=
  let negative := text.head? = some '-'
  let unsigned := match text with
    | '-' :: rest => rest
    | '+' :: rest => rest
    | _ => text
  (readDecimal negative unsigned).or (readSpecial negative unsigned)

theorem readDecimal_append {whole fraction : Text} (negative : Bool) (nonempty : whole ≠ [])
    (wholeDigits : ∀ digit ∈ whole, digit.isDigit = true)
    (fractionDigits : ∀ digit ∈ fraction, digit.isDigit = true) :
    readDecimal negative (whole ++ '.' :: fraction) =
      some (decimal negative (Nat.ofDigitChars 10 (whole ++ fraction) 0) (-fraction.length)) := by
  have pointNotDigit : ¬ Char.isDigit '.' = true := by decide
  have allFraction : fraction.takeWhile Char.isDigit = fraction := by
    rw [List.takeWhile_eq_self_iff]
    exact fractionDigits
  have noRest : fraction.dropWhile Char.isDigit = [] := by
    rw [List.dropWhile_eq_nil_iff]
    exact fractionDigits
  rw [readDecimal, List.takeWhile_append_of_pos wholeDigits,
    List.dropWhile_append_of_pos wholeDigits, List.takeWhile_cons_of_neg pointNotDigit,
    List.dropWhile_cons_of_neg pointNotDigit, List.append_nil]
  simp only [allFraction, noRest, nonempty, false_and, if_false, readExponent, Option.map_some]
  simp

theorem read_minus (rest : Text) :
    read ('-' :: rest) = (readDecimal true rest).or (readSpecial true rest) := rfl

theorem read_of_digit {digit : Char} (rest : Text) (isDigit : digit.isDigit = true) :
    read (digit :: rest) =
      (readDecimal false (digit :: rest)).or (readSpecial false (digit :: rest)) := by
  have notMinus : digit ≠ '-' := by rintro rfl; contradiction
  have notPlus : digit ≠ '+' := by rintro rfl; contradiction
  simp [read, notMinus, notPlus]

end Numeral

/-- A number rounded to four decimals, as `{:.4}` prints it. -/
inductive FourDecimals where
  | nan
  | infinite (negative : Bool)
  | decimal (negative : Bool) (tenThousandths : Nat)
  deriving DecidableEq, Repr

namespace FourDecimals

/-- The quotient by a power of two, to the closest number and to the even one of two. -/
def halveRounded (value halvings : Nat) : Nat :=
  let quotient := value / 2 ^ halvings
  let rest := 2 * (value % 2 ^ halvings)
  if rest > 2 ^ halvings ∨ rest = 2 ^ halvings ∧ quotient % 2 = 1 then quotient + 1 else quotient

/-- The number of ten-thousandths in `mantissa * 2 ^ exponent`. -/
def tenThousandths (mantissa : Nat) (exponent : Int) : Nat :=
  halveRounded (mantissa * 10 ^ 4 * 2 ^ exponent.toNat) (-exponent).toNat

def ofF32 (value : Float32) : FourDecimals :=
  match value.toModel.unpack with
  | .notANumber => nan
  | .infinity sign => infinite (sign matches .negative)
  | .zero sign => decimal (sign matches .negative) 0
  | .finite sign mantissa exponent _ =>
      decimal (sign matches .negative) (tenThousandths mantissa exponent)

/-- The number that the printed text denotes. -/
def numeral : FourDecimals → Numeral
  | nan => .nan
  | infinite negative => .infinite negative
  | decimal negative tenThousandths => .decimal negative tenThousandths (-4)

def signText (negative : Bool) : Text := if negative then ['-'] else []

def wholeText (tenThousandths : Nat) : Text := Nat.toDigits 10 (tenThousandths / 10 ^ 4)

def fractionText (tenThousandths : Nat) : Text :=
  [10 ^ 3, 10 ^ 2, 10, 1].map fun place => Nat.digitChar (tenThousandths / place % 10)

def text : FourDecimals → Text
  | nan => "NaN".toList
  | infinite negative => signText negative ++ "inf".toList
  | decimal negative tenThousandths =>
      signText negative ++ wholeText tenThousandths ++ '.' :: fractionText tenThousandths

theorem ofDigitChars_wholeText_append (tenThousandths : Nat) :
    Nat.ofDigitChars 10 (wholeText tenThousandths ++ fractionText tenThousandths) 0 =
      tenThousandths := by
  rw [Nat.ofDigitChars_append, wholeText, Nat.ofDigitChars_ten_toDigits, fractionText]
  simp only [List.map_cons, List.map_nil]
  repeat rw [Nat.ofDigitChars_cons_digitChar_of_lt_ten (Nat.mod_lt _ (by decide))]
  rw [Nat.ofDigitChars_nil]
  omega

theorem isDigit_digitChar {digit : Nat} (small : digit < 10) :
    (Nat.digitChar digit).isDigit = true := by
  apply @Nat.isDigit_of_mem_toDigits 10 digit _ (by decide) (by decide)
  rw [Nat.toDigits_of_lt_base small]
  exact List.mem_singleton_self _

theorem isDigit_of_mem_wholeText {tenThousandths : Nat} {digit : Char}
    (member : digit ∈ wholeText tenThousandths) : digit.isDigit = true :=
  Nat.isDigit_of_mem_toDigits (by decide) (by decide) member

theorem isDigit_of_mem_fractionText {tenThousandths : Nat} {digit : Char}
    (member : digit ∈ fractionText tenThousandths) : digit.isDigit = true := by
  rcases List.mem_map.mp member with ⟨place, placeMember, rfl⟩
  exact isDigit_digitChar (Nat.mod_lt _ (by decide))

theorem isField_text (printed : FourDecimals) : printed.text.IsField := by
  have signField : ∀ negative, (signText negative).IsField := by decide
  rcases printed with _ | negative | ⟨negative, tenThousandths⟩
  · decide
  · exact (signField negative).append (by decide)
  have wholeField : (wholeText tenThousandths).IsField :=
    Text.IsField.of_isDigit fun _ member => isDigit_of_mem_wholeText member
  have pointField : Text.IsField ['.'] := by decide
  have fractionField : (fractionText tenThousandths).IsField :=
    Text.IsField.of_isDigit fun _ member => isDigit_of_mem_fractionText member
  exact ((signField negative).append wholeField).append (pointField.append fractionField)

theorem readDecimal_wholeText_append (negative : Bool) (tenThousandths : Nat) :
    Numeral.readDecimal negative
        (wholeText tenThousandths ++ '.' :: fractionText tenThousandths) =
      some (.decimal negative tenThousandths (-4)) := by
  have nonempty : wholeText tenThousandths ≠ [] := Nat.toDigits_ne_nil
  rw [Numeral.readDecimal_append negative nonempty
    (fun _ member => isDigit_of_mem_wholeText member)
    (fun _ member => isDigit_of_mem_fractionText member), ofDigitChars_wholeText_append]
  rfl

/-- The printed text is read as the number that it denotes. -/
theorem read_text (printed : FourDecimals) :
    Numeral.read printed.text = some printed.numeral := by
  rcases printed with _ | negative | ⟨negative, tenThousandths⟩
  · decide
  · cases negative <;> decide
  have decimalText := readDecimal_wholeText_append negative tenThousandths
  cases negative with
  | true =>
      rw [text, signText, if_pos rfl, List.append_assoc, List.singleton_append,
        Numeral.read_minus, decimalText, Option.some_or, numeral]
  | false =>
      have firstDigit := @isDigit_of_mem_wholeText tenThousandths
      rw [text, signText, if_neg Bool.false_ne_true, List.nil_append, numeral]
      cases digits : wholeText tenThousandths with
      | nil => exact absurd digits Nat.toDigits_ne_nil
      | cons digit rest =>
          rw [digits] at decimalText firstDigit
          rw [List.cons_append] at decimalText ⊢
          rw [Numeral.read_of_digit _ (firstDigit List.mem_cons_self), decimalText,
            Option.some_or]

end FourDecimals

/-- `str::parse::<f32>`. -/
def parseF32 (text : Text) : Option Float32 := (Numeral.read text).map Numeral.toF32

/-- The text that `{:.4}` formats a number as. -/
def printFourDecimals (value : Float32) : Text := (FourDecimals.ofF32 value).text

/-- The number that the text with four decimals denotes. -/
def roundToFourDecimals (value : Float32) : Float32 := (FourDecimals.ofF32 value).numeral.toF32

theorem parseF32_printFourDecimals (value : Float32) :
    parseF32 (printFourDecimals value) = some (roundToFourDecimals value) := by
  rw [parseF32, printFourDecimals, FourDecimals.read_text, Option.map_some, roundToFourDecimals]

theorem isDigit_of_mem_printU64 {value : UInt64} {digit : Char} (member : digit ∈ printU64 value) :
    digit.isDigit = true :=
  Nat.isDigit_of_mem_toDigits (by decide) (by decide) member

theorem isField_printU64 (value : UInt64) : (printU64 value).IsField :=
  Text.IsField.of_isDigit fun _ member => isDigit_of_mem_printU64 member

theorem parseU64_printU64 (value : UInt64) : parseU64 (printU64 value) = some value := by
  have digits : readDigits (printU64 value) = some value.toNat := by
    have all : (printU64 value).all Char.isDigit = true := by
      rw [List.all_eq_true]
      exact fun _ member => isDigit_of_mem_printU64 member
    rw [readDigits, if_pos ⟨Nat.toDigits_ne_nil, all⟩, printU64, Nat.ofDigitChars_ten_toDigits]
  have noPlus : ∀ rest, printU64 value ≠ '+' :: rest := by
    intro rest same
    have plusDigit := @isDigit_of_mem_printU64 value '+' (by simp [same])
    contradiction
  have inRange : value.toNat < 2 ^ 64 := value.toNat_lt
  simp only [parseU64, digits, if_pos inRange, UInt64.ofNat_toNat]

end Irohsion
