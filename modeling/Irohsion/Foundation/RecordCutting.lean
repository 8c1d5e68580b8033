import Mathlib.Data.List.Basic
import Mathlib.Data.List.Infix

/-! # Cutting records out of a stream

A cutter finds the first complete record of a list and says how far the record
reaches. A reader cuts after everything that arrives and keeps what is left,
unless that is longer than its limit.
-/

namespace Irohsion.RecordCutting

variable {α : Type u}

/-! ## Markers -/

/-- Where a marker first occurs. -/
def position [BEq α] (marker : List α) : List α → Option Nat
  | [] => none
  | first :: rest =>
      if marker.isPrefixOf (first :: rest) then some 0 else (position marker rest).map (· + 1)

/-- Whether the first occurrence is at an index does not depend on what is
behind it. -/
theorem position_eq_some_iff [BEq α] [LawfulBEq α] {marker : List α}
    (nonempty : marker ≠ []) {data : List α} {index : Nat} :
    position marker data = some index ↔
      ∃ before after, data = before ++ marker ++ after ∧ before.length = index ∧
        ¬ marker <:+: before ++ marker.dropLast := by
  induction data generalizing index with
  | nil => simp [position, nonempty]
  | cons first rest induction =>
      rw [position]
      split
      · rename_i occurs
        rw [List.isPrefixOf_iff_prefix] at occurs
        constructor
        · intro found
          rcases occurs with ⟨after, same⟩
          refine ⟨[], after, same.symm, Option.some.inj found, ?_⟩
          intro inside
          have length := inside.length_le
          rw [List.nil_append, List.length_dropLast] at length
          have := List.length_pos_iff.mpr nonempty
          omega
        · rintro ⟨before, after, same, rfl, fresh⟩
          cases before with
          | nil => rfl
          | cons head tail =>
              -- A marker at the front would begin before the one that is first.
              exfalso
              apply fresh
              apply List.IsPrefix.isInfix
              apply List.prefix_of_prefix_length_le occurs
              · rw [same]
                exact ((List.prefix_append_right_inj _).mpr (List.dropLast_prefix marker)).trans
                  (List.prefix_append _ _)
              · rw [List.length_append, List.length_cons, List.length_dropLast]
                omega
      · rename_i absent
        rw [List.isPrefixOf_iff_prefix] at absent
        rw [Option.map_eq_some_iff]
        constructor
        · rintro ⟨earlier, found, rfl⟩
          rcases induction.mp found with ⟨before, after, rfl, rfl, fresh⟩
          refine ⟨first :: before, after, rfl, rfl, ?_⟩
          intro inside
          rcases List.infix_cons_iff.mp inside with front | inside
          · have begins : first :: (before ++ marker.dropLast) <+: first :: (before ++ marker) :=
              (List.prefix_append_right_inj (first :: before)).mpr (List.dropLast_prefix marker)
            exact absent ((front.trans begins).trans (List.prefix_append _ _))
          · exact fresh inside
        · rintro ⟨before, after, same, rfl, fresh⟩
          cases before with
          | nil => exact absurd ⟨after, same.symm⟩ absent
          | cons head tail =>
              rw [List.cons_append, List.cons_append, List.cons.injEq] at same
              refine ⟨tail.length, induction.mpr ⟨tail, after, same.2, rfl, ?_⟩, rfl⟩
              intro inside
              exact fresh (inside.trans (List.suffix_cons _ _).isInfix)

/-! ## Records in order -/

/-- The records occur in the data, one behind the other. -/
def InOrder : List (List α) → List α → Prop
  | [], _ => True
  | record :: later, data =>
      ∃ before after, data = before ++ record ++ after ∧ InOrder later after

theorem InOrder.append {first second : List (List α)} {data more : List α}
    (inFirst : InOrder first data) (inSecond : InOrder second more) :
    InOrder (first ++ second) (data ++ more) := by
  induction first generalizing data with
  | nil =>
      cases second with
      | nil => trivial
      | cons record later =>
          rcases inSecond with ⟨before, after, rfl, inLater⟩
          exact ⟨data ++ before, after, by simp, inLater⟩
  | cons record later induction =>
      rcases inFirst with ⟨before, after, rfl, inLater⟩
      exact ⟨before, after ++ more, by simp, induction inLater⟩

theorem InOrder.sublist {records kept : List (List α)} {data : List α}
    (inOrder : InOrder records data) (sublist : kept.Sublist records) : InOrder kept data := by
  induction sublist generalizing data with
  | slnil => trivial
  | cons record _ induction =>
      rcases inOrder with ⟨before, after, rfl, inLater⟩
      exact @InOrder.append α [] _ _ _ trivial (induction inLater)
  | cons_cons record _ induction =>
      rcases inOrder with ⟨before, after, rfl, inLater⟩
      exact ⟨before, after, rfl, induction inLater⟩

theorem InOrder.infix_of_mem {records : List (List α)} {record data : List α}
    (inOrder : InOrder records data) (member : record ∈ records) : record <:+: data := by
  have alone := inOrder.sublist (List.singleton_sublist.mpr member)
  rcases alone with ⟨before, after, rfl, _⟩
  exact List.infix_append _ _ _

/-! ## Cutting -/

/-- A record stays the first one when more data arrives behind it. -/
structure Cutter (α : Type u) where
  cut : List α → Option (List α × Nat)
  nonempty : ∀ {data record used}, cut data = some (record, used) → record ≠ []
  found : ∀ {data record used}, cut data = some (record, used) →
    ∃ before after, data = before ++ record ++ after ∧ used = (before ++ record).length
  stable : ∀ {data record used}, cut data = some (record, used) →
    ∀ more, cut (data ++ more) = some (record, used)

namespace Cutter

variable (cutter : Cutter α)

/-- The records and what is left behind them, for at most `fuel` records. -/
def cutUpTo : Nat → List α → List (List α) × List α
  | 0, data => ([], data)
  | fuel + 1, data =>
      match cutter.cut data with
      | none => ([], data)
      | some (record, used) =>
          (record :: (cutUpTo fuel (data.drop used)).1, (cutUpTo fuel (data.drop used)).2)

def cutAll (data : List α) : List (List α) × List α := cutter.cutUpTo data.length data

variable {cutter}
variable {data record : List α} {used fuel : Nat}

theorem used_pos (cut : cutter.cut data = some (record, used)) : 0 < used := by
  rcases cutter.found cut with ⟨before, after, _, rfl⟩
  have := List.length_pos_iff.mpr (cutter.nonempty cut)
  rw [List.length_append]
  omega

theorem used_le (cut : cutter.cut data = some (record, used)) : used ≤ data.length := by
  rcases cutter.found cut with ⟨before, after, rfl, rfl⟩
  exact (List.prefix_append _ _).length_le

theorem drop_append (cut : cutter.cut data = some (record, used)) (more : List α) :
    (data ++ more).drop used = data.drop used ++ more :=
  List.drop_append_of_le_length (used_le cut)

theorem cut_nil (cutter : Cutter α) : cutter.cut [] = none := by
  cases cut : cutter.cut [] with
  | none => rfl
  | some found =>
      have positive := used_pos cut
      have inside := used_le cut
      rw [List.length_nil] at inside
      omega

theorem cutUpTo_nil (cutter : Cutter α) (fuel : Nat) : cutter.cutUpTo fuel [] = ([], []) := by
  cases fuel with
  | zero => rfl
  | succ fuel => rw [cutUpTo, cut_nil]

/-- A list has at most as many records as elements. -/
theorem cutUpTo_eq_of_le {left right : Nat} (enough : data.length ≤ left)
    (alsoEnough : data.length ≤ right) :
    cutter.cutUpTo left data = cutter.cutUpTo right data := by
  induction left generalizing right data with
  | zero => rw [List.length_eq_zero_iff.mp (Nat.le_zero.mp enough), cutUpTo_nil, cutUpTo_nil]
  | succ left induction =>
      cases right with
      | zero =>
          rw [List.length_eq_zero_iff.mp (Nat.le_zero.mp alsoEnough), cutUpTo_nil, cutUpTo_nil]
      | succ right =>
          rw [cutUpTo, cutUpTo]
          split
          · rfl
          · rename_i record used cut
            have positive := used_pos cut
            have length : (data.drop used).length = data.length - used := List.length_drop
            rw [@induction (data.drop used) right (by omega) (by omega)]

theorem cutAll_of_none (cut : cutter.cut data = none) : cutter.cutAll data = ([], data) := by
  rw [cutAll]
  cases data.length with
  | zero => rfl
  | succ fuel => rw [cutUpTo, cut]

theorem cutAll_of_some (cut : cutter.cut data = some (record, used)) :
    cutter.cutAll data =
      (record :: (cutter.cutAll (data.drop used)).1, (cutter.cutAll (data.drop used)).2) := by
  have positive := used_pos cut
  have inside := used_le cut
  rw [cutAll]
  cases length : data.length with
  | zero => omega
  | succ fuel =>
      rw [cutUpTo, cut]
      have rest : (data.drop used).length ≤ fuel := by
        rw [List.length_drop]
        omega
      dsimp only
      rw [cutUpTo_eq_of_le rest (Nat.le_refl _)]
      rfl

/-- An induction along the records. -/
theorem cut_induction {motive : List α → Prop}
    (stops : ∀ data, cutter.cut data = none → motive data)
    (cuts : ∀ data record used, cutter.cut data = some (record, used) →
      motive (data.drop used) → motive data) (data : List α) : motive data := by
  induction length : data.length using Nat.strongRecOn generalizing data with
  | ind total induction =>
      cases cut : cutter.cut data with
      | none => exact stops data cut
      | some found =>
          have positive := used_pos cut
          have inside := used_le cut
          apply cuts data found.1 found.2 cut
          apply induction (data.drop found.2).length
          · rw [List.length_drop]
            omega
          · rfl

/-- What is left has no record. -/
theorem cut_rest (data : List α) : cutter.cut (cutter.cutAll data).2 = none := by
  induction data using cutter.cut_induction with
  | stops data cut => rw [cutAll_of_none cut, cut]
  | cuts data record used cut induction => rw [cutAll_of_some cut, induction]

/-- Cutting may stop and go on when more data has arrived. -/
theorem cutAll_append (data more : List α) :
    cutter.cutAll (data ++ more) =
      ((cutter.cutAll data).1 ++ (cutter.cutAll ((cutter.cutAll data).2 ++ more)).1,
        (cutter.cutAll ((cutter.cutAll data).2 ++ more)).2) := by
  induction data using cutter.cut_induction with
  | stops data cut => rw [cutAll_of_none cut, List.nil_append]
  | cuts data record used cut induction =>
      rw [cutAll_of_some cut, cutAll_of_some (cutter.stable cut more), drop_append cut, induction,
        List.cons_append]

/-- The records come in order from what has been used up. -/
theorem cutAll_inOrder (data : List α) :
    ∃ front, data = front ++ (cutter.cutAll data).2 ∧ InOrder (cutter.cutAll data).1 front := by
  induction data using cutter.cut_induction with
  | stops data cut =>
      rw [cutAll_of_none cut]
      exact ⟨[], rfl, trivial⟩
  | cuts data record used cut induction =>
      rw [cutAll_of_some cut]
      rcases cutter.found cut with ⟨before, after, rfl, rfl⟩
      rw [List.drop_left] at induction ⊢
      rcases induction with ⟨front, same, inOrder⟩
      refine ⟨before ++ record ++ front, ?_, before, front, rfl, inOrder⟩
      rw [List.append_assoc (before ++ record), ← same]

theorem mem_cutAll (member : record ∈ (cutter.cutAll data).1) :
    ∃ rest used, cutter.cut rest = some (record, used) := by
  induction data using cutter.cut_induction with
  | stops data cut =>
      rw [cutAll_of_none cut] at member
      cases member
  | cuts data first used cut induction =>
      rw [cutAll_of_some cut] at member
      rcases List.mem_cons.mp member with rfl | later
      · exact ⟨data, used, cut⟩
      · exact induction later

end Cutter

/-! ## Reading -/

/-- The records that a reader has found, and what it keeps. -/
structure Reader (α : Type u) where
  records : List (List α)
  buffer : List α

namespace Reader

def start : Reader α := ⟨[], []⟩

def feed (cutter : Cutter α) (limit : Nat) (reader : Reader α) (chunk : List α) : Reader α :=
  let cut := cutter.cutAll (reader.buffer ++ chunk)
  ⟨reader.records ++ cut.1, if limit < cut.2.length then [] else cut.2⟩

variable {cutter : Cutter α} {limit : Nat} {reader : Reader α} {data : List α}

/-- The records are behind each other in what a reader has got, and in front of
what it keeps. -/
def Follows (reader : Reader α) (data : List α) : Prop :=
  ∃ past, data = past ++ reader.buffer ∧ InOrder reader.records past

theorem Follows.feed (follows : reader.Follows data) (chunk : List α) :
    (reader.feed cutter limit chunk).Follows (data ++ chunk) := by
  rcases follows with ⟨past, rfl, inOrder⟩
  rcases cutter.cutAll_inOrder (reader.buffer ++ chunk) with ⟨front, same, cutInOrder⟩
  have allInOrder := inOrder.append cutInOrder
  rw [List.append_assoc, same, ← List.append_assoc, Reader.feed]
  split
  · refine ⟨past ++ front ++ (cutter.cutAll (reader.buffer ++ chunk)).2,
      (List.append_nil _).symm, ?_⟩
    have noMore : InOrder [] (cutter.cutAll (reader.buffer ++ chunk)).2 := trivial
    have inLonger := allInOrder.append noMore
    rw [List.append_nil] at inLonger
    exact inLonger
  · exact ⟨past ++ front, rfl, allInOrder⟩

theorem foldl_follows (cutter : Cutter α) (limit : Nat) (chunks : List (List α))
    (follows : reader.Follows data) :
    (chunks.foldl (feed cutter limit) reader).Follows (data ++ chunks.flatten) := by
  induction chunks generalizing reader data with
  | nil =>
      rw [List.flatten_nil, List.append_nil]
      exact follows
  | cons chunk rest induction =>
      rw [List.foldl_cons, List.flatten_cons, ← List.append_assoc]
      exact induction (follows.feed chunk)

/-- What a reader keeps is short and has no record, and its records have been
cut. -/
structure Settled (cutter : Cutter α) (limit : Nat) (reader : Reader α) : Prop where
  short : reader.buffer.length ≤ limit
  waits : cutter.cut reader.buffer = none
  cut : ∀ record ∈ reader.records, ∃ rest used, cutter.cut rest = some (record, used)

theorem Settled.start (cutter : Cutter α) (limit : Nat) : Reader.start.Settled cutter limit where
  short := Nat.zero_le _
  waits := cutter.cut_nil
  cut _ member := absurd member List.not_mem_nil

theorem Settled.feed (settled : reader.Settled cutter limit) (chunk : List α) :
    (reader.feed cutter limit chunk).Settled cutter limit where
  short := by
    rw [Reader.feed]
    dsimp only
    split
    · exact Nat.zero_le _
    · rename_i short
      exact Nat.not_lt.mp short
  waits := by
    rw [Reader.feed]
    dsimp only
    split
    · exact cutter.cut_nil
    · exact cutter.cut_rest _
  cut record member := by
    rcases List.mem_append.mp member with earlier | now
    · exact settled.cut record earlier
    · exact Cutter.mem_cutAll now

theorem foldl_settled (chunks : List (List α)) (settled : reader.Settled cutter limit) :
    (chunks.foldl (Reader.feed cutter limit) reader).Settled cutter limit := by
  induction chunks generalizing reader with
  | nil => exact settled
  | cons chunk rest induction => exact induction (settled.feed chunk)

/-- Nothing has been dropped. -/
def Exact (cutter : Cutter α) (data : List α) (reader : Reader α) : Prop :=
  reader = ⟨(cutter.cutAll data).1, (cutter.cutAll data).2⟩

theorem Exact.feed (exact : reader.Exact cutter data) {chunk : List α}
    (short : (cutter.cutAll (data ++ chunk)).2.length ≤ limit) :
    (reader.feed cutter limit chunk).Exact cutter (data ++ chunk) := by
  rw [Exact] at exact ⊢
  rw [Cutter.cutAll_append] at short ⊢
  subst exact
  rw [Reader.feed, if_neg (Nat.not_lt.mpr short)]

/-- A reader whose rest never gets too long finds what one pass finds. -/
theorem foldl_exact (chunks : List (List α)) (exact : reader.Exact cutter data)
    (short : ∀ front, front <+: chunks.flatten →
      (cutter.cutAll (data ++ front)).2.length ≤ limit) :
    (chunks.foldl (feed cutter limit) reader).Exact cutter (data ++ chunks.flatten) := by
  induction chunks generalizing reader data with
  | nil =>
      rw [List.flatten_nil, List.append_nil]
      exact exact
  | cons chunk rest induction =>
      rw [List.foldl_cons, List.flatten_cons, ← List.append_assoc]
      apply induction
      · exact exact.feed (short chunk (List.prefix_append _ _))
      · intro front begins
        rw [List.append_assoc]
        exact short (chunk ++ front) ((List.prefix_append_right_inj chunk).mpr begins)

end Reader

end Irohsion.RecordCutting
