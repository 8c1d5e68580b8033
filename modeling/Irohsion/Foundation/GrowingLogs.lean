import Mathlib.Data.List.DropRight
import Mathlib.Data.List.Nodup
import Mathlib.Data.List.Sort

/-! # Windows of growing logs

A log grows at its end and shows its newest entries. Merged logs show what one
log of all entries would, and a follower that absorbs such windows keeps the
newest of what it has been shown.
-/

namespace Irohsion.GrowingLog

variable {α : Type u} {β : Type v} {κ : Type w}

/-! ## The newest entries -/

section Newest

variable {log older fresh : List α} {limit : Nat}

theorem rtake_append (older fresh : List α) (limit : Nat) :
    (older ++ fresh).rtake limit = older.rtake (limit - fresh.length) ++ fresh.rtake limit := by
  have position : older.length + fresh.length - limit - older.length = fresh.length - limit := by
    omega
  rw [List.rtake, List.rtake, List.rtake, List.drop_append, List.length_append, position]
  congr 1
  by_cases covers : limit ≤ fresh.length
  · rw [Nat.sub_eq_zero_of_le covers, Nat.sub_zero, List.drop_length]
    exact List.drop_of_length_le (by omega)
  · congr 1
    omega

theorem rtake_of_length_le (few : log.length ≤ limit) : log.rtake limit = log := by
  rw [List.rtake, Nat.sub_eq_zero_of_le few, List.drop_zero]

theorem rtake_suffix (log : List α) (limit : Nat) : log.rtake limit <:+ log :=
  List.drop_suffix _ _

theorem length_rtake (log : List α) (limit : Nat) :
    (log.rtake limit).length = min limit log.length := by
  rw [List.rtake, List.length_drop]
  omega

theorem length_rtake_le (log : List α) (limit : Nat) : (log.rtake limit).length ≤ limit := by
  rw [length_rtake]
  exact Nat.min_le_left _ _

/-- A smaller window of a window is a window of the log. -/
theorem rtake_rtake {smaller : Nat} (within : smaller ≤ limit) (log : List α) :
    (log.rtake limit).rtake smaller = log.rtake smaller := by
  rw [List.rtake, length_rtake, List.rtake, List.drop_drop, List.rtake]
  congr 1
  omega

theorem rtake_append_of_le (covers : limit ≤ fresh.length) :
    (older ++ fresh).rtake limit = fresh.rtake limit := by
  rw [rtake_append, Nat.sub_eq_zero_of_le covers, List.rtake_zero, List.nil_append]

/-- A list that is no longer than the window is in it when the log ends with it. -/
theorem suffix_rtake {tail : List α} (ends : tail <:+ log) (few : tail.length ≤ limit) :
    tail <:+ log.rtake limit := by
  rcases ends with ⟨start, rfl⟩
  rw [rtake_append, rtake_of_length_le few]
  exact List.suffix_append _ _

end Newest

/-! ## Merged logs -/

section Merged

variable {before : α → α → Prop} [DecidableRel before] [Std.Total before] [IsTrans α before]
variable {log : List α}

/-- Entries that come after all others are last when they are sorted in. -/
theorem insertionSort_of_perm_append {entries older recent : List α}
    (permuted : entries.Perm (older ++ recent)) (sorted : recent.Pairwise before)
    (after : ∀ one ∈ older, ∀ two ∈ recent, before one two)
    (antisymm : ∀ one ∈ older ++ recent, ∀ two ∈ older ++ recent,
      before one two → before two one → one = two) :
    entries.insertionSort before = older.insertionSort before ++ recent := by
  have merged : (entries.insertionSort before).Perm (older.insertionSort before ++ recent) :=
    (List.perm_insertionSort before entries).trans
      (permuted.trans ((List.perm_insertionSort before older).symm.append_right recent))
  apply merged.eq_of_pairwise
  · intro one two isOne isTwo
    apply antisymm
    · exact permuted.subset ((List.perm_insertionSort before entries).subset isOne)
    · exact ((List.perm_insertionSort before older).append_right recent).subset isTwo
  · exact List.pairwise_insertionSort before entries
  · apply List.pairwise_append.mpr
    refine ⟨List.pairwise_insertionSort before older, sorted, ?_⟩
    intro one isOne
    exact after one ((List.perm_insertionSort before older).subset isOne)

/-- Two logs that share the entries of a sorted log, and each keep at least as
many as the window has, show together what that log shows. -/
theorem rtake_insertionSort_split {p : α → Bool} {limit first second : Nat}
    (sorted : log.Pairwise before)
    (antisymm : ∀ one ∈ log, ∀ two ∈ log, before one two → before two one → one = two)
    (firstKeeps : limit ≤ first) (secondKeeps : limit ≤ second) :
    (((log.filter p).rtake first ++ (log.filter fun entry => !p entry).rtake second).insertionSort
      before).rtake limit = log.rtake limit := by
  let older := log.take (log.length - limit)
  let recent := log.rtake limit
  have parts : log = older ++ recent := (List.take_append_drop _ log).symm
  have kept : ∀ (q : α → Bool) (keeps : Nat), limit ≤ keeps → (log.filter q).rtake keeps =
      (older.filter q).rtake (keeps - (recent.filter q).length) ++ recent.filter q := by
    intro q keeps enough
    have few : (recent.filter q).length ≤ keeps :=
      (List.length_filter_le q recent).trans ((length_rtake_le log limit).trans enough)
    rw [parts, List.filter_append, rtake_append, rtake_of_length_le few]
  rw [kept p first firstKeeps, kept _ second secondKeeps]
  generalize first - (recent.filter p).length = firstLeft
  generalize second - (recent.filter fun entry => !p entry).length = secondLeft
  let others := (older.filter p).rtake firstLeft ++
    (older.filter fun entry => !p entry).rtake secondLeft
  have fromOlder : others ⊆ older := by
    intro entry member
    rcases List.mem_append.mp member with inFirst | inSecond
    · exact List.mem_of_mem_filter ((rtake_suffix _ _).subset inFirst)
    · exact List.mem_of_mem_filter ((rtake_suffix _ _).subset inSecond)
  have inLog : others ++ recent ⊆ log := by
    rw [parts]
    exact List.append_subset.mpr ⟨List.subset_append_of_subset_left _ fromOlder,
      List.subset_append_right _ _⟩
  rw [parts] at sorted
  have ordered := List.pairwise_append.mp sorted
  rw [@insertionSort_of_perm_append _ before _ _ _ _ others recent _ ordered.2.1
    (fun one isOne => ordered.2.2 one (fromOlder isOne))
    fun one isOne two isTwo => antisymm one (inLog isOne) two (inLog isTwo)]
  · by_cases short : log.length ≤ limit
    · have noOlder : older = [] := by
        rw [List.take_eq_nil_iff]
        exact Or.inl (Nat.sub_eq_zero_of_le short)
      have noOthers : others = [] := List.subset_nil.mp (noOlder ▸ fromOlder)
      rw [noOthers, List.insertionSort_nil, List.nil_append]
      exact rtake_of_length_le (length_rtake_le log limit)
    · have full : recent.length = limit := by
        rw [length_rtake]
        omega
      rw [rtake_append_of_le full.ge]
      exact rtake_of_length_le full.le
  · -- The recent entries of both logs move to the end.
    have shuffled : ((older.filter p).rtake firstLeft ++ recent.filter p ++
        ((older.filter fun entry => !p entry).rtake secondLeft ++
          recent.filter fun entry => !p entry)).Perm
        (others ++ (recent.filter p ++ recent.filter fun entry => !p entry)) := by
      rw [List.append_assoc, List.append_assoc]
      apply List.Perm.append_left
      exact List.perm_append_comm_assoc _ _ _
    exact shuffled.trans ((List.filter_append_perm p recent).append_left others)

end Merged

/-! ## Following a log -/

section Absorbed

variable [DecidableEq κ] {key : α → κ} {stored entries shown log fresh : List α}
variable {window limit : Nat}

/-- An entry is stored unless one with its key is. -/
def absorb (key : α → κ) (stored : List α) (entry : α) : List α :=
  if stored.any fun existing => decide (key existing = key entry) then stored
  else stored ++ [entry]

theorem absorb_of_known {entry : α} (known : key entry ∈ stored.map key) :
    absorb key stored entry = stored := by
  rcases List.mem_map.mp known with ⟨existing, member, same⟩
  exact if_pos (List.any_eq_true.mpr ⟨existing, member, decide_eq_true same⟩)

theorem absorb_of_new {entry : α} (new : key entry ∉ stored.map key) :
    absorb key stored entry = stored ++ [entry] := by
  apply if_neg
  intro known
  rcases List.any_eq_true.mp known with ⟨existing, member, same⟩
  exact new (List.mem_map.mpr ⟨existing, member, of_decide_eq_true same⟩)

theorem foldl_absorb_of_subset (known : entries ⊆ stored) :
    entries.foldl (absorb key) stored = stored := by
  induction entries with
  | nil => rfl
  | cons entry rest induction =>
      rw [List.cons_subset] at known
      rw [List.foldl_cons, absorb_of_known (List.mem_map_of_mem known.1), induction known.2]

theorem foldl_absorb_of_distinct (distinct : ((stored ++ entries).map key).Nodup) :
    entries.foldl (absorb key) stored = stored ++ entries := by
  induction entries generalizing stored with
  | nil => rw [List.foldl_nil, List.append_nil]
  | cons entry rest induction =>
      rw [← List.singleton_append, ← List.append_assoc] at distinct
      have new : key entry ∉ stored.map key := by
        have start : ((stored ++ [entry]).map key).Nodup :=
          distinct.sublist ((List.sublist_append_left _ rest).map key)
        rw [List.map_append, List.map_singleton, ← List.concat_eq_append,
          List.nodup_concat] at start
        exact start.1
      rw [List.foldl_cons, absorb_of_new new, induction distinct, List.append_assoc,
        List.singleton_append]

theorem mem_foldl_absorb {entry : α} (member : entry ∈ entries.foldl (absorb key) stored) :
    entry ∈ stored ∨ entry ∈ entries := by
  apply @List.foldlRecOn _ _ (fun next => ∀ entry ∈ next, entry ∈ stored ∨ entry ∈ entries)
    entries _ _ (fun _ => Or.inl) _ entry member
  intro next sound added isAdded other isOther
  rw [absorb] at isOther
  split at isOther
  · exact sound other isOther
  · rcases List.mem_append.mp isOther with earlier | last
    · exact sound other earlier
    · exact Or.inr (List.mem_singleton.mp last ▸ isAdded)

/-- What has been shown ends with the window of the log, and the log grows. With
the next window the follower has what was shown before and what the window shows
of the fresh entries. -/
theorem absorb_window (within : window ≤ limit)
    (ends : log.rtake window <:+ shown) (distinct : ((shown ++ fresh).map key).Nodup) :
    (((log ++ fresh).rtake window).foldl (absorb key) (shown.rtake limit)).rtake limit =
      (shown ++ fresh.rtake window).rtake limit := by
  have recalled : log.rtake (window - fresh.length) ⊆ shown.rtake limit := by
    apply List.IsSuffix.subset
    apply suffix_rtake
    · have smaller := rtake_suffix (log.rtake window) (window - fresh.length)
      rw [rtake_rtake (Nat.sub_le _ _)] at smaller
      exact smaller.trans ends
    · exact (length_rtake_le _ _).trans ((Nat.sub_le _ _).trans within)
  have apart : ((shown.rtake limit ++ fresh.rtake window).map key).Nodup :=
    distinct.sublist
      (((rtake_suffix _ _).sublist.append (rtake_suffix _ _).sublist).map key)
  have few : (fresh.rtake window).length ≤ limit := (length_rtake_le _ _).trans within
  rw [rtake_append, List.foldl_append, foldl_absorb_of_subset recalled,
    foldl_absorb_of_distinct apart, rtake_append, rtake_append, rtake_rtake (Nat.sub_le _ _)]

theorem window_suffix (ends : log.rtake window <:+ shown) :
    (log ++ fresh).rtake window <:+ shown ++ fresh.rtake window := by
  rw [rtake_append]
  have smaller := rtake_suffix (log.rtake window) (window - fresh.length)
  rw [rtake_rtake (Nat.sub_le _ _)] at smaller
  rcases smaller.trans ends with ⟨start, rfl⟩
  exact ⟨start, by rw [List.append_assoc]⟩

end Absorbed

end Irohsion.GrowingLog
