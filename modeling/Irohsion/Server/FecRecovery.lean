import Irohsion.Foundation.OrderedMap
import Irohsion.Server.FecState

/-! # What frame recovery returns

`recover_ready` treats every stored frame on its own: a frame that misses
exactly one member yields that member, and each frame it looks at is used up or
left as it was.
-/

namespace Irohsion.Server

open Protocol Std

namespace FecState

/-! ## Scanning one frame -/

/-- The payloads known for consecutive members, with the expected lengths. -/
def Known (known : Nat → Option Bytes) (baseSequence : Nat) :
    (index : Nat) → (payloadLengths : List Nat) → (payloads : List Bytes) → Prop
  | _, [], [] => True
  | index, expectedLen :: rest, payload :: payloads =>
      known (sequenceAfter baseSequence index) = some payload ∧
        payload.length = expectedLen ∧ Known known baseSequence (index + 1) rest payloads
  | _, _, _ => False

theorem Known.length_eq {known : Nat → Option Bytes} {baseSequence : Nat} :
    ∀ {index payloadLengths payloads}, Known known baseSequence index payloadLengths payloads →
    payloadLengths.length = payloads.length
  | _, [], [], _ => rfl
  | _, _ :: _, _ :: _, members => congrArg (· + 1) (Known.length_eq members.2.2)

/-- With one member already missing, a scan that goes through knows all others. -/
theorem scanFrame_of_missing {known : Nat → Option Bytes} {baseSequence : Nat}
    {payloadLengths : List Nat} {index : Nat} {parity final : Bytes}
    {present : Nat × Nat} {missing : Option (Nat × Nat)}
    (scan : scanFrame known baseSequence index payloadLengths parity (some present) =
      .scanned final missing) :
    missing = some present ∧ ∃ payloads, Known known baseSequence index payloadLengths payloads ∧
      final = payloads.foldl Parity.overlay parity := by
  induction payloadLengths generalizing index parity with
  | nil =>
      cases scan
      exact ⟨rfl, [], trivial, rfl⟩
  | cons expectedLen rest induction =>
      rw [scanFrame] at scan
      split at scan
      · cases scan
      · split at scan
        · rename_i payload found
          split at scan
          · cases scan
          · rename_i usable
            rcases induction scan with ⟨same, payloads, members, parityEq⟩
            have sameLength : payload.length = expectedLen := by
              by_contra different
              exact usable (Or.inl different)
            exact ⟨same, payload :: payloads, ⟨found, sameLength, members⟩, parityEq⟩
        · cases scan

/-- A scan that reports one missing member knows every other member. -/
theorem scanFrame_of_recovered {known : Nat → Option Bytes} {baseSequence : Nat}
    {payloadLengths : List Nat} {index : Nat} {parity final : Bytes}
    {sequence expectedLen : Nat}
    (scan : scanFrame known baseSequence index payloadLengths parity none =
      .scanned final (some (sequence, expectedLen))) :
    ∃ frontLengths backLengths front back,
      payloadLengths = frontLengths ++ expectedLen :: backLengths ∧
      Known known baseSequence index frontLengths front ∧
      sequence = sequenceAfter baseSequence (index + frontLengths.length) ∧
      known sequence = none ∧
      Known known baseSequence (index + frontLengths.length + 1) backLengths back ∧
      final = (front ++ back).foldl Parity.overlay parity := by
  induction payloadLengths generalizing index parity with
  | nil => cases scan
  | cons headLen rest induction =>
      rw [scanFrame] at scan
      split at scan
      · cases scan
      · split at scan
        · rename_i payload found
          split at scan
          · cases scan
          · rename_i usable
            rcases induction scan with
              ⟨frontLengths, backLengths, front, back, split, members, atIndex, unknown,
                others, parityEq⟩
            have sameLength : payload.length = headLen := by
              by_contra different
              exact usable (Or.inl different)
            have shift : index + 1 + frontLengths.length =
                index + (frontLengths.length + 1) := by omega
            rw [shift] at atIndex others
            exact ⟨headLen :: frontLengths, backLengths, payload :: front, back,
              by rw [split, List.cons_append], ⟨found, sameLength, members⟩, atIndex, unknown,
              others, parityEq⟩
        · rename_i unknown
          rcases scanFrame_of_missing scan with ⟨same, payloads, members, parityEq⟩
          cases same
          exact ⟨[], rest, [], payloads, rfl, trivial, rfl, unknown, members, parityEq⟩

/-- Known members with fitting lengths are all combined into the parity. -/
theorem scanFrame_of_known {known : Nat → Option Bytes} {baseSequence : Nat}
    {payloads : List Bytes} {payloadLengths : List Nat} {index : Nat} {parity : Bytes}
    (members : Known known baseSequence index payloadLengths payloads)
    (fits : ∀ length ∈ payloadLengths, length ≤ parity.length)
    (rest : List Nat) (missing : Option (Nat × Nat)) :
    scanFrame known baseSequence index (payloadLengths ++ rest) parity missing =
      scanFrame known baseSequence (index + payloadLengths.length) rest
        (payloads.foldl Parity.overlay parity) missing := by
  induction payloadLengths generalizing index payloads parity with
  | nil =>
      cases payloads with
      | nil => rfl
      | cons _ _ => exact absurd members (by simp [Known])
  | cons expectedLen payloadLengths induction =>
      cases payloads with
      | nil => exact absurd members (by simp [Known])
      | cons payload payloads =>
          rcases members with ⟨found, sameLength, members⟩
          have headFits := fits expectedLen (by simp)
          have tailFits : ∀ length ∈ payloadLengths,
              length ≤ (Parity.overlay parity payload).length := by
            intro length member
            rw [Parity.length_overlay]
            exact fits length (by simp [member])
          have usable : ¬ (payload.length ≠ expectedLen ∨ parity.length < payload.length) := by
            omega
          have shift : index + 1 + payloadLengths.length =
              index + (payloadLengths.length + 1) := by omega
          rw [List.cons_append, scanFrame.eq_def]
          simp only [if_neg (Nat.not_lt.mpr headFits), found, if_neg usable]
          rw [induction members tailFits, List.length_cons, shift, List.foldl_cons]

/-- One unknown member among known ones is reported with the parity that is
left after removing the known ones. -/
theorem scanFrame_of_one_unknown {known : Nat → Option Bytes} {baseSequence : Nat}
    {frontLengths backLengths : List Nat} {front back : List Bytes} {parity : Bytes}
    {expectedLen : Nat}
    (members : Known known baseSequence 0 frontLengths front)
    (unknown : known (sequenceAfter baseSequence frontLengths.length) = none)
    (others : Known known baseSequence (frontLengths.length + 1) backLengths back)
    (fits : ∀ length ∈ frontLengths ++ expectedLen :: backLengths, length ≤ parity.length) :
    scanFrame known baseSequence 0 (frontLengths ++ expectedLen :: backLengths) parity none =
      .scanned ((front ++ back).foldl Parity.overlay parity)
        (some (sequenceAfter baseSequence frontLengths.length, expectedLen)) := by
  have frontFits : ∀ length ∈ frontLengths, length ≤ parity.length :=
    fun length member => fits length (by simp [member])
  have memberFits := fits expectedLen (by simp)
  have backFits : ∀ length ∈ backLengths,
      length ≤ (front.foldl Parity.overlay parity).length := by
    intro length member
    rw [Parity.length_foldl_overlay]
    exact fits length (by simp [member])
  rw [scanFrame_of_known members frontFits, Nat.zero_add, scanFrame.eq_def]
  simp only [Parity.length_foldl_overlay, if_neg (Nat.not_lt.mpr memberFits), unknown]
  have remaining := scanFrame_of_known others backFits []
    (some (sequenceAfter baseSequence frontLengths.length, expectedLen))
  rw [List.append_nil] at remaining
  rw [remaining, List.foldl_append]
  rfl

/-! ## All stored frames -/

/-- What one stored frame yields, judged against the state before the search. -/
def recoveredFrom (fec : FecState) (nextSeq : Nat) (buffered : Buffered) (base : Nat) :
    List (Nat × Bytes) :=
  match fec.frames[base]? with
  | none => []
  | some frame =>
      match scanFrame (fec.payloadFor buffered) frame.baseSequence 0 frame.payloadLengths
          frame.parity none with
      | .scanned parity (some (sequence, expectedLen)) =>
          if sequence < nextSeq then [] else [(sequence, parity.take expectedLen)]
      | _ => []

/-- Searching keeps the payload cache and the queues, and only removes frames. -/
structure Searched (before after : FecState) : Prop where
  payloads : after.payloads = before.payloads
  payloadOrder : after.payloadOrder = before.payloadOrder
  frames : ∀ {base : Nat} {frame : FecFrame},
    after.frames[base]? = some frame → before.frames[base]? = some frame

theorem Searched.refl (fec : FecState) : Searched fec fec := ⟨rfl, rfl, id⟩

theorem Searched.erase (fec : FecState) (base : Nat) :
    Searched fec { fec with frames := fec.frames.erase base } :=
  ⟨rfl, rfl, fun found => (OrderedMap.getElem?_erase_eq_some.mp found).2⟩

theorem Searched.trans {first second third : FecState} (earlier : Searched first second)
    (later : Searched second third) : Searched first third where
  payloads := later.payloads.trans earlier.payloads
  payloadOrder := later.payloadOrder.trans earlier.payloadOrder
  frames found := earlier.frames (later.frames found)

theorem recoverFrame_eq (nextSeq : Nat) (buffered : Buffered) (fec : FecState)
    (recovered : List (Nat × Bytes)) (base : Nat) :
    recoverFrame nextSeq buffered (fec, recovered) base = (fec, recovered) ∧
        recoveredFrom fec nextSeq buffered base = [] ∨
      base ∈ fec.frames ∧ recoverFrame nextSeq buffered (fec, recovered) base =
        ({ fec with frames := fec.frames.erase base },
          recovered ++ recoveredFrom fec nextSeq buffered base) := by
  cases found : fec.frames[base]? with
  | none =>
      simp only [recoverFrame, recoveredFrom, found]
      exact Or.inl ⟨trivial, trivial⟩
  | some frame =>
      have member := OrderedMap.mem_of_getElem? found
      cases scan : scanFrame (fec.payloadFor buffered) frame.baseSequence 0
          frame.payloadLengths frame.parity none with
      | unusable =>
          simp only [recoverFrame, recoveredFrom, found, scan, List.append_nil]
          exact Or.inr ⟨member, trivial⟩
      | multipleMissing =>
          simp only [recoverFrame, recoveredFrom, found, scan]
          exact Or.inl ⟨trivial, trivial⟩
      | scanned parity missing =>
          rcases missing with _ | ⟨sequence, expectedLen⟩
          · simp only [recoverFrame, recoveredFrom, found, scan, List.append_nil]
            exact Or.inr ⟨member, trivial⟩
          · refine Or.inr ⟨member, ?_⟩
            by_cases behind : sequence < nextSeq <;>
              simp [recoverFrame, recoveredFrom, found, scan, behind]

theorem recoverFrame_searched (nextSeq : Nat) (buffered : Buffered) (fec : FecState)
    (recovered : List (Nat × Bytes)) (base : Nat) :
    Searched fec (recoverFrame nextSeq buffered (fec, recovered) base).1 := by
  rcases recoverFrame_eq nextSeq buffered fec recovered base with ⟨same, _⟩ | ⟨_, erased⟩
  · rw [same]
    exact Searched.refl fec
  · rw [erased]
    exact Searched.erase fec base

/-- Frames at other keys and the cache are what one frame's result depends on. -/
theorem recoveredFrom_congr {fec other : FecState} {base : Nat}
    (payloads : other.payloads = fec.payloads)
    (frame : other.frames[base]? = fec.frames[base]?) (nextSeq : Nat) (buffered : Buffered) :
    recoveredFrom other nextSeq buffered base = recoveredFrom fec nextSeq buffered base := by
  have known : other.payloadFor buffered = fec.payloadFor buffered := by
    funext sequence
    rw [payloadFor, payloadFor, payloads]
  rw [recoveredFrom, recoveredFrom, frame, known]

theorem recoverFrame_other {nextSeq : Nat} {buffered : Buffered} {fec : FecState}
    {recovered : List (Nat × Bytes)} {base other : Nat} (different : base ≠ other) :
    (recoverFrame nextSeq buffered (fec, recovered) base).1.frames[other]? =
      fec.frames[other]? := by
  rcases recoverFrame_eq nextSeq buffered fec recovered base with ⟨same, _⟩ | ⟨_, erased⟩
  · rw [same]
  · rw [erased, OrderedMap.getElem?_erase_of_ne different]

theorem foldl_recoverFrame {nextSeq : Nat} {buffered : Buffered} {bases : List Nat}
    (nodup : bases.Nodup) (fec : FecState) (recovered : List (Nat × Bytes)) :
    (bases.foldl (recoverFrame nextSeq buffered) (fec, recovered)).2 =
        recovered ++ bases.flatMap (recoveredFrom fec nextSeq buffered) ∧
      Searched fec (bases.foldl (recoverFrame nextSeq buffered) (fec, recovered)).1 := by
  induction bases generalizing fec recovered with
  | nil => exact ⟨by simp, Searched.refl fec⟩
  | cons base bases induction =>
      have parts := List.nodup_cons.mp nodup
      have first := recoverFrame_searched nextSeq buffered fec recovered base
      rcases induction parts.2 (recoverFrame nextSeq buffered (fec, recovered) base).1
        (recoverFrame nextSeq buffered (fec, recovered) base).2 with ⟨pairs, rest⟩
      have unchanged : bases.flatMap (recoveredFrom
          (recoverFrame nextSeq buffered (fec, recovered) base).1 nextSeq buffered) =
          bases.flatMap (recoveredFrom fec nextSeq buffered) := by
        apply List.flatMap_congr
        intro other member
        have different : base ≠ other := fun equal => parts.1 (equal ▸ member)
        exact recoveredFrom_congr first.payloads (recoverFrame_other different) nextSeq buffered
      have head : (recoverFrame nextSeq buffered (fec, recovered) base).2 =
          recovered ++ recoveredFrom fec nextSeq buffered base := by
        rcases recoverFrame_eq nextSeq buffered fec recovered base with ⟨same, none⟩ | ⟨_, erased⟩
        · rw [same, none, List.append_nil]
        · rw [erased]
      constructor
      · rw [List.foldl_cons, List.flatMap_cons, ← List.append_assoc, ← head, ← unchanged]
        exact pairs
      · exact first.trans rest

theorem recoverReady_pairs (fec : FecState) (nextSeq : Nat) (buffered : Buffered) :
    (fec.recoverReady nextSeq buffered).2 =
      fec.frames.keys.flatMap (recoveredFrom fec nextSeq buffered) :=
  (foldl_recoverFrame ExtTreeMap.nodup_keys fec []).1

theorem recoverReady_searched (fec : FecState) (nextSeq : Nat) (buffered : Buffered) :
    Searched fec (fec.recoverReady nextSeq buffered).1 :=
  (foldl_recoverFrame ExtTreeMap.nodup_keys fec []).2

/-- A recovered pair comes from a stored frame that knows all other members. -/
theorem mem_recoverReady {fec : FecState} {nextSeq : Nat} {buffered : Buffered}
    {sequence : Nat} {payload : Bytes} :
    (sequence, payload) ∈ (fec.recoverReady nextSeq buffered).2 ↔
      ∃ (base : Nat) (frame : FecFrame) (parity : Bytes) (expectedLen : Nat),
        fec.frames[base]? = some frame ∧
        scanFrame (fec.payloadFor buffered) frame.baseSequence 0 frame.payloadLengths
          frame.parity none = .scanned parity (some (sequence, expectedLen)) ∧
        nextSeq ≤ sequence ∧ payload = parity.take expectedLen := by
  rw [recoverReady_pairs, List.mem_flatMap]
  constructor
  · intro recovers
    rcases recovers with ⟨base, _, member⟩
    rw [recoveredFrom] at member
    split at member
    · cases member
    · rename_i frame found
      split at member
      · rename_i parity missing expectedLen scan
        split at member
        · cases member
        · rename_i ahead
          rcases Prod.mk.inj (List.mem_singleton.mp member) with ⟨rfl, rfl⟩
          exact ⟨base, frame, parity, expectedLen, found, scan, Nat.le_of_not_lt ahead, rfl⟩
      · cases member
  · intro recovers
    rcases recovers with ⟨base, frame, parity, expectedLen, found, scan, ahead, rfl⟩
    refine ⟨base, ExtTreeMap.mem_keys.mpr (OrderedMap.mem_of_getElem? found), ?_⟩
    simp [recoveredFrom, found, scan, Nat.not_lt.mpr ahead]

end FecState

end Irohsion.Server
