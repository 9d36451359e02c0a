import Chip8.Proofs.Terminal.KeyHolds
import Mathlib.Data.List.Induction

namespace Chip8.Terminal.KeyHolds

inductive Use : Type
  | push : (key : UInt8) → (time : Nat) → Use
  | popExpired : (now : Nat) → Use
  deriving DecidableEq, Repr

inductive Entry : Type
  | pushed : (key : UInt8) → (time : Nat) → Entry
  | expired : (keys : List UInt8) → Entry
  deriving DecidableEq, Repr

def use (h : KeyHolds) : Use → KeyHolds
  | .push key time => h.push key time
  | .popExpired now => (h.popExpired now).2

def Use.entry (h : KeyHolds) : Use → Entry
  | .push key time => .pushed key time
  | .popExpired now => .expired (h.popExpired now).1

def after (timeout : Nat) (us : List Use) : KeyHolds := us.foldl use { timeout }

def record (h : KeyHolds) : List Use → List Entry
  | [] => []
  | u :: us => u.entry h :: (h.use u).record us

def answer (timeout : Nat) (us : List Use) (now : Nat) : List UInt8 :=
  ((after timeout us).popExpired now).1

def Entry.Concerns (key : UInt8) : Entry → Prop
  | .pushed pressed _ => pressed = key
  | .expired keys => key ∈ keys

/-- The last press of a key was at that time, and the key has not been given back since. -/
def Pending (es : List Entry) (key : UInt8) (time : Nat) : Prop :=
  ∃ before later, es = before ++ .pushed key time :: later ∧ ∀ e ∈ later, ¬ e.Concerns key

def Use.regards (key : UInt8) : Use → Bool
  | .push pressed _ => pressed = key
  | .popExpired _ => true

theorem after_concat (timeout : Nat) (us : List Use) (u : Use) :
    after timeout (us ++ [u]) = (after timeout us).use u :=
  List.foldl_append ..

theorem record_concat (h : KeyHolds) (us : List Use) (u : Use) :
    h.record (us ++ [u]) = h.record us ++ [u.entry (us.foldl use h)] := by
  induction us generalizing h with
  | nil => rfl
  | cons first us ih => exact congrArg (first.entry h :: ·) (ih (h.use first))

theorem pending_nil (key : UInt8) (time : Nat) : ¬ Pending [] key time := by
  rintro ⟨before, later, split, -⟩
  cases before <;> cases split

theorem pending_concat (es : List Entry) (e : Entry) (key : UInt8) (time : Nat) :
    Pending (es ++ [e]) key time ↔
      e = .pushed key time ∨ ¬ e.Concerns key ∧ Pending es key time := by
  constructor
  · rintro ⟨before, later, split, quiet⟩
    rcases List.eq_nil_or_concat later with rfl | ⟨later, last, rfl⟩
    · exact .inl (List.singleton_inj.1 (List.append_inj' split rfl).2)
    · have split : es ++ [e] = (before ++ .pushed key time :: later) ++ [last] := by simpa using split
      obtain ⟨rfl, same⟩ := List.append_inj' split rfl
      obtain rfl := List.singleton_inj.1 same
      exact .inr ⟨quiet e (by simp), before, later, rfl, fun e' he => quiet e' (by simp [he])⟩
  · rintro (rfl | ⟨last, before, later, rfl, quiet⟩)
    · exact ⟨es, [], rfl, by simp⟩
    · refine ⟨before, later ++ [e], by simp, fun e' he => ?_⟩
      rcases List.mem_append.1 he with earlier | new
      · exact quiet e' earlier
      · exact List.mem_singleton.1 new ▸ last

@[simp] theorem timeout_use (h : KeyHolds) (u : Use) : (h.use u).timeout = h.timeout := by
  cases u <;> rfl

theorem timeout_after (timeout : Nat) (us : List Use) : (after timeout us).timeout = timeout := by
  induction us using List.reverseRecOn with
  | nil => rfl
  | append_singleton us u ih => rw [after_concat, timeout_use, ih]

theorem pressed?_popExpired_eq_some (h : KeyHolds) (now : Nat) (key : UInt8) (time : Nat) :
    (h.popExpired now).2.pressed? key = some time ↔
      key ∉ (h.popExpired now).1 ∧ h.pressed? key = some time := by
  rw [pressed?_popExpired, mem_expired, Option.filter_eq_some_iff]
  constructor
  · rintro ⟨pressed, held⟩
    refine ⟨?_, pressed⟩
    rintro ⟨time', pressed', expired⟩
    obtain rfl := Option.some_inj.1 (pressed.symm.trans pressed')
    exact absurd held (by simpa using expired)
  · rintro ⟨kept, pressed⟩
    refine ⟨pressed, ?_⟩
    simpa using fun expired => kept ⟨time, pressed, expired⟩

theorem pressed?_after (timeout : Nat) (us : List Use) (key : UInt8) (time : Nat) :
    (after timeout us).pressed? key = some time ↔
      key.toNat < 16 ∧ Pending (record { timeout } us) key time := by
  induction us using List.reverseRecOn with
  | nil => simp [after, record, pending_nil]
  | append_singleton us u ih =>
    rw [after_concat, record_concat, pending_concat]
    change ((after timeout us).use u).pressed? key = some time ↔ _ ∧
      (u.entry (after timeout us) = _ ∨ ¬ (u.entry (after timeout us)).Concerns key ∧ _)
    cases u with
    | push pressed time' =>
      rw [use, pressed?_push]
      by_cases here : pressed = key
      · subst here
        by_cases small : pressed.toNat < 16
        · simp [small, Use.entry, Entry.Concerns]
        · simp [small, pressed?_of_le _ (Nat.not_lt.1 small)]
      · simp [here, Use.entry, Entry.Concerns, ih]
    | popExpired now =>
      rw [use, pressed?_popExpired_eq_some, ih]
      simp only [Use.entry, Entry.Concerns, reduceCtorEq, false_or]
      exact and_left_comm

theorem mem_answer (timeout : Nat) (us : List Use) (now : Nat) (key : UInt8) :
    key ∈ answer timeout us now ↔
      ∃ time, (after timeout us).pressed? key = some time ∧ timeout ≤ now - time := by
  rw [answer, mem_expired, timeout_after]

theorem expired_ascending (h : KeyHolds) (now : Nat) :
    (h.popExpired now).1.Pairwise (· < ·) := by
  refine List.pairwise_map.2 ((List.pairwise_lt_range.filter _).imp_of_mem ?_)
  intro i j hi hj less
  have hi := List.mem_range.1 (List.mem_filter.1 hi).1
  have hj := List.mem_range.1 (List.mem_filter.1 hj).1
  rw [UInt8.lt_iff_toNat_lt, UInt8.toNat_ofNat', UInt8.toNat_ofNat']
  omega

theorem pressed?_after_filter (timeout : Nat) (us : List Use) (key : UInt8) :
    (after timeout (us.filter (·.regards key))).pressed? key = (after timeout us).pressed? key := by
  induction us using List.reverseRecOn with
  | nil => rfl
  | append_singleton us u ih =>
    rw [List.filter_append, after_concat]
    cases u with
    | push pressed time =>
      by_cases here : pressed = key
      · rw [List.filter_cons_of_pos (by simpa [Use.regards] using here), List.filter_nil, after_concat,
          use, use, pressed?_push, pressed?_push, ih]
      · rw [List.filter_cons_of_neg (by simpa [Use.regards] using here), List.filter_nil,
          List.append_nil, use, pressed?_push, if_neg (by simp [here]), ih]
    | popExpired now =>
      rw [List.filter_cons_of_pos rfl, List.filter_nil, after_concat, use, use, pressed?_popExpired,
        pressed?_popExpired, ih, timeout_after, timeout_after]

theorem pressed?_of_after_append {timeout : Nat} {us later : List Use} {key : UInt8} {time : Nat}
    (unpressed : ∀ t, .push key t ∉ later)
    (pressed : (after timeout (us ++ later)).pressed? key = some time) :
    (after timeout us).pressed? key = some time := by
  induction later using List.reverseRecOn with
  | nil => rwa [List.append_nil] at pressed
  | append_singleton later u ih =>
    refine ih (fun t ht => unpressed t (List.mem_append_left _ ht)) ?_
    rw [← List.append_assoc, after_concat] at pressed
    cases u with
    | push other time' =>
      have apart : other ≠ key := fun same => unpressed time' (by simp [same])
      rwa [use, pressed?_push, if_neg (by simp [apart])] at pressed
    | popExpired now =>
      rw [use, pressed?_popExpired_eq_some] at pressed
      exact pressed.2

section Sweep

/-- Looks at one key, and gathers and forgets it if it has expired. -/
def sweepKey (now : Nat) (swept : List UInt8 × KeyHolds) (k : Nat) : List UInt8 × KeyHolds :=
  let (keys, h) := swept
  if h.isExpired now (h.pressedAt[k]?.getD none) then
    (keys ++ [UInt8.ofNat k], { h with pressedAt := h.pressedAt.setIfInBounds k none })
  else (keys, h)

def sweep (h : KeyHolds) (now : Nat) : List UInt8 × KeyHolds :=
  (List.range 16).foldl (sweepKey now) ([], h)

structure SweptTo (h : KeyHolds) (now k : Nat) (swept : List UInt8 × KeyHolds) : Prop where
  keys : swept.1 =
    ((List.range k).filter fun i => h.isExpired now (h.pressedAt[i]?.getD none)).map UInt8.ofNat
  timeout : swept.2.timeout = h.timeout
  slots : ∀ i, swept.2.pressedAt[i]? =
    if i < k then h.pressedAt[i]?.map fun p => if h.isExpired now p then none else p
    else h.pressedAt[i]?

theorem eq_of_slots {h h' : KeyHolds} (timeout : h'.timeout = h.timeout)
    (slots : h'.pressedAt = h.pressedAt) : h' = h := by
  cases h
  cases h'
  exact congrArg₂ KeyHolds.mk timeout slots

theorem isExpired_congr {h h' : KeyHolds} (same : h'.timeout = h.timeout) :
    h'.isExpired = h.isExpired := by
  funext now p
  cases p <;> simp [isExpired, same]

theorem SweptTo.next {h : KeyHolds} {now k : Nat} {swept : List UInt8 × KeyHolds}
    (s : SweptTo h now k swept) (small : k < 16) : SweptTo h now (k + 1) (sweepKey now swept k) := by
  obtain ⟨keys, h'⟩ := swept
  obtain ⟨gathered, timeout, slots⟩ := s
  simp only at gathered timeout slots
  have slot : h.pressedAt[k]? = some h.pressedAt[k] := Vector.getElem?_eq_getElem small
  have here : h'.pressedAt[k]? = some h.pressedAt[k] := by rw [slots, if_neg (Nat.lt_irrefl k), slot]
  rw [sweepKey]
  simp only [isExpired_congr timeout, here, Option.getD_some]
  by_cases expired : h.isExpired now h.pressedAt[k] = true
  · rw [if_pos expired]
    refine ⟨?_, timeout, fun i => ?_⟩
    · simp [gathered, List.range_succ, slot, expired]
    · simp only [Vector.getElem?_setIfInBounds, slots]
      grind
  · rw [if_neg expired]
    refine ⟨?_, timeout, fun i => ?_⟩
    · simp [gathered, List.range_succ, slot, expired]
    · simp only [slots]
      grind

theorem sweptTo_foldl (h : KeyHolds) (now : Nat) {k : Nat} (small : k ≤ 16) :
    SweptTo h now k ((List.range k).foldl (sweepKey now) ([], h)) := by
  induction k with
  | zero => exact ⟨rfl, rfl, fun i => by rw [if_neg (Nat.not_lt_zero i)]; rfl⟩
  | succ k ih =>
    rw [List.range_succ, List.foldl_append]
    exact (ih (Nat.le_of_succ_le small)).next small

theorem sweep_eq (h : KeyHolds) (now : Nat) : h.sweep now = h.popExpired now := by
  have swept : SweptTo h now 16 (h.sweep now) := by
    rw [sweep]
    exact sweptTo_foldl h now (Nat.le_refl 16)
  have keys : (h.sweep now).1 = (h.popExpired now).1 := swept.keys
  have slots : (h.sweep now).2.pressedAt = (h.popExpired now).2.pressedAt := by
    refine Vector.ext fun i small => ?_
    have same := swept.slots i
    rw [if_pos small] at same
    simpa [popExpired, small] using same
  exact Prod.ext keys (eq_of_slots swept.timeout slots)

end Sweep

/-- Keys are given back in ascending order, and they are those that have been pressed since they were last
given back and whose last press is old enough. So a key that is given back twice is pressed in between,
and one that has been pressed lately is not given back. What is done with the other keys does not matter,
nor that the slots are gone over one by one. -/
theorem expires_once_after_last_push (timeout : Nat) :
    (∀ us now, (answer timeout us now).Pairwise (· < ·) ∧
      ∀ key, key ∈ answer timeout us now ↔
        key < 16 ∧ ∃ time, Pending (record { timeout } us) key time ∧ timeout ≤ now - time) ∧
    (∀ us between now now' key, key ∈ answer timeout us now →
      key ∈ answer timeout (us ++ .popExpired now :: between) now' →
        ∃ time, .push key time ∈ between) ∧
    (∀ us later key time now, (∀ t, .push key t ∉ later) → now - time < timeout →
      key ∉ answer timeout (us ++ .push key time :: later) now) ∧
    (∀ us now key,
      key ∈ answer timeout us now ↔ key ∈ answer timeout (us.filter (·.regards key)) now) ∧
    ∀ us now, (after timeout us).sweep now = (after timeout us).popExpired now := by
  refine ⟨fun us now => ⟨expired_ascending _ now, fun key => ?_⟩, ?_, ?_, fun us now key => ?_,
    fun us now => sweep_eq _ now⟩
  · rw [mem_answer]
    simp only [pressed?_after, and_assoc, exists_and_left]
    rfl
  · intro us between now now' key first again
    by_contra unpressed
    obtain ⟨time, pressed, -⟩ := (mem_answer ..).1 again
    rw [List.append_cons] at pressed
    have kept := pressed?_of_after_append (fun t ht => unpressed ⟨t, ht⟩) pressed
    rw [after_concat, use, pressed?_popExpired_eq_some] at kept
    exact kept.1 first
  · intro us later key time now unpressed recent expired
    obtain ⟨time', pressed, old⟩ := (mem_answer ..).1 expired
    rw [List.append_cons] at pressed
    have kept := pressed?_of_after_append unpressed pressed
    have small : key.toNat < 16 := ((pressed?_after ..).1 kept).1
    rw [after_concat, use, pressed?_push, if_pos ⟨rfl, small⟩] at kept
    obtain rfl := Option.some_inj.1 kept
    omega
  · rw [mem_answer, mem_answer, pressed?_after_filter]

def rewound : List Use :=
  [.push 3 0, .push 42 0, .popExpired 99] ++ .popExpired 100 :: [.push 3 90, .push 9 50]

theorem expires_once_after_last_push_rewound :
    answer 100 rewound 150 = [9] ∧ answer 100 rewound 190 = [3, 9] ∧
      (∃ time, .push 3 time ∈ [Use.push 3 90, .push 9 50]) ∧
      3 ∉ answer 100 ([.push 3 200] ++ .push 3 90 :: [.popExpired 0]) 150 := by
  obtain ⟨-, once, postponed, -⟩ := expires_once_after_last_push 100
  refine ⟨by decide +kernel, by decide +kernel, ?_, ?_⟩
  · exact once [.push 3 0, .push 42 0, .popExpired 99] _ 100 190 3 (by decide +kernel) (by decide +kernel)
  · exact postponed _ _ _ _ _ (by simp) (by decide +kernel)

end Chip8.Terminal.KeyHolds
