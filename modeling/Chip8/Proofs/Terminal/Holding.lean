import Chip8.Proofs.Keypad
import Chip8.Proofs.Terminal.KeyHolds
import Chip8.Terminal.Listener
/-!
# How long keys are held

A terminal does not tell when a key is released. A listener takes a key as held for some time after
its last press, and keeps two records of that: the keypad, which the machine reads, and the times of
the presses. They agree in every state of a listener, and after every turn that lets go of keys they
hold just the keys whose last press is recent enough.
-/

namespace Chip8

namespace Keypad

theorem isHeld_foldl_release (k : Keypad) (released : List UInt8) (key : UInt8) :
    (released.foldl (fun k r => k.write (.release r)) k).isHeld key =
      (k.isHeld key && decide (key ∉ released)) := by
  induction released generalizing k with
  | nil => simp
  | cons r rs ih =>
    rw [List.foldl_cons, ih, Write.release, isHeld_set]
    by_cases hr : r = key
    · subst hr
      by_cases hlt : r.toNat < 16
      · simp [hlt]
      · simp [k.isHeld_of_le (Nat.not_lt.mp hlt)]
    · simp [hr, Ne.symm hr]

end Keypad

namespace Terminal

theorem Layout.length_chars (l : Layout) : l.chars.length = 16 := by
  cases l <;> rfl

theorem Layout.toNat_lt_of_key? {l : Layout} {key : Key} {k : UInt8} (h : l.key? key = some k) :
    k.toNat < 16 := by
  cases key with
  | char c =>
    obtain ⟨i, hi, rfl⟩ := Option.map_eq_some_iff.mp h
    have hlt : i < 16 :=
      l.length_chars ▸ (List.findIdx?_eq_some_iff_findIdx_eq.mp hi).1
    rwa [show (UInt8.ofNat i).toNat = i from UInt8.toNat_ofNat_of_lt (Nat.lt_trans hlt (by decide))]
  | _ => cases h

namespace Listener

def Turn.press? (layout : Layout) (t : Turn) : Option UInt8 :=
  t.key.bind fun key => if key.command? = none then layout.key? key else none

def lastPress? (layout : Layout) (ts : List Turn) (k : UInt8) : Option Nat :=
  (ts.filter fun t => t.press? layout = some k).getLast?.map Turn.pressed

theorem lastPress?_concat (layout : Layout) (ts : List Turn) (t : Turn) (k : UInt8) :
    lastPress? layout (ts ++ [t]) k =
      if t.press? layout = some k then some t.pressed else lastPress? layout ts k := by
  by_cases h : t.press? layout = some k <;> simp [lastPress?, List.filter_append, h]

theorem Turn.toNat_lt_of_press? {layout : Layout} {t : Turn} {k : UInt8}
    (h : t.press? layout = some k) : k.toNat < 16 := by
  obtain ⟨key, -, hk⟩ := Option.bind_eq_some_iff.mp h
  split at hk
  · exact Layout.toNat_lt_of_key? hk
  · cases hk

def hear (l : Listener) (t : Turn) : Listener :=
  match t.press? l.layout with
  | some k => { l with keypad := l.keypad.write (.press k), holds := l.holds.push k t.pressed }
  | none => l

/-- A turn is completed, unless the listener is done before it or by it. -/
theorem turn_cases (l : Listener) (t : Turn) :
    (l.turn t).1 = { l with done := true } ∨
      (l.done = false ∧ (l.turn t).1 = (l.hear t).releaseExpired t.now) := by
  obtain ⟨layout, keypad, holds, done⟩ := l
  cases done with
  | true => exact .inl rfl
  | false =>
    rcases t with ⟨_ | key, pressed, now⟩
    · exact .inr ⟨rfl, rfl⟩
    · rcases hc : key.command? with _ | command
      · right
        simp only [turn, hear, Turn.press?, press, hc, Option.bind_some, if_pos]
        cases layout.key? key <;> simp
      · cases command <;> simp [turn, hear, Turn.press?, hc]

theorem run_cons (l : Listener) (t : Turn) (ts : List Turn) :
    (l.run (t :: ts)).1 = ((l.turn t).1.run ts).1 := rfl

theorem run_append (l : Listener) (ts us : List Turn) :
    (l.run (ts ++ us)).1 = ((l.run ts).1.run us).1 := by
  induction ts generalizing l with
  | nil => rfl
  | cons t ts ih => rw [List.cons_append, run_cons, ih, run_cons]

theorem running_of_run {l : Listener} (ts : List Turn) (running : (l.run ts).1.done = false) :
    l.done = false := by
  induction ts generalizing l with
  | nil => exact running
  | cons t ts ih =>
    have hturn := ih (run_cons l t ts ▸ running)
    rcases l.turn_cases t with hq | ⟨hd, -⟩
    · rw [hq] at hturn
      cases hturn
    · exact hd

@[simp] theorem layout_hear (l : Listener) (t : Turn) : (l.hear t).layout = l.layout := by
  unfold hear; split <;> rfl

@[simp] theorem timeout_hear (l : Listener) (t : Turn) :
    (l.hear t).holds.timeout = l.holds.timeout := by
  unfold hear; split <;> rfl

theorem pressed?_hear (l : Listener) (t : Turn) (k : UInt8) :
    (l.hear t).holds.pressed? k =
      if t.press? l.layout = some k then some t.pressed else l.holds.pressed? k := by
  unfold hear
  split
  · next pressed hp =>
    simp only [KeyHolds.pressed?_push, hp, Option.some_inj]
    by_cases hk : pressed = k
    · subst hk
      simp [Turn.toNat_lt_of_press? hp]
    · simp [hk]
  · next hp => simp [hp]

theorem isHeld_hear (l : Listener) (t : Turn) (k : UInt8) :
    (l.hear t).keypad.isHeld k = (decide (t.press? l.layout = some k) || l.keypad.isHeld k) := by
  unfold hear
  split
  · next pressed hp =>
    simp only [Keypad.Write.press, Keypad.isHeld_set, hp, Option.some_inj]
    by_cases hk : pressed = k
    · subst hk
      simp [Turn.toNat_lt_of_press? hp]
    · simp [hk]
  · next hp => simp [hp]

theorem pressed?_releaseExpired (l : Listener) (now : Nat) (k : UInt8) :
    (l.releaseExpired now).holds.pressed? k =
      (l.holds.pressed? k).filter fun p => now - p < l.holds.timeout :=
  l.holds.pressed?_popExpired now k

theorem isHeld_releaseExpired (l : Listener) (now : Nat) (k : UInt8) :
    (l.releaseExpired now).keypad.isHeld k =
      (l.keypad.isHeld k && decide (k ∉ (l.holds.popExpired now).1)) :=
  l.keypad.isHeld_foldl_release _ k

def Agrees (l : Listener) : Prop := ∀ k, l.keypad.isHeld k = (l.holds.pressed? k).isSome

namespace Agrees

theorem hear {l : Listener} (h : l.Agrees) (t : Turn) : (l.hear t).Agrees := by
  intro k
  rw [isHeld_hear, pressed?_hear, h k]
  split <;> simp [*]

theorem releaseExpired {l : Listener} (h : l.Agrees) (now : Nat) :
    (l.releaseExpired now).Agrees := by
  intro k
  simp only [isHeld_releaseExpired, pressed?_releaseExpired, h k, KeyHolds.mem_expired]
  cases l.holds.pressed? k with
  | none => rfl
  | some p =>
    by_cases hp : now - p < l.holds.timeout
    · simp [Option.filter, hp]
    · simp [Option.filter, hp, Nat.not_lt.mp hp]

theorem turn {l : Listener} (h : l.Agrees) (t : Turn) : (l.turn t).1.Agrees := by
  rcases l.turn_cases t with hq | ⟨-, hc⟩
  · exact hq ▸ h
  · exact hc ▸ (h.hear t).releaseExpired t.now

theorem run {l : Listener} (h : l.Agrees) (ts : List Turn) : (l.run ts).1.Agrees := by
  induction ts generalizing l with
  | nil => exact h
  | cons t ts ih => exact ih (h.turn t)

end Agrees

/-- A listener that has completed some turns, and let go of keys at the given time. It remembers of
each key the last press, unless that is too long ago. -/
structure Tracks (layout : Layout) (ts : List Turn) (now : Nat) (l : Listener) : Prop where
  layout_eq : l.layout = layout
  timeout_eq : l.holds.timeout = holdTimeout
  pressed? : ∀ k, l.holds.pressed? k =
    (lastPress? layout ts k).filter fun p => now - p < holdTimeout

namespace Tracks

variable {layout : Layout} {before : List Turn} {now : Nat} {l : Listener}

theorem start (layout : Layout) (now : Nat) : Tracks layout [] now { layout } :=
  ⟨rfl, rfl, fun k => KeyHolds.pressed?_fresh holdTimeout k⟩

theorem turn (h : Tracks layout before now l) {t : Turn} (later : now ≤ t.now)
    (running : (l.turn t).1.done = false) : Tracks layout (before ++ [t]) t.now (l.turn t).1 := by
  obtain ⟨rfl, htimeout, hpressed⟩ := h
  rcases l.turn_cases t with hq | ⟨-, hc⟩
  · rw [hq] at running
    cases running
  rw [hc]
  refine ⟨l.layout_hear t, (l.timeout_hear t).trans htimeout, fun k => ?_⟩
  rw [pressed?_releaseExpired, pressed?_hear, hpressed, lastPress?_concat, timeout_hear, htimeout]
  split
  · rfl
  · -- what was too long ago before is so now
    rw [Option.filter_filter]
    congr 1
    funext p
    by_cases hp : t.now - p < holdTimeout
    · have : now - p < holdTimeout := by omega
      simp [hp, this]
    · simp [hp]

theorem lastPress?_eq (h : Tracks layout before now l) {k : UInt8} {p : Nat}
    (hp : l.holds.pressed? k = some p) : lastPress? layout before k = some p :=
  (Option.filter_eq_some_iff.mp (h.pressed? k ▸ hp)).1

theorem run (h : Tracks layout before now l) {ts : List Turn}
    (ordered : (now :: ts.map Turn.now).Pairwise (· ≤ ·)) (running : (l.run ts).1.done = false) :
    Tracks layout (before ++ ts) ((ts.map Turn.now).getLastD now) (l.run ts).1 := by
  induction ts generalizing before now l with
  | nil => rwa [List.append_nil]
  | cons t ts ih =>
    have later : now ≤ t.now := List.rel_of_pairwise_cons ordered List.mem_cons_self
    have hturn := h.turn later (running_of_run ts running)
    rw [List.map_cons, List.getLastD_cons, run_cons, List.append_cons]
    exact ih hturn ordered.of_cons running

end Tracks

def after (layout : Layout) (ts : List Turn) : Listener := (({ layout } : Listener).run ts).1

theorem running_of_concat {layout : Layout} {ts : List Turn} {t : Turn}
    (running : (after layout (ts ++ [t])).done = false) : (after layout ts).done = false := by
  rw [after, run_append] at running
  exact running_of_run [t] running

theorem agrees_after (layout : Layout) (ts : List Turn) : (after layout ts).Agrees :=
  Agrees.run (fun k => by simp) ts

theorem tracks_after {layout : Layout} {ts : List Turn}
    (ordered : (ts.map Turn.now).Pairwise (· ≤ ·)) (running : (after layout ts).done = false) :
    Tracks layout ts ((ts.map Turn.now).getLastD 0) (after layout ts) :=
  (Tracks.start layout 0).run (List.pairwise_cons.mpr ⟨fun _ _ => Nat.zero_le _, ordered⟩) running

/-- The keypad and the times of the presses always agree. After a turn that is completed a key is
held just if its last press is recent enough, and in that turn it has been let go of just if its
last press is not. -/
theorem held_iff_pressed_lately (layout : Layout) :
    (∀ ts k,
      (after layout ts).keypad.isHeld k = ((after layout ts).holds.pressed? k).isSome) ∧
    ∀ (ts : List Turn) (t : Turn), ((ts ++ [t]).map Turn.now).Pairwise (· ≤ ·) →
      (after layout (ts ++ [t])).done = false → ∀ k,
        ((after layout (ts ++ [t])).keypad.isHeld k = true ↔
          ∃ p, lastPress? layout (ts ++ [t]) k = some p ∧ t.now < p + holdTimeout) ∧
        ((after layout ts).keypad.isHeld k = true ∨ t.press? layout = some k →
          ((after layout (ts ++ [t])).keypad.isHeld k = false ↔
            ∃ p, lastPress? layout (ts ++ [t]) k = some p ∧ p + holdTimeout ≤ t.now)) := by
  refine ⟨agrees_after layout, fun ts t ordered running k => ?_⟩
  have held : (after layout (ts ++ [t])).keypad.isHeld k = true ↔
      ∃ p, lastPress? layout (ts ++ [t]) k = some p ∧ t.now < p + holdTimeout := by
    have tracks := (tracks_after ordered running).pressed? k
    rw [agrees_after, tracks, List.map_append, List.map_singleton, List.getLastD_concat]
    cases lastPress? layout (ts ++ [t]) k with
    | none => simp
    | some p =>
      have timeout_pos : 0 < holdTimeout := by decide
      simp only [Option.filter, Option.some_inj, exists_eq_left']
      by_cases hp : t.now - p < holdTimeout <;> simp [hp] <;> omega
  refine ⟨held, fun known => ?_⟩
  -- a key that was held before the turn has been pressed, so there is a last press
  obtain ⟨p, hp⟩ : ∃ p, lastPress? layout (ts ++ [t]) k = some p := by
    rw [lastPress?_concat]
    split
    · exact ⟨t.pressed, rfl⟩
    · next other =>
      have heldBefore := known.resolve_right other
      rw [agrees_after] at heldBefore
      obtain ⟨p, hp⟩ := Option.isSome_iff_exists.mp heldBefore
      have orderedBefore : (ts.map Turn.now).Pairwise (· ≤ ·) :=
        ordered.sublist ((List.sublist_append_left ts [t]).map _)
      exact ⟨p, (tracks_after orderedBefore (running_of_concat running)).lastPress?_eq hp⟩
  rw [← Bool.not_eq_true, held, hp]
  simp

def repeated : List Turn :=
  [⟨some (.char '1'), 0, 0⟩] ++ [⟨some (.char '1'), 200000000, 200000000⟩]

theorem held_iff_pressed_lately_repeated :
    (after .hexadecimal repeated).keypad.isHeld 1 = true ∧
      (after .hexadecimal (repeated ++ [⟨none, 0, 449999999⟩])).keypad.isHeld 1 = true ∧
      (after .hexadecimal (repeated ++ [⟨none, 0, 450000000⟩])).keypad.isHeld 1 = false := by
  have lately := (held_iff_pressed_lately .hexadecimal).2
  have again : (after .hexadecimal repeated).keypad.isHeld 1 = true :=
    (lately _ _ (by decide) (by decide) 1).1.mpr ⟨200000000, by decide, by decide⟩
  refine ⟨again, ?_, ?_⟩
  · exact (lately repeated _ (by decide) (by decide) 1).1.mpr ⟨200000000, by decide, by decide⟩
  · exact ((lately repeated _ (by decide) (by decide) 1).2 (.inl again)).mpr
      ⟨200000000, by decide, by decide⟩

end Listener

end Terminal

end Chip8
