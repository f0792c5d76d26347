/-
The algebra of the mixer. The factor is odd and so has an inverse modulo 2^64: no addition loses
anything of the state before it. The state after a list of words is affine in the state before it,
with a slope that depends on the number of words only. Hence, in a list of words, a part may be replaced
by another one of the same length unnoticed exactly when the two parts alone have the same digest.
-/
import Phrasebook.Fingerprint.Mixer
import Mathlib.Algebra.Group.Nat.Defs

namespace Phrasebook.Mixer

/-! ## One addition -/

theorem factor_mul_inverse : factor * 0x781494a55daaed0d = 1 := by decide

theorem mul_factor_inj {a b : UInt64} : a * factor = b * factor ↔ a = b := by
  constructor
  · intro h
    have hmul := congrArg (· * 0x781494a55daaed0d) h
    simpa only [UInt64.mul_assoc, factor_mul_inverse, UInt64.mul_one] using hmul
  · intro h
    rw [h]

theorem add_state_inj {s t w : UInt64} : add s w = add t w ↔ s = t := by
  unfold add
  rw [mul_factor_inj, UInt64.add_left_inj]

theorem add_word_inj {s v w : UInt64} : add s v = add s w ↔ v = w := by
  unfold add
  rw [mul_factor_inj, UInt64.add_right_inj]

/-! ## Lists of words -/

theorem foldl_add_state_inj {ws : List UInt64} {s t : UInt64} :
    ws.foldl add s = ws.foldl add t ↔ s = t := by
  induction ws generalizing s t with
  | nil => rfl
  | cons w ws ih => rw [List.foldl_cons, List.foldl_cons, ih, add_state_inj]

/-- The state after a list of words is affine in the state before it. -/
theorem foldl_add_eq (ws : List UInt64) (s : UInt64) :
    ws.foldl add s = s * factor ^ ws.length + ws.foldl add 0 := by
  induction ws generalizing s with
  | nil => simp
  | cons w ws ih =>
    -- both states after `w` are opened, so that the rest of the list adds the same to either side
    rw [List.foldl_cons, List.foldl_cons, ih (add s w), ih (add 0 w), List.length_cons, UInt64.pow_succ]
    unfold add
    generalize factor ^ ws.length = slope
    grind

theorem foldl_add_part_iff {vs ws : List UInt64} (hlen : vs.length = ws.length) (s : UInt64) :
    vs.foldl add s = ws.foldl add s ↔ vs.foldl add 0 = ws.foldl add 0 := by
  rw [foldl_add_eq vs s, foldl_add_eq ws s, hlen, UInt64.add_right_inj]

/-! ## Digests -/

/-- Rotating exchanges the lower 38 bits and the upper 26. -/
theorem rotate_toNat (w : UInt64) :
    (rotate w).toNat = w.toNat % 2 ^ 38 * 2 ^ 26 + w.toNat / 2 ^ 38 := by
  have hlt := w.toNat_lt
  have hhigh : w.toNat / 2 ^ 38 < 2 ^ 26 := by omega
  unfold rotate
  rw [UInt64.toNat_or, UInt64.toNat_shiftLeft, UInt64.toNat_shiftRight,
    show (26 : UInt64).toNat % 64 = 26 from rfl, show (38 : UInt64).toNat % 64 = 38 from rfl,
    Nat.shiftRight_eq_div_pow, Nat.shiftLeft_eq,
    show w.toNat * 2 ^ 26 % 2 ^ 64 = w.toNat % 2 ^ 38 * 2 ^ 26 by omega, ← Nat.shiftLeft_eq,
    ← Nat.shiftLeft_add_eq_or_of_lt hhigh]

theorem rotate_inj {v w : UInt64} : rotate v = rotate w ↔ v = w := by
  constructor
  · intro h
    have hnat := congrArg UInt64.toNat h
    rw [rotate_toNat, rotate_toNat] at hnat
    have hv := v.toNat_lt
    have hw := w.toNat_lt
    apply UInt64.toNat.inj
    omega
  · intro h
    rw [h]

theorem digest_cons_inj {v w : UInt64} {ws : List UInt64} :
    digest (v :: ws) = digest (w :: ws) ↔ v = w := by
  unfold digest
  rw [rotate_inj, List.foldl_cons, List.foldl_cons, foldl_add_state_inj, add_word_inj]

/-- A part of a list of words is replaced by another of the same length unnoticed exactly when the two
parts have the same digest. -/
theorem digest_part_iff {vs ws : List UInt64} (hlen : vs.length = ws.length)
    (before after : List UInt64) :
    digest (before ++ vs ++ after) = digest (before ++ ws ++ after) ↔ digest vs = digest ws := by
  unfold digest
  rw [rotate_inj, rotate_inj]
  simp only [List.foldl_append]
  rw [foldl_add_state_inj, foldl_add_part_iff hlen]

end Phrasebook.Mixer
