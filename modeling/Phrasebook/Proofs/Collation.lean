/-
Words are ordered by code point. They are compared byte by byte, and UTF-8 keeps the order of characters:
where two texts first differ in a character, their bytes first differ within the codes of the two
characters, and there the smaller code point has the smaller byte. What a comparison of words says is
therefore said by the code points, and it is a total order that agrees with equality.
-/
import Phrasebook.Word
import Mathlib.Algebra.Group.Nat.Defs
import Mathlib.Data.List.Basic
import Mathlib.Order.Monotone.Basic

namespace Phrasebook

namespace Text

variable {α β : Type}

/-! ## Codes that keep order -/

/-- Of two values the one with the smaller number has the smaller code, and it does not matter what follows
the codes: they differ before the shorter one ends. -/
structure KeepsOrder [Ord β] (number : α → Nat) (code : α → List β) : Prop where
  nonempty : ∀ a, code a ≠ []
  lt : ∀ {a b : α} (x y : List β), number a < number b → compare (code a ++ x) (code b ++ y) = .lt

theorem compare_append_left [Ord β] [Std.ReflOrd β] (l x y : List β) :
    compare (l ++ x) (l ++ y) = compare x y := by
  induction l with
  | nil => rfl
  | cons b l ih =>
    rw [List.cons_append, List.cons_append, List.compare_cons_cons, Std.compare_self, ih]
    rfl

/-- Codes one after the other compare as the numbers of the values do, one after the other. -/
theorem KeepsOrder.compare_flatMap [Ord β] [Std.OrientedOrd β] {number : α → Nat} {code : α → List β}
    (h : KeepsOrder number code) (hnum : Function.Injective number) (l m : List α) :
    compare (l.flatMap code) (m.flatMap code) = compare (l.map number) (m.map number) := by
  induction l generalizing m with
  | nil =>
    cases m with
    | nil => rfl
    | cons b m =>
      obtain ⟨s, rest, hs⟩ := List.exists_cons_of_ne_nil (h.nonempty b)
      rw [List.flatMap_cons, hs]
      rfl
  | cons a l ih =>
    cases m with
    | nil =>
      obtain ⟨s, rest, hs⟩ := List.exists_cons_of_ne_nil (h.nonempty a)
      rw [List.flatMap_cons, hs]
      rfl
    | cons b m =>
      rw [List.flatMap_cons, List.flatMap_cons, List.map_cons, List.map_cons, List.compare_cons_cons]
      rcases lt_trichotomy (number a) (number b) with hlt | heq | hgt
      · rw [h.lt _ _ hlt, Nat.compare_eq_lt.2 hlt]
        rfl
      · obtain rfl := hnum heq
        rw [compare_append_left, ih, Std.compare_self]
        rfl
      · rw [Std.OrientedOrd.eq_swap, h.lt _ _ hgt, Nat.compare_eq_gt.2 hgt]
        rfl

/-! ## UTF-8 -/

/-- The number of bytes that follow the first byte of a code point. -/
def followers (v : Nat) : Nat :=
  if v ≤ 0x7f then 0 else if v ≤ 0x7ff then 1 else if v ≤ 0xffff then 2 else 3

/-- The least value of a first byte that `k` bytes follow. -/
def leadBase : Nat → Nat
  | 0 => 0
  | 1 => 0xc0
  | 2 => 0xe0
  | 3 => 0xf0
  | _ => 0xf8

/-- The value of the first byte of a code point: the digits that the following bytes leave over. -/
def lead (v : Nat) : Nat :=
  leadBase (followers v) + v / 64 ^ followers v

/-- The last `k` digits of a code point to the base 64, the highest first, each in one byte. -/
def continuation : Nat → Nat → List UInt8
  | 0, _ => []
  | k + 1, v => UInt8.ofNat (v / 64 ^ k % 64 + 0x80) :: continuation k v

theorem toNat_injective : Function.Injective Char.toNat :=
  fun _ _ => Char.toNat_inj.1

theorem toNat_lt (c : Char) : c.toNat < 0x110000 := by
  have h : c.toNat.isValidChar := c.valid
  unfold Nat.isValidChar at h
  omega

/-- The code of a character is its first byte and the digits that follow it. -/
theorem utf8EncodeChar_eq (c : Char) :
    String.utf8EncodeChar c = UInt8.ofNat (lead c.toNat) :: continuation (followers c.toNat) c.toNat := by
  have hc := toNat_lt c
  unfold String.utf8EncodeChar lead followers
  simp only [Char.toNat_val]
  generalize c.toNat = v at hc
  split_ifs
  · simp [leadBase, continuation]
  all_goals
    -- the first byte has room for all digits that are left
    rw [Nat.mod_eq_of_lt (by omega)]
    simp [leadBase, continuation, Nat.add_comm]

theorem followers_mono : Monotone followers := by
  intro v w h
  unfold followers
  split_ifs <;> omega

theorem leadBase_mono : Monotone leadBase := by
  refine monotone_nat_of_le_succ fun k => ?_
  match k with
  | 0 | 1 | 2 | 3 => decide
  | k + 4 => exact le_refl _

/-- A first byte tells how many bytes follow it. -/
theorem lead_lt_leadBase {v : Nat} (hv : v < 0x110000) : lead v < leadBase (followers v + 1) := by
  unfold lead followers
  split_ifs <;> simp only [leadBase] <;> omega

theorem lead_lt {v w : Nat} (h : followers v < followers w) (hv : v < 0x110000) :
    lead v < lead w := by
  calc lead v < leadBase (followers v + 1) := lead_lt_leadBase hv
    _ ≤ leadBase (followers w) := leadBase_mono h
    _ ≤ lead w := Nat.le_add_right _ _

theorem followers_le (v : Nat) : followers v ≤ 3 := by
  unfold followers
  split_ifs <;> omega

theorem lead_lt_size {v : Nat} (hv : v < 0x110000) : lead v < 256 := by
  calc lead v < leadBase (followers v + 1) := lead_lt_leadBase hv
    _ ≤ leadBase 4 := leadBase_mono (Nat.succ_le_succ (followers_le v))
    _ < 256 := by decide

theorem compare_ofNat_lt {m n : Nat} (h : m < n) (hn : n < 256) :
    compare (UInt8.ofNat m) (UInt8.ofNat n) = .lt := by
  rw [Std.compare_eq_lt, UInt8.lt_iff_toNat_lt, UInt8.toNat_ofNat', UInt8.toNat_ofNat',
    Nat.mod_eq_of_lt hn, Nat.mod_eq_of_lt (h.trans hn)]
  exact h

/-- Digits compare as their numbers do, as long as the digits before them agree. -/
theorem compare_continuation {k v w : Nat} (h : v < w) (hq : v / 64 ^ k = w / 64 ^ k)
    (x y : List UInt8) : compare (continuation k v ++ x) (continuation k w ++ y) = .lt := by
  induction k with
  | zero =>
    rw [pow_zero, Nat.div_one, Nat.div_one] at hq
    omega
  | succ k ih =>
    rw [pow_succ, ← Nat.div_div_eq_div_mul, ← Nat.div_div_eq_div_mul] at hq
    rw [continuation, continuation, List.cons_append, List.cons_append, List.compare_cons_cons,
      Ordering.then_eq_lt]
    have hle : v / 64 ^ k ≤ w / 64 ^ k := Nat.div_le_div_right h.le
    rcases hle.eq_or_lt with heq | hlt
    · right
      rw [heq]
      exact ⟨Std.compare_self, ih heq⟩
    · left
      exact compare_ofNat_lt (by omega) (by omega)

/-- UTF-8 keeps the order of code points, within each length and from one length to the next. -/
theorem keepsOrder_utf8EncodeChar : KeepsOrder Char.toNat String.utf8EncodeChar := by
  refine ⟨fun c => String.utf8EncodeChar_ne_nil, fun {c d} x y h => ?_⟩
  have hd : lead d.toNat < 256 := lead_lt_size (toNat_lt d)
  rw [utf8EncodeChar_eq, utf8EncodeChar_eq, List.cons_append, List.cons_append,
    List.compare_cons_cons, Ordering.then_eq_lt]
  rcases (followers_mono h.le).lt_or_eq with hlt | heq
  · exact .inl (compare_ofNat_lt (lead_lt hlt (toNat_lt c)) hd)
  · -- codes of one length: the first bytes compare as the digits that they hold
    unfold lead at hd ⊢
    rw [heq]
    have hle : c.toNat / 64 ^ followers d.toNat ≤ d.toNat / 64 ^ followers d.toNat :=
      Nat.div_le_div_right h.le
    rcases hle.lt_or_eq with hlead | hlead
    · exact .inl (compare_ofNat_lt (Nat.add_lt_add_left hlead _) hd)
    · right
      rw [hlead]
      exact ⟨Std.compare_self, compare_continuation h hlead x y⟩

/-! ## Texts -/

/-- The code points of a text, in order. -/
def codePoints (s : String) : List Nat :=
  s.toList.map Char.toNat

theorem codePoints_injective : Function.Injective codePoints := by
  intro s t h
  have hlist : s.toList = t.toList := List.map_injective_iff.2 toNat_injective h
  exact String.toList_inj.1 hlist

/-- The bytes of a text are those in which it is held. -/
theorem utf8_eq_toByteArray (s : String) : utf8 s = s.toByteArray.data.toList := by
  rw [← String.utf8Encode_toList]
  unfold List.utf8Encode
  rw [List.data_toByteArray]
  rfl

theorem compareBytes_eq_codePoints (s t : String) :
    compareBytes s t = compare (codePoints s) (codePoints t) :=
  keepsOrder_utf8EncodeChar.compare_flatMap toNat_injective s.toList t.toList

end Text

/-! ## Words -/

namespace Word

open Text

theorem compare_eq_codePoints (a b : Word) :
    compare a b = compare (codePoints a.text) (codePoints b.text) :=
  compareBytes_eq_codePoints a.text b.text

instance : Std.TransOrd Word where
  eq_swap {a b} := by
    rw [compare_eq_codePoints, compare_eq_codePoints]
    exact Std.OrientedOrd.eq_swap
  isLE_trans {a b c} hab hbc := by
    rw [compare_eq_codePoints] at hab hbc ⊢
    exact Std.TransOrd.isLE_trans hab hbc

instance : Std.LawfulEqOrd Word where
  eq_of_compare {a b} h := by
    rw [compare_eq_codePoints, Std.compare_eq_iff_eq] at h
    exact text_inj (codePoints_injective h)

/-- Words are totally ordered by code point. They are compared by the bytes that hold their texts, the
answer is that of their code points, it is `eq` for equal words only, it is reversed when the words are
exchanged, and it is transitive. -/
theorem ordered_by_code_point (a b c : Word) :
    compare a b = compare a.text.toByteArray.data.toList b.text.toByteArray.data.toList ∧
    compare a b = compare (a.text.toList.map Char.toNat) (b.text.toList.map Char.toNat) ∧
    (compare a b = .eq ↔ a = b) ∧
    compare b a = (compare a b).swap ∧
    ((compare a b).isLE → (compare b c).isLE → (compare a c).isLE) ∧
    ∀ o, compare a b = o → compare b c = o → compare a c = o := by
  refine ⟨?_, compare_eq_codePoints a b, Std.compare_eq_iff_eq, Std.OrientedOrd.eq_swap,
    Std.TransOrd.isLE_trans, fun o hab hbc => ?_⟩
  · rw [← utf8_eq_toByteArray, ← utf8_eq_toByteArray]
    rfl
  · cases o with
    | lt => exact Std.TransCmp.lt_trans hab hbc
    | eq => exact Std.TransCmp.eq_trans hab hbc
    | gt => exact Std.TransCmp.gt_trans hab hbc

/-- The last of the code points with three bytes, the first with four, and a text that goes on after it. In
16-bit units the first two would stand the other way round. -/
theorem ordered_by_code_point_beyond_plane :
    let last : Word := ⟨"\uffff", by decide, by decide⟩
    let first : Word := ⟨"𐀀", by decide, by decide⟩
    let longer : Word := ⟨"𐀀a", by decide, by decide⟩
    compare last first = .lt ∧ compare first longer = .lt ∧ compare last longer = .lt ∧
      compare longer last = .gt := by
  intro last first longer
  obtain ⟨-, hfirst, -, -, -, htrans⟩ := ordered_by_code_point last first longer
  obtain ⟨-, hlonger, -⟩ := ordered_by_code_point first longer last
  obtain ⟨-, -, -, hswap, -⟩ := ordered_by_code_point last longer first
  have hlt : compare last first = .lt := hfirst.trans (by decide)
  have hlt' : compare first longer = .lt := hlonger.trans (by decide)
  have hlast := htrans .lt hlt hlt'
  exact ⟨hlt, hlt', hlast, hswap.trans (congrArg Ordering.swap hlast)⟩

end Word

end Phrasebook
