/-
Sets of characters given as tables: an ordered list of closed ranges of code points, and membership
in it.
-/

namespace Phrasebook.Text

/-- Whether ranges are in ascending order and do not overlap. -/
def ordered : List (Nat × Nat) → Bool
  | [] => true
  | [r] => r.1 ≤ r.2
  | r :: s :: rest => r.1 ≤ r.2 && r.2 < s.1 && ordered (s :: rest)

/-- Whether a character lies in one of the ranges of an ordered table: the first range that ends at or
after the character decides. -/
def inRanges (table : List (Nat × Nat)) (c : Char) : Bool :=
  match table.find? (fun r => c.toNat ≤ r.2) with
  | some r => r.1 ≤ c.toNat
  | none => false

theorem ordered_tail {r : Nat × Nat} {table : List (Nat × Nat)} (h : ordered (r :: table)) :
    ordered table := by
  cases table with
  | nil => rfl
  | cons s rest =>
    simp only [ordered, Bool.and_eq_true] at h
    exact h.2

theorem ordered_head_le {r : Nat × Nat} {table : List (Nat × Nat)} (h : ordered (r :: table)) :
    r.1 ≤ r.2 := by
  cases table with
  | nil => simpa [ordered] using h
  | cons s rest =>
    simp only [ordered, Bool.and_eq_true, decide_eq_true_eq] at h
    exact h.1.1

/-- Every later range of an ordered table starts after the end of the first one. -/
theorem ordered_head_lt {r : Nat × Nat} {table : List (Nat × Nat)} (h : ordered (r :: table)) :
    ∀ s ∈ table, r.2 < s.1 := by
  induction table generalizing r with
  | nil => simp
  | cons q rest ih =>
    have hq : r.2 < q.1 := by
      simp only [ordered, Bool.and_eq_true, decide_eq_true_eq] at h
      exact h.1.2
    have hle := ordered_head_le (ordered_tail h)
    intro s hs
    rcases List.mem_cons.1 hs with rfl | hs
    · exact hq
    · exact Nat.lt_of_lt_of_le hq (Nat.le_trans hle (Nat.le_of_lt (ih (ordered_tail h) s hs)))

/-- In an ordered table, membership means lying between the ends of some range. -/
theorem inRanges_iff {table : List (Nat × Nat)} (h : ordered table) (c : Char) :
    inRanges table c ↔ ∃ r ∈ table, r.1 ≤ c.toNat ∧ c.toNat ≤ r.2 := by
  induction table with
  | nil => simp [inRanges]
  | cons r rest ih =>
    have ih := ih (ordered_tail h)
    by_cases hr : c.toNat ≤ r.2
    · have hfind : inRanges (r :: rest) c = decide (r.1 ≤ c.toNat) := by
        simp [inRanges, hr]
      rw [hfind, decide_eq_true_iff]
      constructor
      · intro hl
        exact ⟨r, List.mem_cons_self .., hl, hr⟩
      · rintro ⟨s, hs, hl, -⟩
        rcases List.mem_cons.1 hs with rfl | hs
        · exact hl
        · have := ordered_head_lt h s hs
          omega
    · have hfind : inRanges (r :: rest) c = inRanges rest c := by
        simp [inRanges, hr]
      rw [hfind, ih]
      simp [hr]

end Phrasebook.Text
