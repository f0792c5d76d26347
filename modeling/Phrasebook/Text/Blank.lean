/-
Blank characters, which separate words: the code points with the Unicode property White_Space, and
the text that is left when the blanks at both ends are taken away.
-/
import Phrasebook.Text.Ranges

namespace Phrasebook.Text

/-- The code points with the property White_Space. -/
def blankRanges : List (Nat × Nat) :=
  [(0x09, 0x0d), (0x20, 0x20), (0x85, 0x85), (0xa0, 0xa0), (0x1680, 0x1680), (0x2000, 0x200a),
   (0x2028, 0x2029), (0x202f, 0x202f), (0x205f, 0x205f), (0x3000, 0x3000)]

/-- Whether a character is blank. -/
def isBlank (c : Char) : Bool :=
  inRanges blankRanges c

/-- The characters without the blanks at the start and at the end. -/
def trim (cs : List Char) : List Char :=
  ((cs.dropWhile isBlank).reverse.dropWhile isBlank).reverse

theorem blankRanges_ordered : ordered blankRanges := by decide

theorem isBlank_iff (c : Char) :
    isBlank c ↔ ∃ r ∈ blankRanges, r.1 ≤ c.toNat ∧ c.toNat ≤ r.2 :=
  inRanges_iff blankRanges_ordered c

/-- Nothing is left of a text exactly when all of it is blank. -/
theorem trim_eq_nil_iff (cs : List Char) : trim cs = [] ↔ ∀ c ∈ cs, isBlank c := by
  have drop_nil (l : List Char) : l.dropWhile isBlank = [] ↔ ∀ c ∈ l, isBlank c := by
    induction l with
    | nil => simp
    | cons c l ih => by_cases h : isBlank c <;> simp [h, ih]
  rw [trim, List.reverse_eq_nil_iff, drop_nil]
  constructor
  · intro h
    rw [← drop_nil]
    rcases hd : cs.dropWhile isBlank with _ | ⟨c, rest⟩
    · rfl
    · have hc : isBlank c = false := by
        have := List.head?_dropWhile_not isBlank cs
        simpa [hd] using this
      have := h c (by simp [hd])
      rw [hc] at this
      cases this
  · intro h c hc
    exact h c ((List.dropWhile_sublist _).subset (List.mem_reverse.1 hc))

end Phrasebook.Text
