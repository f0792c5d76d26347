/-
Quoted text is readable. The quoted form of a character begins with a backslash or is the character itself,
and then the character is neither a backslash nor a quotation mark; what comes after the backslash says how
long the form is. So a quotation is read back up to the mark that closes it, whatever the characters are
and whichever of them are written by their code point.
-/
import Phrasebook.Proofs.Text.SelfDelimiting
import Phrasebook.Text.Quoted

namespace Phrasebook.Text

/-! ## Hexadecimal digits -/

/-- The digits in order of their values. -/
def hexDigitChars : List Char :=
  ['0', '1', '2', '3', '4', '5', '6', '7', '8', '9', 'a', 'b', 'c', 'd', 'e', 'f']

/-- The number that hexadecimal digits stand for. -/
def hexValue (digits : List Char) : Nat :=
  digits.foldl (fun n c => 16 * n + hexDigitChars.idxOf c) 0

theorem idxOf_digitChar {d : Nat} (h : d < 16) : hexDigitChars.idxOf d.digitChar = d := by
  decide +revert

theorem digitChar_mem {d : Nat} (h : d < 16) : d.digitChar ∈ hexDigitChars := by
  decide +revert

theorem hexDigits_eq (n : Nat) :
    hexDigits n = if n < 16 then [n.digitChar] else hexDigits (n / 16) ++ [(n % 16).digitChar] :=
  Nat.toDigits_eq_if (by decide)

theorem hexValue_hexDigits (n : Nat) : hexValue (hexDigits n) = n := by
  induction n using Nat.strongRecOn with
  | ind n ih =>
    rw [hexDigits_eq]
    split
    · rename_i hlt
      simp [hexValue, idxOf_digitChar hlt]
    · have hrec := ih (n / 16) (by omega)
      unfold hexValue at hrec ⊢
      rw [List.foldl_append, hrec, List.foldl_cons, List.foldl_nil,
        idxOf_digitChar (Nat.mod_lt n (by decide))]
      omega

theorem mem_hexDigitChars {n : Nat} {c : Char} (h : c ∈ hexDigits n) : c ∈ hexDigitChars := by
  induction n using Nat.strongRecOn with
  | ind n ih =>
    rw [hexDigits_eq] at h
    split at h
    · rename_i hlt
      rw [List.mem_singleton.1 h]
      exact digitChar_mem hlt
    · rcases List.mem_append.1 h with h | h
      · exact ih (n / 16) (by omega) h
      · rw [List.mem_singleton.1 h]
        exact digitChar_mem (Nat.mod_lt n (by decide))

/-! ## Escapes -/

/-- Reads one character in quoted form from the beginning of a text. -/
def unescape? : List Char → Option (Char × List Char)
  | '\\' :: 'u' :: '\x7b' :: rest =>
    some (Char.ofNat (hexValue (rest.takeWhile (· ≠ '\x7d'))), (rest.dropWhile (· ≠ '\x7d')).tail)
  | '\\' :: letter :: rest => (shortEscapes.find? (·.2 = letter)).map fun e => (e.1, rest)
  | c :: rest => some (c, rest)
  | [] => none

theorem unescape?_of_short {c letter : Char} (h : shortEscapes.lookup c = some letter) (x : List Char) :
    unescape? ('\\' :: letter :: x) = some (c, x) := by
  have hmem : (c, letter) ∈ shortEscapes := by
    obtain ⟨before, after, hsplit, -⟩ := List.lookup_eq_some_iff.1 h
    rw [hsplit]
    simp
  simp only [shortEscapes, List.mem_cons, Prod.mk.injEq, List.not_mem_nil, or_false] at hmem
  rcases hmem with ⟨rfl, rfl⟩ | ⟨rfl, rfl⟩ | ⟨rfl, rfl⟩ | ⟨rfl, rfl⟩ | ⟨rfl, rfl⟩ | ⟨rfl, rfl⟩ <;> rfl

theorem unescape?_of_code (c : Char) (x : List Char) :
    unescape? ('\\' :: 'u' :: '\x7b' :: (hexDigits c.toNat ++ '\x7d' :: x)) = some (c, x) := by
  have hdigit : ∀ d ∈ hexDigits c.toNat, decide (d ≠ '\x7d') = true := by
    intro d hd
    have hmem := mem_hexDigitChars hd
    rw [decide_eq_true_iff]
    rintro rfl
    revert hmem
    decide
  rw [unescape?, List.takeWhile_append_of_pos hdigit, List.dropWhile_append_of_pos hdigit]
  simp [hexValue_hexDigits]

theorem unescape?_of_ne {c : Char} (h : c ≠ '\\') (x : List Char) : unescape? (c :: x) = some (c, x) := by
  unfold unescape?
  split <;> simp_all

theorem ne_of_lookup_eq_none {c : Char} (h : shortEscapes.lookup c = none) : c ≠ '\\' ∧ c ≠ '"' := by
  constructor <;> rintro rfl <;> cases h

theorem unescape?_escape (c : Char) (x : List Char) : unescape? (escape c ++ x) = some (c, x) := by
  unfold escape
  split
  · rename_i letter hl
    exact unescape?_of_short hl x
  · rename_i hl
    split
    · simpa using unescape?_of_code c x
    · exact unescape?_of_ne (ne_of_lookup_eq_none hl).1 x

theorem selfDelimiting_escape : SelfDelimiting escape := by
  refine ⟨fun {c d x y} heq => ?_⟩
  have hread := congrArg unescape? heq
  rw [unescape?_escape, unescape?_escape] at hread
  exact Prod.mk.inj (Option.some.inj hread)

theorem escape_append_ne_quote (c : Char) (x y : List Char) : escape c ++ x ≠ '"' :: y := by
  unfold escape
  split
  · simp
  · rename_i hl
    split
    · simp
    · simp [(ne_of_lookup_eq_none hl).2]

theorem readable_quote : Readable quote := by
  refine ⟨fun {s t x y} heq => ?_⟩
  simp only [quote, String.toList_ofList] at heq
  have hclosed := selfDelimiting_escape.closed escape_append_ne_quote
  obtain ⟨hst, hxy⟩ := hclosed.read (List.cons.inj heq).2
  exact ⟨String.toList_inj.1 hst, hxy⟩

end Phrasebook.Text
