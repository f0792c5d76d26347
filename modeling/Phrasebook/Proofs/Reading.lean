/-
Reading texts as words and phrases. A text is judged by its blanks alone: whether all of it is blank, a
part of it, or none. A phrase is read exactly when every text is a token, and the first text that is none is
the one reported; what is read has the given texts and tags, and a phrase is read back from its own.
-/
import Phrasebook.Phrase

namespace Phrasebook

/-! ## Blanks -/

namespace Text

/-- The code points with the Unicode property White_Space, one by one. -/
def whiteSpace : List Nat :=
  [0x09, 0x0a, 0x0b, 0x0c, 0x0d, 0x20, 0x85, 0xa0, 0x1680, 0x2000, 0x2001, 0x2002, 0x2003, 0x2004, 0x2005,
   0x2006, 0x2007, 0x2008, 0x2009, 0x200a, 0x2028, 0x2029, 0x202f, 0x205f, 0x3000]

/-- Whether a character is white space. -/
def IsWhiteSpace (c : Char) : Prop :=
  c.toNat ∈ whiteSpace

instance (c : Char) : Decidable (IsWhiteSpace c) :=
  inferInstanceAs (Decidable (c.toNat ∈ whiteSpace))

theorem isBlank_iff_isWhiteSpace (c : Char) : isBlank c ↔ IsWhiteSpace c := by
  have hcodes : whiteSpace = blankRanges.flatMap fun r => List.range' r.1 (r.2 + 1 - r.1) := by decide
  have hrange (r : Nat × Nat) :
      r.1 ≤ c.toNat ∧ c.toNat ≤ r.2 ↔ c.toNat ∈ List.range' r.1 (r.2 + 1 - r.1) := by
    rw [List.mem_range'_1]
    omega
  unfold IsWhiteSpace
  rw [isBlank_iff, hcodes, List.mem_flatMap]
  simp only [hrange]

theorem isBlank_of_head?_dropWhile {cs : List Char} {c : Char} (h : (cs.dropWhile isBlank).head? = some c) :
    isBlank c = false := by
  have hnot := List.head?_dropWhile_not isBlank cs
  rwa [h] at hnot

/-- Trimming takes away blanks at both ends, and as many as there are. -/
theorem trim_spec (cs : List Char) :
    ∃ before after, cs = before ++ trim cs ++ after ∧
      (∀ c ∈ before, isBlank c) ∧ (∀ c ∈ after, isBlank c) ∧
      (∀ c, (trim cs).head? = some c → isBlank c = false) ∧
      (∀ c, (trim cs).getLast? = some c → isBlank c = false) := by
  -- the end is trimmed first in the reversed rest, so the last character left is the first one there
  let rest := cs.dropWhile isBlank
  have hrest : rest = trim cs ++ (rest.reverse.takeWhile isBlank).reverse := by
    show rest = (rest.reverse.dropWhile isBlank).reverse ++ _
    rw [← List.reverse_append, List.takeWhile_append_dropWhile, List.reverse_reverse]
  refine ⟨cs.takeWhile isBlank, (rest.reverse.takeWhile isBlank).reverse, ?_, ?_, ?_, ?_, ?_⟩
  · rw [List.append_assoc, ← hrest, List.takeWhile_append_dropWhile]
  · exact List.all_eq_true.1 List.all_takeWhile
  · intro c hc
    exact List.all_eq_true.1 List.all_takeWhile c (List.mem_reverse.1 hc)
  · intro c hc
    have hhead : rest.head? = some c := by
      rw [hrest, List.head?_append, hc]
      rfl
    exact isBlank_of_head?_dropWhile hhead
  · intro c hc
    unfold trim at hc
    rw [List.getLast?_reverse] at hc
    exact isBlank_of_head?_dropWhile hc

end Text

open Text

/-! ## Words -/

namespace Word

variable {text : String}

theorem ofString_eq_empty_iff : ofString text = .error .empty ↔ ∀ c ∈ text.toList, isBlank c := by
  rw [← trim_eq_nil_iff]
  unfold ofString
  split
  · simp [*]
  · split <;> simp [*]

/-- A text is refused for a blank exactly when it holds one beside another character. -/
theorem ofString_eq_containsBlank_iff {token : String} :
    ofString text = .error (.containsBlank token) ↔
      token = text ∧ (∃ c ∈ text.toList, isBlank c) ∧ ∃ c ∈ text.toList, ¬ isBlank c := by
  have hall : (∃ c ∈ text.toList, ¬ isBlank c) ↔ trim text.toList ≠ [] := by
    rw [ne_eq, trim_eq_nil_iff]
    simp
  rw [hall, ← List.any_eq_true]
  unfold ofString
  split
  · simp [*]
  · split
    · rename_i hne hblank
      simp only [Except.error.injEq, TokenError.containsBlank.injEq, hne, hblank, ne_eq, not_false_eq_true,
        and_true]
      exact eq_comm
    · simp [*]

/-- A text is read as the word that has it, and as no other. -/
theorem ofString_eq_ok_iff {w : Word} : ofString text = .ok w ↔ w.text = text := by
  constructor
  · intro h
    unfold ofString at h
    split at h
    · cases h
    · split at h
      · cases h
      · cases h
        rfl
  · rintro rfl
    exact ofString_text w

theorem exists_ofString_eq_ok_iff :
    (∃ w, ofString text = .ok w) ↔ text.toList ≠ [] ∧ ∀ c ∈ text.toList, ¬ isBlank c := by
  constructor
  · rintro ⟨w, h⟩
    obtain rfl := ofString_eq_ok_iff.1 h
    refine ⟨fun hnil => w.nonempty (String.toList_eq_nil_iff.1 hnil), ?_⟩
    exact List.any_eq_false.1 w.blankFree
  · rintro ⟨hne, hfree⟩
    refine ⟨⟨text, fun h => hne (String.toList_eq_nil_iff.2 h), List.any_eq_false.2 hfree⟩, ?_⟩
    rw [ofString_eq_ok_iff]

/-- Every text is read in one of three ways, by its white space alone. It is empty for the reader exactly when
all its characters are white space; it is refused with the text as it stands exactly when some are and
some are not; and it is a word with that text exactly when it has characters and none is white space. The
reader trims first: what is trimmed off at either end is white space, and as much of it as there is. -/
theorem ofString_classifies (text : String) :
    (ofString text = .error .empty ↔ ∀ c ∈ text.toList, IsWhiteSpace c) ∧
    (∀ token, ofString text = .error (.containsBlank token) ↔
      token = text ∧ (∃ c ∈ text.toList, IsWhiteSpace c) ∧ ∃ c ∈ text.toList, ¬ IsWhiteSpace c) ∧
    ((∃ w, ofString text = .ok w) ↔ text.toList ≠ [] ∧ ∀ c ∈ text.toList, ¬ IsWhiteSpace c) ∧
    (∀ w, ofString text = .ok w → w.text = text) ∧
    (∃ before after, text.toList = before ++ trim text.toList ++ after ∧
      (∀ c ∈ before, IsWhiteSpace c) ∧ (∀ c ∈ after, IsWhiteSpace c) ∧
      (∀ c, (trim text.toList).head? = some c → ¬ IsWhiteSpace c) ∧
      (∀ c, (trim text.toList).getLast? = some c → ¬ IsWhiteSpace c)) := by
  simp only [← isBlank_iff_isWhiteSpace, Bool.not_eq_true]
  refine ⟨ofString_eq_empty_iff, fun token => ?_, ?_, fun w => ofString_eq_ok_iff.1,
    trim_spec text.toList⟩
  · simpa only [Bool.not_eq_true] using ofString_eq_containsBlank_iff
  · simpa only [Bool.not_eq_true] using exists_ofString_eq_ok_iff

/-- A text with a space inside, one of three kinds of white space, and one with none. -/
theorem ofString_classifies_ice_cream :
    ofString "ice cream" = .error (.containsBlank "ice cream") ∧
    ofString " \t\u3000" = .error .empty ∧
    ∃ w, ofString "cr\u00e8me" = .ok w ∧ w.text = "cr\u00e8me" := by
  obtain ⟨-, hblank, -⟩ := ofString_classifies "ice cream"
  obtain ⟨hempty, -⟩ := ofString_classifies " \t\u3000"
  obtain ⟨-, -, hexists, htext, -⟩ := ofString_classifies "cr\u00e8me"
  have hspaces : ∀ c ∈ " \t\u3000".toList, IsWhiteSpace c := by simp [IsWhiteSpace, whiteSpace]
  have hletters : ∀ c ∈ "cr\u00e8me".toList, ¬ IsWhiteSpace c := by simp [IsWhiteSpace, whiteSpace]
  obtain ⟨w, hw⟩ := hexists.2 ⟨by decide, hletters⟩
  refine ⟨(hblank "ice cream").2 ⟨rfl, ?_, ?_⟩, hempty.2 hspaces, w, hw, htext w hw⟩
  · exact ⟨' ', by decide, by decide⟩
  · exact ⟨'i', by decide, by decide⟩

end Word

/-! ## Phrases -/

namespace Phrase

theorem collect_eq_ofList (ws : List TaggedWord) : collect ws = ofList ws := by
  have hpush (ws : List TaggedWord) (p : Phrase) : ws.foldl push p = ⟨p.words ++ ws⟩ := by
    induction ws generalizing p with
    | nil => simp
    | cons w ws ih =>
      rw [List.foldl_cons, ih]
      simp [push]
  exact hpush ws empty

theorem length_items (p : Phrase) : p.items.length = p.length := by
  simp [items, length]

section FirstItem

variable {item : String × Tag} {items : List (String × Tag)} {e : TokenError}

theorem parse_cons_of_error (h : Word.ofString item.1 = .error e) : parse (item :: items) = .error e := by
  have hitem : TaggedWord.ofString item.1 item.2 = .error e := by
    unfold TaggedWord.ofString
    rw [h]
    rfl
  unfold parse
  rw [List.mapM_cons, hitem]
  rfl

theorem parse_cons_of_ok {w : Word} (h : Word.ofString item.1 = .ok w) :
    parse (item :: items) = (parse items).map fun p => ⟨⟨w, item.2⟩ :: p.words⟩ := by
  have hitem : TaggedWord.ofString item.1 item.2 = .ok ⟨w, item.2⟩ := by
    unfold TaggedWord.ofString
    rw [h]
    rfl
  unfold parse
  rw [List.mapM_cons, hitem]
  cases items.mapM fun item => TaggedWord.ofString item.1 item.2 <;> rfl

theorem parse_cons_eq_ok_iff {p : Phrase} :
    parse (item :: items) = .ok p ↔
      ∃ w q, Word.ofString item.1 = .ok w ∧ parse items = .ok q ∧ p = ⟨⟨w, item.2⟩ :: q.words⟩ := by
  rcases hw : Word.ofString item.1 with e | w
  · rw [parse_cons_of_error hw]
    simp
  · rw [parse_cons_of_ok hw]
    cases parse items <;> simp [Except.map, eq_comm]

theorem parse_cons_eq_error_iff :
    parse (item :: items) = .error e ↔
      Word.ofString item.1 = .error e ∨ (∃ w, Word.ofString item.1 = .ok w) ∧ parse items = .error e := by
  rcases hw : Word.ofString item.1 with e' | w
  · rw [parse_cons_of_error hw]
    simp
  · rw [parse_cons_of_ok hw]
    cases parse items <;> simp [Except.map]

/-- The leftmost text that is no word is refused for the given reason. -/
def FirstRefused (items : List (String × Tag)) (e : TokenError) : Prop :=
  ∃ before item after, items = before ++ item :: after ∧
    (∀ b ∈ before, ∃ w, Word.ofString b.1 = .ok w) ∧ Word.ofString item.1 = .error e

theorem firstRefused_cons :
    FirstRefused (item :: items) e ↔
      Word.ofString item.1 = .error e ∨ (∃ w, Word.ofString item.1 = .ok w) ∧ FirstRefused items e := by
  constructor
  · rintro ⟨_ | ⟨first, before⟩, x, after, h, hbefore, he⟩
    · cases h
      exact .inl he
    · cases h
      obtain ⟨hfirst, hbefore⟩ := List.forall_mem_cons.1 hbefore
      exact .inr ⟨hfirst, before, x, after, rfl, hbefore, he⟩
  · rintro (he | ⟨hw, before, x, after, rfl, hbefore, he⟩)
    · exact ⟨[], item, items, rfl, by simp, he⟩
    · exact ⟨item :: before, x, after, rfl, List.forall_mem_cons.2 ⟨hw, hbefore⟩, he⟩

end FirstItem

/-- Reading is the inverse of taking the texts and tags of a phrase. -/
theorem parse_eq_ok_iff {items : List (String × Tag)} {p : Phrase} :
    parse items = .ok p ↔ p.items = items := by
  induction items generalizing p with
  | nil =>
    constructor
    · intro h
      cases h
      rfl
    · intro h
      obtain ⟨ws⟩ := p
      obtain rfl : ws = [] := List.map_eq_nil_iff.1 h
      rfl
  | cons item items ih =>
    rw [parse_cons_eq_ok_iff]
    simp only [ih, Word.ofString_eq_ok_iff]
    constructor
    · rintro ⟨w, q, hw, hq, rfl⟩
      show (w.text, item.2) :: q.items = item :: items
      rw [hw, hq]
    · obtain ⟨_ | ⟨w, ws⟩⟩ := p
      · intro h
        cases h
      · intro h
        cases h
        exact ⟨w.word, ⟨ws⟩, rfl, rfl, rfl⟩

theorem parse_eq_error_iff {items : List (String × Tag)} {e : TokenError} :
    parse items = .error e ↔ FirstRefused items e := by
  induction items with
  | nil =>
    constructor
    · intro h
      cases h
    · rintro ⟨before, item, after, h, -⟩
      simp at h
  | cons item items ih => rw [parse_cons_eq_error_iff, firstRefused_cons, ih]

theorem exists_parse_eq_ok_iff {items : List (String × Tag)} :
    (∃ p, parse items = .ok p) ↔ ∀ item ∈ items, ∃ w, Word.ofString item.1 = .ok w := by
  constructor
  · rintro ⟨p, hp⟩ item hitem
    rw [← parse_eq_ok_iff.1 hp] at hitem
    obtain ⟨w, -, rfl⟩ := List.mem_map.1 hitem
    exact ⟨w.word, w.word.ofString_text⟩
  · intro h
    rcases hp : parse items with e | p
    · obtain ⟨before, item, after, rfl, -, he⟩ := parse_eq_error_iff.1 hp
      obtain ⟨w, hw⟩ := h item (by simp)
      rw [he] at hw
      cases hw
    · exact ⟨p, rfl⟩

/-- Reading a phrase and taking its texts and tags are inverse to each other, and reading fails with the first
error. Texts and tags are read exactly when every text is a word, and the phrase then has these texts
and tags in this order; otherwise the error is that of the leftmost text that is no word, whatever follows.
Conversely every phrase, however long, is read back from its texts and tags, and is rebuilt from its words
as a whole list or one by one. -/
theorem parse_inverse_of_items :
    (∀ items : List (String × Tag),
      ((∃ p, parse items = .ok p) ↔ ∀ item ∈ items, ∃ w, Word.ofString item.1 = .ok w) ∧
      (∀ p, parse items = .ok p → p.items = items ∧ p.length = items.length) ∧
      (∀ e, parse items = .error e ↔
        ∃ before item after, items = before ++ item :: after ∧
          (∀ b ∈ before, ∃ w, Word.ofString b.1 = .ok w) ∧ Word.ofString item.1 = .error e)) ∧
    (∀ p : Phrase, parse p.items = .ok p ∧ ofList p.words = p ∧ collect p.words = p) := by
  refine ⟨fun items => ⟨exists_parse_eq_ok_iff, fun p hp => ?_, fun e => parse_eq_error_iff⟩, fun p => ?_⟩
  · have hitems := parse_eq_ok_iff.1 hp
    refine ⟨hitems, ?_⟩
    rw [← hitems, length_items]
  · exact ⟨parse_eq_ok_iff.2 rfl, rfl, collect_eq_ofList p.words⟩

/-- Six words are read back, and of two texts that are no words the first is reported. -/
theorem parse_inverse_of_items_six :
    let very : TaggedWord := ⟨⟨"very", by decide, by decide⟩, .adverb⟩
    let p : Phrase := ⟨[⟨⟨"a", by decide, by decide⟩, .article⟩, very, very, very,
      ⟨⟨"old", by decide, by decide⟩, .adjective⟩, ⟨⟨"cat", by decide, by decide⟩, .noun⟩]⟩
    let items : List (String × Tag) := [("a", .article), ("very", .adverb), ("very", .adverb),
      ("very", .adverb), ("old", .adjective), ("cat", .noun)]
    parse items = .ok p ∧ p.items = items ∧ p.length = 6 ∧ collect p.words = p ∧
    parse [("the", .article), ("ice cream", .noun), ("", .noun)] = .error (.containsBlank "ice cream") := by
  intro very p items
  obtain ⟨hread, hback⟩ := parse_inverse_of_items
  obtain ⟨hparse, -, hcollect⟩ := hback p
  obtain ⟨-, hitems, -⟩ := hread items
  obtain ⟨-, -, herror⟩ := hread [("the", .article), ("ice cream", .noun), ("", .noun)]
  refine ⟨hparse, (hitems p hparse).1, (hitems p hparse).2, hcollect, ?_⟩
  refine (herror _).2 ⟨[("the", .article)], ("ice cream", .noun), [("", .noun)], rfl, ?_, ?_⟩
  · intro b hb
    obtain rfl := List.mem_singleton.1 hb
    exact ⟨⟨"the", by decide, by decide⟩, Word.ofString_eq_ok_iff.2 rfl⟩
  · exact Word.ofString_eq_containsBlank_iff.2 ⟨rfl, ⟨' ', by decide, by decide⟩, 'i', by decide, by decide⟩

end Phrase

end Phrasebook
