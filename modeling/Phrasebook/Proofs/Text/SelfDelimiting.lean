/-
Self-delimiting codes and readable text. A code is self-delimiting if a value can be read back from the
beginning of any list that starts with its code; it does not matter what follows. Text is readable if its
characters are such a code. Quotation marks, parentheses, braces and brackets keep text readable, so that
a printer put together from them can be read back part by part.
-/
import Phrasebook.Text.Layout

namespace Phrasebook.Text

variable {α β σ : Type}

/-! ## Codes -/

/-- From a list that begins with the code of a value, the value and the rest of the list can be told. -/
structure SelfDelimiting (code : α → List σ) : Prop where
  read : ∀ {a b : α} {x y : List σ}, code a ++ x = code b ++ y → a = b ∧ x = y

/-- Codes one after the other, closed by a symbol with which none of them begins, are read back one by
one. -/
theorem SelfDelimiting.closed {code : α → List σ} (h : SelfDelimiting code) {stop : σ}
    (hs : ∀ a x y, code a ++ x ≠ stop :: y) :
    SelfDelimiting fun as : List α => as.flatMap code ++ [stop] := by
  refine ⟨fun {as bs x y} heq => ?_⟩
  simp only [List.append_assoc, List.singleton_append] at heq
  induction as generalizing bs with
  | nil =>
    cases bs with
    | nil => exact ⟨rfl, (List.cons.inj heq).2⟩
    | cons b bs =>
      rw [List.flatMap_nil, List.flatMap_cons, List.append_assoc] at heq
      exact absurd heq.symm (hs b _ _)
  | cons a as ih =>
    cases bs with
    | nil =>
      rw [List.flatMap_nil, List.flatMap_cons, List.append_assoc] at heq
      exact absurd heq (hs a _ _)
    | cons b bs =>
      rw [List.flatMap_cons, List.flatMap_cons, List.append_assoc, List.append_assoc] at heq
      obtain ⟨rfl, hrest⟩ := h.read heq
      obtain ⟨rfl, hxy⟩ := ih hrest
      exact ⟨rfl, hxy⟩

/-- A part that ends before the first occurrence of a symbol. -/
theorem append_cons_inj_of_not_mem {stop : σ} {l l' x y : List σ} (hl : stop ∉ l) (hl' : stop ∉ l')
    (h : l ++ stop :: x = l' ++ stop :: y) : l = l' ∧ x = y := by
  induction l generalizing l' with
  | nil =>
    cases l' with
    | nil => exact ⟨rfl, (List.cons.inj h).2⟩
    | cons s l' =>
      obtain ⟨rfl, -⟩ := List.cons.inj h
      exact absurd (.head _) hl'
  | cons s l ih =>
    cases l' with
    | nil =>
      obtain ⟨rfl, -⟩ := List.cons.inj h
      exact absurd (.head _) hl
    | cons s' l' =>
      obtain ⟨rfl, hrest⟩ := List.cons.inj h
      obtain ⟨rfl, hxy⟩ := ih (List.not_mem_of_not_mem_cons hl) (List.not_mem_of_not_mem_cons hl') hrest
      exact ⟨rfl, hxy⟩

/-! ## Text -/

/-- A value can be read back from its text, whatever follows the text. -/
def Readable (text : α → String) : Prop :=
  SelfDelimiting fun a => (text a).toList

namespace Readable

variable {text : α → String}

theorem eq_iff (h : Readable text) {a b : α} : text a = text b ↔ a = b := by
  constructor
  · intro heq
    have happend : (text a).toList ++ [] = (text b).toList ++ [] := by rw [heq]
    exact (h.read happend).1
  · rintro rfl
    rfl

theorem comp (h : Readable text) {f : β → α} (hf : ∀ {a b}, f a = f b → a = b) :
    Readable fun b => text (f b) := by
  refine ⟨fun heq => ?_⟩
  obtain ⟨hab, hxy⟩ := h.read heq
  exact ⟨hf hab, hxy⟩

end Readable

/-! ## Tuples and records -/

section Layout

variable {name field field' s t s' t' : String} {x y : List Char}

theorem tuple_append_cancel (h : (tuple name s).toList ++ x = (tuple name t).toList ++ y) :
    s.toList ++ ')' :: x = t.toList ++ ')' :: y := by
  simpa [tuple] using h

/-- A name without parentheses is told from the text that begins with it. -/
theorem tuple_append_inj {name' : String} (hm : '(' ∉ name.toList) (hn : '(' ∉ name'.toList)
    (h : (tuple name s).toList ++ x = (tuple name' t).toList ++ y) :
    name = name' ∧ s.toList ++ ')' :: x = t.toList ++ ')' :: y := by
  simp only [tuple, String.toList_append, List.append_assoc] at h
  obtain ⟨hname, hrest⟩ := append_cons_inj_of_not_mem hm hn h
  exact ⟨String.toList_inj.1 hname, hrest⟩

theorem record_append_cancel
    (h : (record name [(field, s)]).toList ++ x = (record name [(field, t)]).toList ++ y) :
    s.toList ++ (" \x7d".toList ++ x) = t.toList ++ (" \x7d".toList ++ y) := by
  simpa [record, Text.field, commaSeparated] using h

theorem record_pair_append_cancel
    (h : (record name [(field, s), (field', s')]).toList ++ x =
      (record name [(field, t), (field', t')]).toList ++ y) :
    s.toList ++ (", ".toList ++ (field' ++ ": ").toList ++ (s'.toList ++ (" \x7d".toList ++ x))) =
      t.toList ++ (", ".toList ++ (field' ++ ": ").toList ++ (t'.toList ++ (" \x7d".toList ++ y))) := by
  simpa [record, Text.field, commaSeparated] using h

end Layout

namespace Readable

variable {text : α → String} {text' : β → String}

theorem tuple (h : Readable text) (name : String) : Readable fun a => Text.tuple name (text a) := by
  refine ⟨fun heq => ?_⟩
  obtain ⟨hab, hrest⟩ := h.read (tuple_append_cancel heq)
  exact ⟨hab, (List.cons.inj hrest).2⟩

theorem record (h : Readable text) (name field : String) :
    Readable fun a => Text.record name [(field, text a)] := by
  refine ⟨fun heq => ?_⟩
  obtain ⟨hab, hrest⟩ := h.read (record_append_cancel heq)
  exact ⟨hab, List.append_cancel_left hrest⟩

theorem record_pair (h : Readable text) (h' : Readable text') (name field field' : String) :
    Readable fun ab : α × β => Text.record name [(field, text ab.1), (field', text' ab.2)] := by
  refine ⟨fun heq => ?_⟩
  obtain ⟨hfst, hrest⟩ := h.read (record_pair_append_cancel heq)
  obtain ⟨hsnd, hrest⟩ := h'.read (List.append_cancel_left hrest)
  exact ⟨Prod.ext hfst hsnd, List.append_cancel_left hrest⟩

end Readable

/-! ## Lists -/

theorem toList_commaSeparated_cons (s : String) (ts : List String) :
    (commaSeparated (s :: ts)).toList = s.toList ++ ts.flatMap fun t => ", ".toList ++ t.toList := by
  induction ts generalizing s with
  | nil => simp [commaSeparated]
  | cons t ts ih =>
    rw [commaSeparated, String.toList_append, String.toList_append, ih, List.flatMap_cons]
    simp only [List.append_assoc]

/-- The items after the first one, each with the comma before it, up to the closing bracket. -/
theorem Readable.selfDelimiting_rest {text : α → String} (h : Readable text) :
    SelfDelimiting fun as : List α => as.flatMap (fun a => ", ".toList ++ (text a).toList) ++ [']'] := by
  refine SelfDelimiting.closed ⟨fun heq => ?_⟩ fun a x y heq => ?_
  · simp only [List.append_assoc] at heq
    exact h.read (List.append_cancel_left heq)
  · have hcomma : ',' = ']' := (List.cons.inj heq).1
    cases hcomma

/-- A list in brackets is read back item by item if no item looks like the end of the list. -/
theorem Readable.bracketed {text : α → String} (h : Readable text)
    (hs : ∀ a x y, (text a).toList ++ x ≠ ']' :: y) :
    Readable fun as : List α => Text.bracketed (as.map text) := by
  refine ⟨fun {as bs x y} heq => ?_⟩
  simp only [Text.bracketed, String.toList_append, List.append_assoc, List.append_cancel_left_eq] at heq
  cases as with
  | nil =>
    cases bs with
    | nil => exact ⟨rfl, (List.cons.inj heq).2⟩
    | cons b bs =>
      rw [List.map_cons, toList_commaSeparated_cons, List.append_assoc] at heq
      exact absurd heq.symm (hs b _ _)
  | cons a as =>
    cases bs with
    | nil =>
      rw [List.map_cons, toList_commaSeparated_cons, List.append_assoc] at heq
      exact absurd heq (hs a _ _)
    | cons b bs =>
      simp only [List.map_cons, toList_commaSeparated_cons, List.append_assoc, List.flatMap_map] at heq
      obtain ⟨rfl, hrest⟩ := h.read heq
      simp only [← List.append_assoc] at hrest
      obtain ⟨rfl, hxy⟩ := h.selfDelimiting_rest.read hrest
      exact ⟨rfl, hxy⟩

end Phrasebook.Text
