/-
Diagnostic text tells values apart. The text of every part of a pattern is readable: a word is a quotation
in parentheses, no tag's name is the beginning of another's, a phrase is a list in brackets, and the form of
a pattern is the name before its first parenthesis. So the text of a pattern is read back part by part,
also when the words in it look like the text around them.
-/
import Phrasebook.Proofs.Text.Quoted
import Phrasebook.Verb.Basic

namespace Phrasebook

open Text

/-! ## Words and phrases -/

theorem Word.readable_inspect : Readable Word.inspect :=
  (readable_quote.tuple "Word").comp text_inj

theorem Tag.inspect_prefix_inj {t u : Tag} (h : t.inspect.toList <+: u.inspect.toList) : t = u := by
  have hall : ∀ t ∈ all, ∀ u ∈ all, t.inspect.toList <+: u.inspect.toList → t = u := by
    decide +kernel
  exact hall t t.mem_all u u.mem_all h

theorem Tag.readable_inspect : Readable Tag.inspect := by
  refine ⟨fun {t u x y} heq => ?_⟩
  have htu : t = u := by
    rcases List.append_eq_append_iff.1 heq with ⟨z, hu, -⟩ | ⟨z, ht, -⟩
    · exact inspect_prefix_inj ⟨z, hu.symm⟩
    · exact (inspect_prefix_inj ⟨z, ht.symm⟩).symm
  subst htu
  exact ⟨rfl, List.append_cancel_left heq⟩

theorem TaggedWord.readable_inspect : Readable TaggedWord.inspect := by
  have h := Word.readable_inspect.record_pair Tag.readable_inspect "TaggedWord" "word" "tag"
  exact h.comp (f := fun w : TaggedWord => (w.word, w.tag)) fun {w v} heq => by
    cases w; cases v; cases heq; rfl

theorem TaggedWord.inspect_append_ne_bracket (w : TaggedWord) (x y : List Char) :
    w.inspect.toList ++ x ≠ ']' :: y := by
  unfold inspect record
  simp

theorem Phrase.readable_inspect : Readable Phrase.inspect := by
  have h := TaggedWord.readable_inspect.bracketed TaggedWord.inspect_append_ne_bracket
  exact (h.tuple "TaggedWords").comp (f := Phrase.words) fun {p q} heq => by
    cases p; cases q; cases heq; rfl

/-! ## Patterns -/

theorem NounPhrase.paren_not_mem_formName (n : NounPhrase) : '(' ∉ n.formName.toList := by
  cases n <;> simp [formName]

theorem Verb.paren_not_mem_formName (v : Verb) : '(' ∉ v.formName.toList := by
  cases v with
  | event t v => cases t <;> simp [formName, Telicity.eventName]
  | _ => simp [formName]

/-- The name of its form tells the form of a noun phrase. -/
theorem NounPhrase.form_of_formName {m n : NounPhrase} (h : m.formName = n.formName) :
    match m with
    | bare _ => ∃ v, n = bare v
    | tagged _ => ∃ v, n = tagged v
    | complex _ => ∃ q, n = complex q := by
  cases m <;> cases n <;> simp [formName] at h ⊢

/-- The name of its form tells the form of a verb pattern, and of a modifier also the telicity. -/
theorem Verb.form_of_formName {a b : Verb} (h : a.formName = b.formName) :
    match a with
    | bare _ => ∃ v, b = bare v
    | phrase _ => ∃ q, b = phrase q
    | withObject _ _ => ∃ v n, b = withObject v n
    | event t _ => ∃ v, b = event t v := by
  cases a with
  | event t a => cases b with
    | event u b => cases t <;> cases u <;> simp [formName, Telicity.eventName] at h ⊢
    | _ => cases t <;> simp [formName, Telicity.eventName] at h
  | _ => cases b with
    | event u b => cases u <;> simp [formName, Telicity.eventName] at h
    | _ => simp [formName] at h ⊢

theorem NounPhrase.readable_inspect : Readable NounPhrase.inspect := by
  refine ⟨fun {m n x y} heq => ?_⟩
  obtain ⟨hform, hcontent⟩ := tuple_append_inj m.paren_not_mem_formName n.paren_not_mem_formName heq
  cases m with
  | bare w =>
    obtain ⟨v, rfl⟩ := form_of_formName hform
    obtain ⟨rfl, hxy⟩ := (Word.readable_inspect.record "LemmaNp" "lemma").read hcontent
    exact ⟨rfl, (List.cons.inj hxy).2⟩
  | tagged w =>
    obtain ⟨v, rfl⟩ := form_of_formName hform
    obtain ⟨rfl, hxy⟩ := (TaggedWord.readable_inspect.record "TaggedNp" "word").read hcontent
    exact ⟨rfl, (List.cons.inj hxy).2⟩
  | complex p =>
    obtain ⟨q, rfl⟩ := form_of_formName hform
    obtain ⟨rfl, hxy⟩ := (Phrase.readable_inspect.record "ComplexNp" "words").read hcontent
    exact ⟨rfl, (List.cons.inj hxy).2⟩

theorem Verb.readable_inspect : Readable Verb.inspect := by
  refine ⟨fun {a b x y} heq => ?_⟩
  -- the text of an inner verb is followed by the rest of the outer text, so what follows is generalised
  induction a generalizing b x y with
  | bare w =>
    obtain ⟨hform, hcontent⟩ := tuple_append_inj (paren_not_mem_formName _) b.paren_not_mem_formName heq
    obtain ⟨v, rfl⟩ := form_of_formName hform
    obtain ⟨rfl, hxy⟩ := (Word.readable_inspect.record "LemmaVerb" "lemma").read hcontent
    exact ⟨rfl, (List.cons.inj hxy).2⟩
  | phrase p =>
    obtain ⟨hform, hcontent⟩ := tuple_append_inj (paren_not_mem_formName _) b.paren_not_mem_formName heq
    obtain ⟨q, rfl⟩ := form_of_formName hform
    obtain ⟨rfl, hxy⟩ := (Phrase.readable_inspect.record "PhraseVerb" "words").read hcontent
    exact ⟨rfl, (List.cons.inj hxy).2⟩
  | withObject a m ih =>
    obtain ⟨hform, hcontent⟩ := tuple_append_inj (paren_not_mem_formName _) b.paren_not_mem_formName heq
    obtain ⟨b, n, rfl⟩ := form_of_formName hform
    obtain ⟨rfl, hobject⟩ := ih (record_pair_append_cancel hcontent)
    obtain ⟨rfl, hclose⟩ := NounPhrase.readable_inspect.read (List.append_cancel_left hobject)
    exact ⟨rfl, (List.cons.inj (List.append_cancel_left hclose)).2⟩
  | event t a ih =>
    obtain ⟨hform, hcontent⟩ := tuple_append_inj (paren_not_mem_formName _) b.paren_not_mem_formName heq
    obtain ⟨b, rfl⟩ := form_of_formName hform
    obtain ⟨rfl, hclose⟩ := ih (record_append_cancel hcontent)
    exact ⟨rfl, (List.cons.inj (List.append_cancel_left hclose)).2⟩

/-- Values with the same diagnostic text are equal, whatever characters their words hold: quotation
marks, backslashes, brackets, and characters that do not print. -/
theorem inspect_eq_iff :
    (∀ a b : Verb, a.inspect = b.inspect ↔ a = b) ∧
    (∀ m n : NounPhrase, m.inspect = n.inspect ↔ m = n) ∧
    (∀ w v : TaggedWord, w.inspect = v.inspect ↔ w = v) :=
  ⟨fun _ _ => Verb.readable_inspect.eq_iff, fun _ _ => NounPhrase.readable_inspect.eq_iff,
    fun _ _ => TaggedWord.readable_inspect.eq_iff⟩

end Phrasebook
