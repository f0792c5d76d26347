/-
Collisions of fingerprints. The message of a part stands in the message of the whole as it is, so two
parts with the same number of additions collide in a context exactly when they collide alone: no context
makes a collision or removes one. A single write in the middle of a message is told apart exactly, hence
so are two patterns that differ in one tag, one modifier or one token.
-/
import Phrasebook.Proofs.Context
import Phrasebook.Proofs.Fingerprint.Decodable
import Phrasebook.Proofs.Fingerprint.Mixer
import Phrasebook.Proofs.Fingerprint.Traversal

namespace Phrasebook

open Text

/-! ## Messages that differ in their first write -/

namespace Message

theorem additions_append (m n : Message) : additions (m ++ n) = additions m ++ additions n :=
  List.flatMap_append

theorem digest_code_cons_iff {a b : UInt8} {m : Message} :
    digest (.code a :: m) = digest (.code b :: m) ↔ a = b := by
  show Mixer.digest (a.toUInt64 :: m.additions) = Mixer.digest (b.toUInt64 :: m.additions) ↔ _
  rw [Mixer.digest_cons_inj, UInt8.toUInt64_inj]

theorem digest_token_cons_iff {s t : String} {m : Message} :
    digest (.token s :: m) = digest (.token t :: m) ↔
      Mixer.hashBytes (utf8 s) = Mixer.hashBytes (utf8 t) :=
  Mixer.digest_cons_inj

end Message

/-! ## Parts of a pattern -/

namespace Context

variable {k r : NodeKind}

/-- Whether the message of a part stands in the given messages, between writes that do not depend on the
part. -/
def Stands (k : NodeKind) (f : k.Part → Message) : Prop :=
  ∃ before after : Message, ∀ x, f x = before ++ (Node.ofPart k x).message ++ after

theorem Stands.prepend {f : k.Part → Message} (h : Stands k f) (m : Message) :
    Stands k fun x => m ++ f x := by
  obtain ⟨before, after, h⟩ := h
  exact ⟨m ++ before, after, fun x => by simp [h]⟩

theorem Stands.append {f : k.Part → Message} (h : Stands k f) (m : Message) :
    Stands k fun x => f x ++ m := by
  obtain ⟨before, after, h⟩ := h
  exact ⟨before, after ++ m, fun x => by simp [h]⟩

/-- The message of a part stands in the message of the whole. -/
theorem stands_fill (C : Context k r) : Stands k fun x => (Node.ofPart r (C.fill x)).message := by
  induction C with
  | hole => exact ⟨[], [], fun x => by simp [fill]⟩
  | token C t ih => exact ih.append [.code t.code]
  | tag w C ih => exact ih.prepend [.token w.text]
  | item before C after ih =>
    have h := (ih.append (after.flatMap TaggedWord.message)).prepend
      (.count (UInt64.ofNat (before.length + (after.length + 1))) ::
        before.flatMap TaggedWord.message)
    -- the number of words does not depend on the word that is put in
    simpa [fill, Node.ofPart, Node.message, Phrase.message, Phrase.length] using h
  | bareNoun C ih => exact ih.prepend [.code 0x10]
  | taggedNoun C ih => exact ih.prepend [.code 0x11]
  | complexNoun C ih => exact ih.prepend [.code 0x12]
  | bareVerb C ih => exact ih.prepend [.code 0x20]
  | phraseVerb C ih => exact ih.prepend [.code 0x21]
  | around l C ih =>
    cases l with
    | event t => exact ih.prepend [.code t.code]
    | object n => exact (ih.append n.message).prepend [.code 0x22]
  | object v C ih => exact (ih.prepend v.message).prepend [.code 0x22]

/-- Two parts with the same number of additions are told apart in a whole exactly when they are told
apart alone. -/
theorem digest_fill_iff (C : Context k r) {x y : k.Part}
    (hlen : (Node.ofPart k x).message.additions.length = (Node.ofPart k y).message.additions.length) :
    (Node.ofPart r (C.fill x)).message.digest = (Node.ofPart r (C.fill y)).message.digest ↔
      (Node.ofPart k x).message.digest = (Node.ofPart k y).message.digest := by
  obtain ⟨before, after, h⟩ := C.stands_fill
  have hx : (Node.ofPart r (C.fill x)).message = before ++ (Node.ofPart k x).message ++ after := h x
  have hy : (Node.ofPart r (C.fill y)).message = before ++ (Node.ofPart k y).message ++ after := h y
  unfold Message.digest
  rw [hx, hy]
  simp only [Message.additions_append]
  exact Mixer.digest_part_iff hlen _ _

theorem digest_fill_tag_iff (C : Context .tag r) {s t : Tag} :
    (Node.ofPart r (C.fill s)).message.digest = (Node.ofPart r (C.fill t)).message.digest ↔ s = t := by
  rw [C.digest_fill_iff (x := s) (y := t) rfl]
  show Message.digest [.code s.code] = Message.digest [.code t.code] ↔ _
  rw [Message.digest_code_cons_iff]
  exact ⟨Tag.code_inj, congrArg Tag.code⟩

theorem digest_fill_event_iff (C : Context .verb r) {t u : Telicity} (v : Verb) :
    (Node.ofPart r (C.fill (.event t v))).message.digest =
      (Node.ofPart r (C.fill (.event u v))).message.digest ↔ t = u := by
  rw [C.digest_fill_iff (x := .event t v) (y := .event u v) rfl]
  show Message.digest (.code t.code :: v.message) = Message.digest (.code u.code :: v.message) ↔ _
  rw [Message.digest_code_cons_iff]
  exact ⟨Telicity.code_inj, congrArg Telicity.code⟩

theorem digest_fill_word_iff (C : Context .word r) {w x : Word} :
    (Node.ofPart r (C.fill w)).message.digest = (Node.ofPart r (C.fill x)).message.digest ↔
      Mixer.hashBytes (utf8 w.text) = Mixer.hashBytes (utf8 x.text) := by
  have hlen (w : Word) : (Node.word w).message.additions.length = 2 := rfl
  rw [C.digest_fill_iff (x := w) (y := x) ((hlen w).trans (hlen x).symm)]
  exact Message.digest_token_cons_iff

end Context

/-- No stack of layers makes or removes a collision: two verb patterns with the same number of additions
have the same fingerprint below any layers exactly when they have it alone, and so do two noun phrases as
objects of a verb below any layers. -/
theorem wrap_collision_iff :
    (∀ (layers : List Layer) (a b : Verb),
      a.message.additions.length = b.message.additions.length →
      (fingerprint (Verb.wrap layers a) = fingerprint (Verb.wrap layers b) ↔
        fingerprint a = fingerprint b)) ∧
    (∀ (layers : List Layer) (v : Verb) (m n : NounPhrase),
      m.message.additions.length = n.message.additions.length →
      (fingerprint (Verb.wrap layers (.withObject v m)) =
          fingerprint (Verb.wrap layers (.withObject v n)) ↔
        fingerprint m = fingerprint n)) := by
  constructor
  · intro layers a b hlen
    let C : Context .verb .verb := .wrap layers .hole
    have h := C.digest_fill_iff (x := a) (y := b) hlen
    rw [Context.fill_wrap, Context.fill_wrap] at h
    exact h
  · intro layers v m n hlen
    let C : Context .nounPhrase .verb := .wrap layers (.object v .hole)
    have h := C.digest_fill_iff (x := m) (y := n) hlen
    rw [Context.fill_wrap, Context.fill_wrap] at h
    exact h

/-- Two words with the same hash stay together below two layers, and two that differ stay apart as
objects. -/
theorem wrap_collision_colliding_words :
    let a : Verb := .bare ⟨"Ľln5Mus", by decide, by decide⟩
    let b : Verb := .bare ⟨"Sƿ蓭SD", by decide, by decide⟩
    let cat : NounPhrase := .bare ⟨"cat", by decide, by decide⟩
    let dog : NounPhrase := .bare ⟨"dog", by decide, by decide⟩
    let layers : List Layer := [.event .telic, .object cat]
    a ≠ b ∧ a.message.additions.length = b.message.additions.length ∧ fingerprint a = fingerprint b ∧
      fingerprint (Verb.wrap layers a) = fingerprint (Verb.wrap layers b) ∧
      cat.message.additions.length = dog.message.additions.length ∧ fingerprint cat ≠ fingerprint dog ∧
      fingerprint (Verb.wrap layers (.withObject a cat)) ≠
        fingerprint (Verb.wrap layers (.withObject a dog)) := by
  intro a b cat dog layers
  have hab : fingerprint a = fingerprint b := by decide +kernel
  have hcd : fingerprint cat ≠ fingerprint dog := by decide +kernel
  have hverbs : a.message.additions.length = b.message.additions.length := by decide +kernel
  have hnouns : cat.message.additions.length = dog.message.additions.length := by decide +kernel
  obtain ⟨hverb, hobject⟩ := wrap_collision_iff
  refine ⟨by decide, hverbs, hab, (hverb layers a b hverbs).2 hab, hnouns, hcd, fun h => hcd ?_⟩
  exact (hobject layers a cat dog hnouns).1 h

/-- Two patterns that differ in one place are told apart exactly. If it is a tag or the kind of a
modifier, their fingerprints differ; if it is a token, the fingerprints are equal exactly when the two
tokens hash to the same word. The place may be any node that the full walk of the pattern meets. -/
theorem single_change_separated :
    (∀ (C : Context .tag .verb) (s t : Tag), s ≠ t →
      fingerprint (C.fill s) ≠ fingerprint (C.fill t)) ∧
    (∀ (C : Context .tag .nounPhrase) (s t : Tag), s ≠ t →
      fingerprint (C.fill s) ≠ fingerprint (C.fill t)) ∧
    (∀ (C : Context .verb .verb) (t u : Telicity) (v : Verb), t ≠ u →
      fingerprint (C.fill (.event t v)) ≠ fingerprint (C.fill (.event u v))) ∧
    (∀ (C : Context .word .verb) (w x : Word), fingerprint (C.fill w) = fingerprint (C.fill x) ↔
      Mixer.hashBytes (utf8 w.text) = Mixer.hashBytes (utf8 x.text)) ∧
    (∀ (C : Context .word .nounPhrase) (w x : Word), fingerprint (C.fill w) = fingerprint (C.fill x) ↔
      Mixer.hashBytes (utf8 w.text) = Mixer.hashBytes (utf8 x.text)) ∧
    (∀ (k r : NodeKind) (x : k.Part) (y : r.Part),
      (∃ C : Context k r, C.fill x = y) ↔ Node.ofPart k x ∈ Walker.full.visit (Node.ofPart r y)) := by
  refine ⟨fun C s t hne h => hne (C.digest_fill_tag_iff.1 h),
    fun C s t hne h => hne (C.digest_fill_tag_iff.1 h),
    fun C t u v hne h => hne ((C.digest_fill_event_iff v).1 h),
    fun C w x => C.digest_fill_word_iff, fun C w x => C.digest_fill_word_iff,
    fun k r x y => Context.exists_fill_iff_mem_visit⟩

/-- One tag inside the object of a verb, and one modifier above it. -/
theorem single_change_separated_nested :
    let kick : Word := ⟨"kick", by decide, by decide⟩
    let bucket : Word := ⟨"bucket", by decide, by decide⟩
    let theArticle : TaggedWord := ⟨⟨"the", by decide, by decide⟩, .article⟩
    let C : Context .tag .verb := .around (.event .telic)
      (.object (.bare kick) (.complexNoun (.item [theArticle] (.tag bucket .hole) [])))
    let pattern (t : Telicity) (tag : Tag) : Verb :=
      .event t (.withObject (.bare kick) (.complex ⟨[theArticle, ⟨bucket, tag⟩]⟩))
    C.fill .noun = pattern .telic .noun ∧ C.fill .any = pattern .telic .any ∧ Tag.noun ≠ .any ∧
      fingerprint (pattern .telic .noun) ≠ fingerprint (pattern .telic .any) ∧
      Telicity.telic ≠ .unknown ∧
      fingerprint (pattern .telic .noun) ≠ fingerprint (pattern .unknown .noun) := by
  intro kick bucket theArticle C pattern
  obtain ⟨htag, -, hevent, -⟩ := single_change_separated
  refine ⟨rfl, rfl, by decide, htag C .noun .any (by decide), by decide, ?_⟩
  exact hevent .hole .telic .unknown _ (by decide)

end Phrasebook
