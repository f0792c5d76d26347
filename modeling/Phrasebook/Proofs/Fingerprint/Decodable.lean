/-
A message determines its pattern. Every part of a pattern is read back from its bytes whatever follows
them: a form from its code, a phrase from its length, a token from the byte that closes it. So no two
patterns give the mixer the same bytes, and the bytes of one are never the beginning of another's.
-/
import Phrasebook.Fingerprint.Message
import Phrasebook.Proofs.Text.Utf8
import Mathlib.Algebra.Group.Nat.Defs

namespace Phrasebook

open Text

/-! ## Single writes -/

namespace Write

theorem not_isUTF8FirstByte_tokenEnd : ¬ tokenEnd.IsUTF8FirstByte := by decide

theorem length_wordBytes (w : UInt64) : (wordBytes w).length = 8 := by
  simp [wordBytes]

theorem wordBytes_toNat (w : UInt64) :
    (wordBytes w).map UInt8.toNat = (List.range 8).map fun i => w.toNat / 2 ^ (8 * i) % 2 ^ 8 := by
  unfold wordBytes
  rw [List.map_map]
  apply List.map_congr_left
  intro i hi
  have hlt : 8 * i < 64 := by have := List.mem_range.1 hi; omega
  show ((w >>> UInt64.ofNat (8 * i)).toUInt8).toNat = _
  rw [UInt64.toNat_toUInt8, UInt64.toNat_shiftRight, UInt64.toNat_ofNat',
    Nat.mod_eq_of_lt (show 8 * i < 2 ^ 64 by omega), Nat.mod_eq_of_lt hlt, Nat.shiftRight_eq_div_pow]

/-- A number that fits into `n` bytes is determined by them. -/
theorem eq_of_bytes_eq {n : Nat} : ∀ {v w : Nat}, v < 2 ^ (8 * n) → w < 2 ^ (8 * n) →
    (∀ i < n, v / 2 ^ (8 * i) % 2 ^ 8 = w / 2 ^ (8 * i) % 2 ^ 8) → v = w := by
  induction n with
  | zero => intro v w hv hw _; omega
  | succ n ih =>
    intro v w hv hw hbyte
    have hpow (i : Nat) : 2 ^ (8 * (i + 1)) = 2 ^ 8 * 2 ^ (8 * i) := by
      rw [← Nat.pow_add, Nat.mul_succ, Nat.add_comm]
    have hlow : v % 2 ^ 8 = w % 2 ^ 8 := by simpa using hbyte 0 n.succ_pos
    have hhigh : v / 2 ^ 8 = w / 2 ^ 8 := by
      rw [hpow] at hv hw
      refine ih (Nat.div_lt_of_lt_mul hv) (Nat.div_lt_of_lt_mul hw) fun i hi => ?_
      rw [Nat.div_div_eq_div_mul, Nat.div_div_eq_div_mul, ← hpow]
      exact hbyte (i + 1) (Nat.succ_lt_succ hi)
    rw [← Nat.div_add_mod v (2 ^ 8), ← Nat.div_add_mod w (2 ^ 8), hlow, hhigh]

theorem wordBytes_inj {v w : UInt64} (h : wordBytes v = wordBytes w) : v = w := by
  have hmap := congrArg (List.map UInt8.toNat) h
  rw [wordBytes_toNat, wordBytes_toNat] at hmap
  apply UInt64.toNat.inj
  refine eq_of_bytes_eq (n := 8) v.toNat_lt w.toNat_lt fun i hi => ?_
  exact List.map_inj_left.1 hmap i (List.mem_range.2 hi)

theorem bytes_code_append_inj {a b : UInt8} {x y : List UInt8}
    (h : (code a).bytes ++ x = (code b).bytes ++ y) : a = b ∧ x = y :=
  List.cons.inj h

theorem bytes_count_append_inj {v w : UInt64} {x y : List UInt8}
    (h : (count v).bytes ++ x = (count w).bytes ++ y) : v = w ∧ x = y := by
  obtain ⟨hb, hxy⟩ := List.append_inj h (by rw [bytes, bytes, length_wordBytes, length_wordBytes])
  exact ⟨wordBytes_inj hb, hxy⟩

theorem bytes_token_append_inj {s t : String} {x y : List UInt8}
    (h : (token s).bytes ++ x = (token t).bytes ++ y) : s = t ∧ x = y := by
  apply utf8_append_inj not_isUTF8FirstByte_tokenEnd
  simpa only [bytes, List.append_assoc, List.singleton_append] using h

end Write

/-! ## Messages of words and phrases -/

namespace Message

@[simp] theorem bytes_nil : bytes [] = [] := rfl

@[simp] theorem bytes_cons (w : Write) (m : Message) : bytes (w :: m) = w.bytes ++ bytes m := rfl

@[simp] theorem bytes_append (m n : Message) : bytes (m ++ n) = bytes m ++ bytes n :=
  List.flatMap_append

end Message

theorem Tag.getElem?_all_code (t : Tag) : all[t.code.toNat]? = some t := by
  cases t <;> rfl

theorem Tag.code_inj {t u : Tag} (h : t.code = u.code) : t = u := by
  have ht := t.getElem?_all_code
  rw [h, u.getElem?_all_code] at ht
  exact (Option.some.inj ht).symm

theorem TaggedWord.message_append_inj {w v : TaggedWord} {x y : List UInt8}
    (h : w.message.bytes ++ x = v.message.bytes ++ y) : w = v ∧ x = y := by
  simp only [message, Message.bytes_cons, Message.bytes_nil, List.append_nil, List.append_assoc] at h
  obtain ⟨htext, h⟩ := Write.bytes_token_append_inj h
  obtain ⟨hcode, hxy⟩ := Write.bytes_code_append_inj h
  cases w; cases v
  cases Word.text_inj htext
  cases Tag.code_inj hcode
  exact ⟨rfl, hxy⟩

theorem flatMap_message_append_inj {x y : List UInt8} : ∀ {ws vs : List TaggedWord},
    ws.length = vs.length →
    Message.bytes (ws.flatMap TaggedWord.message) ++ x =
      Message.bytes (vs.flatMap TaggedWord.message) ++ y → ws = vs ∧ x = y
  | [], [], _, h => ⟨rfl, h⟩
  | w :: ws, v :: vs, hlen, h => by
    simp only [List.flatMap_cons, Message.bytes_append, List.append_assoc] at h
    obtain ⟨rfl, hrest⟩ := TaggedWord.message_append_inj h
    obtain ⟨rfl, hxy⟩ := flatMap_message_append_inj (Nat.succ.inj hlen) hrest
    exact ⟨rfl, hxy⟩

/-- Whether the number of words fits into the 64-bit word that is written for it. -/
def Phrase.Fits (p : Phrase) : Prop :=
  p.length < 2 ^ 64

theorem Phrase.message_append_inj {p q : Phrase} (hp : p.Fits) (hq : q.Fits) {x y : List UInt8}
    (h : p.message.bytes ++ x = q.message.bytes ++ y) : p = q ∧ x = y := by
  simp only [message, Message.bytes_cons, List.append_assoc] at h
  obtain ⟨hcount, hrest⟩ := Write.bytes_count_append_inj h
  have hlen : p.length = q.length := by
    have := congrArg UInt64.toNat hcount
    rwa [UInt64.toNat_ofNat', UInt64.toNat_ofNat', Nat.mod_eq_of_lt hp, Nat.mod_eq_of_lt hq] at this
  obtain ⟨hwords, hxy⟩ := flatMap_message_append_inj hlen hrest
  cases p; cases q
  exact ⟨congrArg Phrase.mk hwords, hxy⟩

/-! ## Messages of patterns -/

/-- Whether the length of every phrase in a noun phrase fits. -/
def NounPhrase.Fits : NounPhrase → Prop
  | bare _ => True
  | tagged _ => True
  | complex p => p.Fits

/-- Whether the length of every phrase in a verb pattern fits. -/
def Verb.Fits : Verb → Prop
  | bare _ => True
  | phrase p => p.Fits
  | withObject v n => v.Fits ∧ n.Fits
  | event _ v => v.Fits

theorem NounPhrase.message_head (n : NounPhrase) : ∃ m, n.message = .code n.code :: m := by
  cases n <;> exact ⟨_, rfl⟩

theorem Verb.message_head (v : Verb) : ∃ m, v.message = .code v.code :: m := by
  cases v <;> exact ⟨_, rfl⟩

theorem NounPhrase.code_eq_of_append {m n : NounPhrase} {x y : List UInt8}
    (h : m.message.bytes ++ x = n.message.bytes ++ y) : m.code = n.code := by
  obtain ⟨m', hm⟩ := m.message_head
  obtain ⟨n', hn⟩ := n.message_head
  rw [hm, hn] at h
  exact (List.cons.inj h).1

theorem Verb.code_eq_of_append {a b : Verb} {x y : List UInt8}
    (h : a.message.bytes ++ x = b.message.bytes ++ y) : a.code = b.code := by
  obtain ⟨a', ha⟩ := a.message_head
  obtain ⟨b', hb⟩ := b.message_head
  rw [ha, hb] at h
  exact (List.cons.inj h).1

/-- A noun phrase is read back from its bytes, whatever follows. -/
theorem NounPhrase.message_append_inj {m n : NounPhrase} (hm : m.Fits) (hn : n.Fits)
    {x y : List UInt8} (h : m.message.bytes ++ x = n.message.bytes ++ y) : m = n ∧ x = y := by
  have hcode := code_eq_of_append h
  cases m with
  | bare w =>
    cases n with
    | bare v =>
      simp only [message, Message.bytes_cons, Message.bytes_nil, List.append_nil,
        List.append_assoc] at h
      obtain ⟨-, h⟩ := Write.bytes_code_append_inj h
      obtain ⟨htext, hxy⟩ := Write.bytes_token_append_inj h
      exact ⟨congrArg bare (Word.text_inj htext), hxy⟩
    | tagged v => simp [code] at hcode
    | complex q => simp [code] at hcode
  | tagged w =>
    cases n with
    | bare v => simp [code] at hcode
    | tagged v =>
      simp only [message, Message.bytes_cons, List.append_assoc] at h
      obtain ⟨-, h⟩ := Write.bytes_code_append_inj h
      obtain ⟨hw, hxy⟩ := TaggedWord.message_append_inj h
      exact ⟨congrArg tagged hw, hxy⟩
    | complex q => simp [code] at hcode
  | complex p =>
    cases n with
    | bare v => simp [code] at hcode
    | tagged v => simp [code] at hcode
    | complex q =>
      simp only [message, Message.bytes_cons, List.append_assoc] at h
      obtain ⟨-, h⟩ := Write.bytes_code_append_inj h
      obtain ⟨hp, hxy⟩ := Phrase.message_append_inj hm hn h
      exact ⟨congrArg complex hp, hxy⟩

theorem Telicity.code_inj {t u : Telicity} (h : t.code = u.code) : t = u := by
  cases t <;> cases u <;> first | rfl | cases h

/-- A verb pattern is read back from its bytes, whatever follows. -/
theorem Verb.message_append_inj {a b : Verb} (ha : a.Fits) (hb : b.Fits) {x y : List UInt8}
    (h : a.message.bytes ++ x = b.message.bytes ++ y) : a = b ∧ x = y := by
  -- the bytes of a verb with an object go on with the object's, so what follows is generalised
  induction a generalizing b x y with
  | bare w =>
    have hcode := code_eq_of_append h
    cases b with
    | bare v =>
      simp only [message, Message.bytes_cons, Message.bytes_nil, List.append_nil,
        List.append_assoc] at h
      obtain ⟨-, h⟩ := Write.bytes_code_append_inj h
      obtain ⟨htext, hxy⟩ := Write.bytes_token_append_inj h
      exact ⟨congrArg bare (Word.text_inj htext), hxy⟩
    | phrase q => simp [code] at hcode
    | withObject v n => simp [code] at hcode
    | event u v => cases u <;> simp [code, Telicity.code] at hcode
  | phrase p =>
    have hcode := code_eq_of_append h
    cases b with
    | bare v => simp [code] at hcode
    | phrase q =>
      simp only [message, Message.bytes_cons, List.append_assoc] at h
      obtain ⟨-, h⟩ := Write.bytes_code_append_inj h
      obtain ⟨hp, hxy⟩ := Phrase.message_append_inj ha hb h
      exact ⟨congrArg phrase hp, hxy⟩
    | withObject v n => simp [code] at hcode
    | event u v => cases u <;> simp [code, Telicity.code] at hcode
  | withObject a m ih =>
    have hcode := code_eq_of_append h
    cases b with
    | bare v => simp [code] at hcode
    | phrase q => simp [code] at hcode
    | withObject b n =>
      simp only [message, Message.bytes_cons, Message.bytes_append, List.append_assoc] at h
      obtain ⟨-, h⟩ := Write.bytes_code_append_inj h
      obtain ⟨rfl, hobject⟩ := ih ha.1 hb.1 h
      obtain ⟨rfl, hxy⟩ := NounPhrase.message_append_inj ha.2 hb.2 hobject
      exact ⟨rfl, hxy⟩
    | event u v => cases u <;> simp [code, Telicity.code] at hcode
  | event t a ih =>
    have hcode := code_eq_of_append h
    cases b with
    | bare v => cases t <;> simp [code, Telicity.code] at hcode
    | phrase q => cases t <;> simp [code, Telicity.code] at hcode
    | withObject b n => cases t <;> simp [code, Telicity.code] at hcode
    | event u b =>
      simp only [message, Message.bytes_cons, List.append_assoc] at h
      obtain ⟨-, h⟩ := Write.bytes_code_append_inj h
      have hb : b.Fits := hb
      obtain ⟨rfl, hxy⟩ := ih ha hb h
      cases Telicity.code_inj hcode
      exact ⟨rfl, hxy⟩

theorem NounPhrase.code_lt (n : NounPhrase) : n.code < 0x20 := by
  cases n <;> simp [code]

theorem Verb.le_code (v : Verb) : 0x20 ≤ v.code := by
  cases v with
  | bare w => simp [code]
  | phrase p => simp [code]
  | withObject v n => simp [code]
  | event t v => cases t <;> simp [code, Telicity.code]

/-- The bytes of a noun phrase and those of a verb pattern differ from the first on. -/
theorem NounPhrase.message_append_ne (n : NounPhrase) (v : Verb) (x y : List UInt8) :
    n.message.bytes ++ x ≠ v.message.bytes ++ y := by
  intro h
  obtain ⟨n', hn⟩ := n.message_head
  obtain ⟨v', hv⟩ := v.message_head
  rw [hn, hv] at h
  have hcode : n.code = v.code := (List.cons.inj h).1
  have hlt := n.code_lt
  rw [hcode] at hlt
  exact absurd v.le_code (UInt8.not_le.2 hlt)

/-- Messages are uniquely decodable: from bytes that begin with the message of a verb pattern or of a
noun phrase, the pattern and the bytes after it can be told, and also which of the two kinds it is. So
the bytes of one pattern are never the beginning of the bytes of another. -/
theorem message_bytes_decodable :
    (∀ a b : Verb, a.Fits → b.Fits → ∀ x y : List UInt8,
      a.message.bytes ++ x = b.message.bytes ++ y → a = b ∧ x = y) ∧
    (∀ m n : NounPhrase, m.Fits → n.Fits → ∀ x y : List UInt8,
      m.message.bytes ++ x = n.message.bytes ++ y → m = n ∧ x = y) ∧
    (∀ (n : NounPhrase) (v : Verb) (x y : List UInt8),
      n.message.bytes ++ x ≠ v.message.bytes ++ y) ∧
    (∀ a b : Verb, a.Fits → b.Fits → a ≠ b → ¬ a.message.bytes <+: b.message.bytes) ∧
    (∀ m n : NounPhrase, m.Fits → n.Fits → m ≠ n → ¬ m.message.bytes <+: n.message.bytes) := by
  refine ⟨fun a b ha hb x y => Verb.message_append_inj ha hb,
    fun m n hm hn x y => NounPhrase.message_append_inj hm hn, NounPhrase.message_append_ne, ?_, ?_⟩
  · rintro a b ha hb hne ⟨x, hx⟩
    rw [← List.append_nil b.message.bytes] at hx
    exact hne (Verb.message_append_inj ha hb hx).1
  · rintro m n hm hn hne ⟨x, hx⟩
    rw [← List.append_nil n.message.bytes] at hx
    exact hne (NounPhrase.message_append_inj hm hn hx).1

/-- Two phrases that differ only in where one token ends and the next begins. -/
theorem message_bytes_decodable_boundary :
    let ab : Word := ⟨"ab", by decide, by decide⟩
    let c : Word := ⟨"c", by decide, by decide⟩
    let a : Word := ⟨"a", by decide, by decide⟩
    let bc : Word := ⟨"bc", by decide, by decide⟩
    let left : Verb := .phrase ⟨[⟨ab, .noun⟩, ⟨c, .noun⟩]⟩
    let right : Verb := .phrase ⟨[⟨a, .noun⟩, ⟨bc, .noun⟩]⟩
    left.Fits ∧ right.Fits ∧ left ≠ right ∧ ¬ left.message.bytes <+: right.message.bytes := by
  intro ab c a bc left right
  have hl : left.Fits := by simp [left, Verb.Fits, Phrase.Fits, Phrase.length]
  have hr : right.Fits := by simp [right, Verb.Fits, Phrase.Fits, Phrase.length]
  have hne : left ≠ right := by decide
  obtain ⟨-, -, -, hprefix, -⟩ := message_bytes_decodable
  exact ⟨hl, hr, hne, hprefix left right hl hr hne⟩

end Phrasebook
