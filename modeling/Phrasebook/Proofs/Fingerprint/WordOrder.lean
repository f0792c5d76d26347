/-
How far a fingerprint sees the order of words. Exchanging two words of a list changes the state of the mixer by
their difference times a power of the factor less one. The factor is five modulo eight, so this number has two
factors of two more than the distance between the words, and the change vanishes exactly when the words agree in
the bits that are left. Every word of a phrase takes three additions, an odd number, so that the distance may be
counted in words of the phrase.
-/
import Phrasebook.Proofs.Fingerprint.Collision
import Mathlib.NumberTheory.Multiplicity
import Mathlib.NumberTheory.Padics.PadicVal.Basic

namespace Phrasebook

open Text

namespace Mixer

/-! ## Powers of the factor -/

theorem toNat_factor_pow (n : Nat) : (factor ^ n).toNat ≡ factor.toNat ^ n [MOD 2 ^ 64] := by
  induction n with
  | zero => rfl
  | succ n ih =>
    rw [UInt64.pow_succ, UInt64.toNat_mul, pow_succ]
    exact (Nat.mod_modEq _ _).trans (ih.mul_right _)

/-- The factor is five modulo eight, so a power of it less one has two factors of two more than the exponent. -/
theorem emultiplicity_factor_pow_sub_one {n : Nat} (hn : n ≠ 0) :
    emultiplicity 2 ((factor.toNat : ℤ) ^ n - 1) = 2 + padicValNat 2 n := by
  have hfactor : (factor.toNat : ℤ) = 0xf1357aea2e62a9c5 := by decide
  have hone : emultiplicity 2 ((factor.toNat : ℤ) - 1) = (2 : ℕ) := by
    rw [hfactor, emultiplicity_eq_coe]
    norm_num
  have hlift := Int.two_pow_sub_pow' (x := factor.toNat) (y := 1) n (by rw [hfactor]; norm_num)
    (by rw [hfactor]; norm_num)
  rw [one_pow, hone] at hlift
  rw [hlift, padicValNat_eq_emultiplicity hn]
  congr 1
  exact_mod_cast Int.natCast_emultiplicity 2 n

theorem two_pow_dvd_mul_iff (a : ℤ) {n : Nat} (hn : n ≠ 0) :
    2 ^ 64 ∣ a * ((factor.toNat : ℤ) ^ n - 1) ↔ 2 ^ (62 - padicValNat 2 n) ∣ a := by
  rw [pow_dvd_iff_le_emultiplicity, pow_dvd_iff_le_emultiplicity, emultiplicity_mul Int.prime_two,
    emultiplicity_factor_pow_sub_one hn]
  generalize padicValNat 2 n = k
  cases emultiplicity 2 a with
  | top => simp
  | coe m =>
    norm_cast
    omega

theorem toNat_mul_factor_pow_add (a b : UInt64) (n : Nat) :
    (a * factor ^ n + b).toNat ≡ a.toNat * factor.toNat ^ n + b.toNat [MOD 2 ^ 64] := by
  rw [UInt64.toNat_add, UInt64.toNat_mul]
  refine (Nat.mod_modEq _ _).trans (Nat.ModEq.add_right _ ((Nat.mod_modEq _ _).trans ?_))
  exact (toNat_factor_pow n).mul_left _

/-! ## Two words of a list -/

/-- What two words with a power of the factor between them add is symmetric exactly when the words agree
modulo a power of two. -/
theorem mul_factor_pow_add_symm_iff (v w : UInt64) {n : Nat} (hn : n ≠ 0) :
    v * factor ^ n + w = w * factor ^ n + v ↔ v.toNat ≡ w.toNat [MOD 2 ^ (62 - padicValNat 2 n)] := by
  have hv := toNat_mul_factor_pow_add v w n
  have hw := toNat_mul_factor_pow_add w v n
  have hmod : v * factor ^ n + w = w * factor ^ n + v ↔
      v.toNat * factor.toNat ^ n + w.toNat ≡ w.toNat * factor.toNat ^ n + v.toNat [MOD 2 ^ 64] := by
    constructor
    · intro h
      exact hv.symm.trans (h ▸ hw)
    · intro h
      have htoNat := hv.trans (h.trans hw.symm)
      exact UInt64.toNat.inj (htoNat.eq_of_lt_of_lt (UInt64.toNat_lt _) (UInt64.toNat_lt _))
  have hproduct : ((w.toNat * factor.toNat ^ n + v.toNat : ℕ) : ℤ) -
      ((v.toNat * factor.toNat ^ n + w.toNat : ℕ) : ℤ) =
      ((w.toNat : ℤ) - v.toNat) * ((factor.toNat : ℤ) ^ n - 1) := by
    push_cast
    ring
  rw [hmod, Nat.modEq_iff_dvd, Nat.modEq_iff_dvd, hproduct]
  exact_mod_cast two_pow_dvd_mul_iff ((w.toNat : ℤ) - v.toNat) hn

theorem foldl_add_ends (v w : UInt64) (between : List UInt64) :
    (v :: (between ++ [w])).foldl add 0 =
      (v * factor ^ (between.length + 1) + w + between.foldl add 0) * factor := by
  rw [List.foldl_cons, List.foldl_append, foldl_add_eq between, UInt64.pow_succ]
  show (add 0 v * factor ^ between.length + between.foldl add 0 + w) * factor = _
  unfold add
  generalize factor ^ between.length = slope
  grind

/-- Two words of a list change places unnoticed exactly when they agree modulo a power of two. Its exponent is
62 less the exponent of two in their distance. -/
theorem digest_exchange_iff {v w : UInt64} (between : List UInt64) :
    digest (v :: (between ++ [w])) = digest (w :: (between ++ [v])) ↔
      v.toNat ≡ w.toNat [MOD 2 ^ (62 - padicValNat 2 (between.length + 1))] := by
  unfold digest
  rw [rotate_inj, foldl_add_ends, foldl_add_ends, mul_factor_inj, UInt64.add_left_inj]
  exact mul_factor_pow_add_symm_iff v w between.length.succ_ne_zero

end Mixer

/-! ## Two words of a phrase -/

/-- The number as which a token enters the mixer. -/
def TaggedWord.tokenHash (w : TaggedWord) : Nat :=
  (Mixer.hashBytes (utf8 w.word.text)).toNat

namespace Phrase

/-- The phrase with the words at two positions exchanged. -/
def exchange (p : Phrase) (i j : Nat) : Phrase :=
  match p.words[i]?, p.words[j]? with
  | some x, some y => ⟨(p.words.set i y).set j x⟩
  | _, _ => p

theorem exists_split {ws : List TaggedWord} {i : Nat} {x : TaggedWord} (h : ws[i]? = some x) :
    ∃ before after, ws = before ++ x :: after ∧ before.length = i := by
  obtain ⟨hi, rfl⟩ := List.getElem?_eq_some_iff.1 h
  obtain ⟨before, after, hws, hlen, -⟩ := @List.exists_of_set _ i ws[i] ws hi
  exact ⟨before, after, hws, hlen⟩

theorem exchange_spec {p : Phrase} {i d : Nat} {x y : TaggedWord} (hd : 1 ≤ d)
    (hx : p.words[i]? = some x) (hy : p.words[i + d]? = some y) :
    ∃ before between after, between.length + 1 = d ∧
      p = ⟨before ++ x :: (between ++ y :: after)⟩ ∧
      p.exchange i (i + d) = ⟨before ++ y :: (between ++ x :: after)⟩ := by
  obtain ⟨ws⟩ := p
  obtain ⟨before, rest, rfl, rfl⟩ := exists_split hx
  obtain ⟨k, rfl⟩ : ∃ k, d = k + 1 := ⟨d - 1, by omega⟩
  have hrest : rest[k]? = some y := by
    rw [← hy]
    show _ = (before ++ x :: rest)[before.length + (k + 1)]?
    rw [List.getElem?_append_right (Nat.le_add_right _ _), Nat.add_sub_cancel_left, List.getElem?_cons_succ]
  obtain ⟨between, after, rfl, rfl⟩ := exists_split hrest
  refine ⟨before, between, after, rfl, rfl, ?_⟩
  unfold exchange
  rw [hx, hy]
  simp

/-- Every tagged word adds three words to the mixer. -/
theorem length_additions_words (ws : List TaggedWord) :
    (Message.additions (ws.flatMap TaggedWord.message)).length = 3 * ws.length := by
  induction ws with
  | nil => rfl
  | cons w ws ih =>
    rw [List.flatMap_cons, Message.additions_append, List.length_append, ih, List.length_cons]
    show 3 + _ = _
    omega

theorem length_additions_message (p : Phrase) : p.message.additions.length = 1 + 3 * p.length := by
  show (_ :: Message.additions (p.words.flatMap TaggedWord.message)).length = _
  rw [List.length_cons, length_additions_words, Nat.add_comm]
  rfl

/-- What is added to the mixer after a token with the given tag: its end, the tag, and the words that follow. -/
def afterToken (t : Tag) (ws : List TaggedWord) : List UInt64 :=
  Write.tokenEnd.toUInt64 :: t.code.toUInt64 :: Message.additions (ws.flatMap TaggedWord.message)

theorem length_afterToken (t : Tag) (ws : List TaggedWord) :
    (afterToken t ws).length + 1 = 3 * (ws.length + 1) := by
  unfold afterToken
  rw [List.length_cons, List.length_cons, length_additions_words]
  omega

/-- The tokens of two words among all that a phrase adds to the mixer. -/
theorem additions_split (before between after : List TaggedWord) (x y : TaggedWord) :
    (Phrase.mk (before ++ x :: (between ++ y :: after))).message.additions =
      (UInt64.ofNat (before ++ x :: (between ++ y :: after)).length ::
          Message.additions (before.flatMap TaggedWord.message)) ++
        (Mixer.hashBytes (utf8 x.word.text) ::
          (afterToken x.tag between ++ [Mixer.hashBytes (utf8 y.word.text)])) ++
        afterToken y.tag after := by
  simp [message, TaggedWord.message, Message.additions, Write.additions, length, afterToken]

theorem padicValNat_three_mul {n : Nat} (hn : n ≠ 0) : padicValNat 2 (3 * n) = padicValNat 2 n := by
  rw [padicValNat.mul (by decide) hn, padicValNat.eq_zero_of_not_dvd (by decide), Nat.zero_add]

theorem digest_exchange_iff {p : Phrase} {i d : Nat} {x y : TaggedWord} (hd : 1 ≤ d)
    (hx : p.words[i]? = some x) (hy : p.words[i + d]? = some y) (htag : x.tag = y.tag) :
    (p.exchange i (i + d)).message.digest = p.message.digest ↔
      x.tokenHash ≡ y.tokenHash [MOD 2 ^ (62 - padicValNat 2 d)] := by
  obtain ⟨before, between, after, rfl, rfl, hexchange⟩ := exchange_spec hd hx hy
  have hcount : (before ++ y :: (between ++ x :: after)).length =
      (before ++ x :: (between ++ y :: after)).length := by simp
  rw [hexchange, eq_comm]
  unfold Message.digest
  rw [additions_split, additions_split, ← htag, hcount, Mixer.digest_part_iff (by simp),
    Mixer.digest_exchange_iff, length_afterToken, padicValNat_three_mul (Nat.succ_ne_zero _)]
  rfl

theorem length_exchange (p : Phrase) (i j : Nat) : (p.exchange i j).length = p.length := by
  unfold exchange
  split <;> simp [length]

end Phrase

/-- No context makes the exchange of two words noticed or unnoticed. -/
theorem Context.digest_fill_exchange_iff {r : NodeKind} (C : Context .phrase r) {p : Phrase} {i d : Nat}
    {x y : TaggedWord} (hd : 1 ≤ d) (hx : p.words[i]? = some x) (hy : p.words[i + d]? = some y)
    (htag : x.tag = y.tag) :
    (Node.ofPart r (C.fill (p.exchange i (i + d)))).message.digest =
        (Node.ofPart r (C.fill p)).message.digest ↔
      x.tokenHash ≡ y.tokenHash [MOD 2 ^ (62 - padicValNat 2 d)] := by
  have hlen : (p.exchange i (i + d)).message.additions.length = p.message.additions.length := by
    rw [Phrase.length_additions_message, Phrase.length_additions_message, p.length_exchange]
  rw [C.digest_fill_iff (x := p.exchange i (i + d)) (y := p) hlen]
  exact Phrase.digest_exchange_iff hd hx hy htag

/-- The order of words is lost exactly as far as their distance allows. In a phrase at any place of a pattern,
two equally tagged words at distance `d` change places without a change of the fingerprint if and only if their
hashes agree modulo two to the power of 62 less the exponent of two in `d`. So neighbours change places
unnoticed only if their hashes agree in the lower 62 bits. The phrases that contexts leave out are those that
the full walk of the pattern meets. -/
theorem word_order_lost_iff :
    (∀ (C : Context .phrase .verb) (p : Phrase) (i d : Nat) (x y : TaggedWord), 1 ≤ d →
      p.words[i]? = some x → p.words[i + d]? = some y → x.tag = y.tag →
      (fingerprint (C.fill (p.exchange i (i + d))) = fingerprint (C.fill p) ↔
        x.tokenHash ≡ y.tokenHash [MOD 2 ^ (62 - padicValNat 2 d)])) ∧
    (∀ (C : Context .phrase .nounPhrase) (p : Phrase) (i d : Nat) (x y : TaggedWord), 1 ≤ d →
      p.words[i]? = some x → p.words[i + d]? = some y → x.tag = y.tag →
      (fingerprint (C.fill (p.exchange i (i + d))) = fingerprint (C.fill p) ↔
        x.tokenHash ≡ y.tokenHash [MOD 2 ^ (62 - padicValNat 2 d)])) ∧
    (∀ (C : Context .phrase .verb) (p : Phrase) (i : Nat) (x y : TaggedWord),
      p.words[i]? = some x → p.words[i + 1]? = some y → x.tag = y.tag →
      fingerprint (C.fill (p.exchange i (i + 1))) = fingerprint (C.fill p) →
        x.tokenHash % 2 ^ 62 = y.tokenHash % 2 ^ 62) ∧
    (∀ (C : Context .phrase .nounPhrase) (p : Phrase) (i : Nat) (x y : TaggedWord),
      p.words[i]? = some x → p.words[i + 1]? = some y → x.tag = y.tag →
      fingerprint (C.fill (p.exchange i (i + 1))) = fingerprint (C.fill p) →
        x.tokenHash % 2 ^ 62 = y.tokenHash % 2 ^ 62) ∧
    (∀ (r : NodeKind) (p : Phrase) (whole : r.Part),
      (∃ C : Context .phrase r, C.fill p = whole) ↔
        Node.phrase p ∈ Walker.full.visit (Node.ofPart r whole)) := by
  have hone : 62 - padicValNat 2 1 = 62 := by rw [padicValNat_one_right]
  refine ⟨fun C p i d x y hd hx hy htag => C.digest_fill_exchange_iff hd hx hy htag,
    fun C p i d x y hd hx hy htag => C.digest_fill_exchange_iff hd hx hy htag,
    fun C p i x y hx hy htag h => ?_, fun C p i x y hx hy htag h => ?_,
    fun r p whole => Context.exists_fill_iff_mem_visit⟩
  · have hmod := (C.digest_fill_exchange_iff le_rfl hx hy htag).1 h
    rwa [hone] at hmod
  · have hmod := (C.digest_fill_exchange_iff le_rfl hx hy htag).1 h
    rwa [hone] at hmod

/-- Two words whose hashes differ, but not in the lower 43 bits: as the first and the last word of an object
they change places unnoticed at distance 2^19, and are noticed at distance 2^18. -/
theorem word_order_lost_iff_object :
    let debokum : TaggedWord := ⟨⟨"debokum", by decide, by decide⟩, .noun⟩
    let jewejah : TaggedWord := ⟨⟨"jewejah", by decide, by decide⟩, .noun⟩
    let very : TaggedWord := ⟨⟨"very", by decide, by decide⟩, .adverb⟩
    let kick : Word := ⟨"kick", by decide, by decide⟩
    let phrase (n : Nat) : Phrase := ⟨debokum :: (List.replicate n very ++ [jewejah])⟩
    let pattern (p : Phrase) : Verb := .event .telic (.withObject (.bare kick) (.complex p))
    debokum.tokenHash ≠ jewejah.tokenHash ∧
    fingerprint (pattern ((phrase (2 ^ 19 - 1)).exchange 0 (2 ^ 19))) =
      fingerprint (pattern (phrase (2 ^ 19 - 1))) ∧
    fingerprint (pattern ((phrase (2 ^ 18 - 1)).exchange 0 (2 ^ 18))) ≠
      fingerprint (pattern (phrase (2 ^ 18 - 1))) := by
  intro debokum jewejah very kick phrase pattern
  let C : Context .phrase .verb :=
    .around (.event .telic) (.object (.bare kick) (.complexNoun .hole))
  have hlast (n : Nat) : (phrase n).words[n + 1]? = some jewejah := by
    show (List.replicate n very ++ [jewejah])[n]? = _
    rw [List.getElem?_append_right (by rw [List.length_replicate]), List.length_replicate, Nat.sub_self]
    rfl
  have hexchange (k : Nat) : fingerprint (pattern ((phrase (2 ^ k - 1)).exchange 0 (2 ^ k))) =
      fingerprint (pattern (phrase (2 ^ k - 1))) ↔
      debokum.tokenHash ≡ jewejah.tokenHash [MOD 2 ^ (62 - k)] := by
    have hpos : 1 ≤ 2 ^ k := Nat.one_le_two_pow
    have hy : (phrase (2 ^ k - 1)).words[0 + 2 ^ k]? = some jewejah := by
      rw [Nat.zero_add, ← hlast (2 ^ k - 1), Nat.sub_add_cancel hpos]
    have h := word_order_lost_iff.1 C (phrase (2 ^ k - 1)) 0 (2 ^ k) debokum jewejah hpos rfl hy rfl
    rwa [Nat.zero_add, padicValNat.prime_pow] at h
  refine ⟨by decide +kernel, (hexchange 19).2 ?_, (hexchange 18).not.2 ?_⟩
  · decide +kernel
  · decide +kernel

end Phrasebook
