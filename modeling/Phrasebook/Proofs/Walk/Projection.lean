/-
Walkers that take note of one kind of node. What they collect is a projection of the full walk: the
nodes of that kind, in the order of the full walk. A token is met right below a bare lemma or a tagged
word and a tag right below a tagged word, so tokens and tags can be read off the nodes above them.
-/
import Phrasebook.Proofs.Walk.Preorder
import Phrasebook.Verb.Query

namespace Phrasebook

open Walker

/-! ## What is collected -/

namespace Node

/-- The words that a walker collects which takes note of words only. -/
def tokens (n : Node) : List Word :=
  ((listing .word).visit n).filterMap word?

/-- The tags that a walker collects which takes note of tags only. -/
def tags (n : Node) : List Tag :=
  ((listing .tag).visit n).filterMap tag?

/-- The tagged words that a walker collects which takes note of tagged words only and does not go below
them. -/
def taggedWords (n : Node) : List TaggedWord :=
  ((collecting .tagged).visit n).filterMap tagged?

/-- The token right below a node. -/
def token? : Node → Option Word
  | verb (.bare w) => some w
  | nounPhrase (.bare w) => some w
  | tagged w => some w.word
  | _ => none

/-- Whether a node is a verb pattern or a noun phrase made of a bare lemma. -/
def isBare : Node → Bool
  | verb (.bare _) => true
  | nounPhrase (.bare _) => true
  | _ => false

end Node

/-! ## Projections of the full walk -/

namespace Walker

theorem visit_listing (k : NodeKind) (n : Node) :
    (listing k).visit n = (full.visit n).filter fun m => m.kind == k := by
  rw [visit_eq_filter_met, show full.visit n = full.met n from visit_stoppingAt [] n]
  -- both walkers enter every node, so they meet the same nodes
  have henters : (listing k).enters = full.enters := by
    funext j
    rw [listing, enters_only, Bool.or_true]
    rfl
  have hlists (j : NodeKind) : (listing k).lists j = (j == k) := by
    rw [listing, lists_only, Bool.and_true]
  unfold met reaches
  simp only [henters, hlists]

theorem visit_collecting_tagged (n : Node) :
    (collecting .tagged).visit n = (full.visit n).filter fun m => m.kind == .tagged := by
  induction n using Node.induction with
  | step n ih =>
    by_cases h : n.kind = .tagged
    · -- a token and a tag are all that is cut off
      cases n with
      | tagged w => rfl
      | _ => cases h
    · have hbelow : (collecting .tagged).visit n = (collecting .tagged).below n := by
        unfold visit arrive collecting
        rw [lists_only, enters_only]
        simp [h]
      rw [hbelow, below_eq, visit_full, List.filter_cons_of_neg (by simpa using h), List.filter_flatMap]
      unfold List.flatMap
      rw [List.map_congr_left ih]

end Walker

namespace Node

theorem filterMap_filter_kind {β : Type} {f : Node → Option β} {k : NodeKind}
    (hf : ∀ m, m.kind ≠ k → f m = none) (ns : List Node) :
    (ns.filter fun m => m.kind == k).filterMap f = ns.filterMap f := by
  rw [List.filterMap_filter]
  congr 1
  funext m
  by_cases h : m.kind = k
  · simp [h]
  · simp [h, hf m h]

theorem word?_eq_none {m : Node} (h : m.kind ≠ .word) : m.word? = none := by
  cases m with
  | word w => exact absurd rfl h
  | _ => rfl

theorem tag?_eq_none {m : Node} (h : m.kind ≠ .tag) : m.tag? = none := by
  cases m with
  | tag t => exact absurd rfl h
  | _ => rfl

theorem tagged?_eq_none {m : Node} (h : m.kind ≠ .tagged) : m.tagged? = none := by
  cases m with
  | tagged w => exact absurd rfl h
  | _ => rfl

theorem tokens_eq (n : Node) : n.tokens = (full.visit n).filterMap word? := by
  unfold tokens
  rw [visit_listing, filterMap_filter_kind fun _ => word?_eq_none]

theorem tags_eq (n : Node) : n.tags = (full.visit n).filterMap tag? := by
  unfold tags
  rw [visit_listing, filterMap_filter_kind fun _ => tag?_eq_none]

theorem taggedWords_eq (n : Node) : n.taggedWords = (full.visit n).filterMap tagged? := by
  unfold taggedWords
  rw [visit_collecting_tagged, filterMap_filter_kind fun _ => tagged?_eq_none]

/-! ## Leaves and the nodes right above them -/

theorem filterMap_visit {β : Type} (f : Node → Option β) (n : Node) :
    (full.visit n).filterMap f =
      (f n).toList ++ n.children.flatMap fun c => (full.visit c).filterMap f := by
  rw [visit_full, List.filterMap_cons, List.filterMap_flatMap]
  cases f n <;> rfl

/-- Leaves can be read off the nodes right above them, if such a node has no children but leaves: then
nothing comes between the node and its leaf. -/
theorem filterMap_visit_of_children {β : Type} {f g : Node → Option β}
    (hchildren : ∀ n, n.children.filterMap f = (g n).toList)
    (hleaf : ∀ n, g n ≠ none → ∀ c ∈ n.children, c.children = []) (n : Node) :
    (full.visit n).filterMap f = (f n).toList ++ (full.visit n).filterMap g := by
  induction n using Node.induction with
  | step n ih =>
    rw [filterMap_visit f, filterMap_visit g, List.flatMap_congr ih]
    congr 1
    by_cases hg : g n = none
    · -- no leaf right below the node
      have hnone : ∀ c ∈ n.children, f c = none := by
        rw [← List.filterMap_eq_nil_iff, hchildren, hg]
        rfl
      rw [hg, List.flatMap_congr fun c hc => by rw [hnone c hc]]
      rfl
    · -- nothing further down
      have hbelow : ∀ c ∈ n.children, (full.visit c).filterMap g = [] := by
        intro c hc
        have hc' : c.children = [] := hleaf n hg c hc
        rw [filterMap_visit, ← hchildren, hc']
        rfl
      rw [List.flatMap_congr fun c hc => by rw [hbelow c hc, List.append_nil],
        List.flatMap_eq_nil_iff.2 hbelow, List.append_nil, ← List.filterMap_eq_flatMap_toList,
        hchildren]

theorem filterMap_word?_children (n : Node) : n.children.filterMap word? = n.token?.toList := by
  cases n with
  | verb v => cases v <;> rfl
  | nounPhrase n => cases n <;> rfl
  | phrase p => simp [children, token?, List.filterMap_map, Function.comp_def, word?]
  | _ => rfl

theorem filterMap_tag?_children (n : Node) :
    n.children.filterMap tag? = (n.tagged?.map TaggedWord.tag).toList := by
  cases n with
  | verb v => cases v <;> rfl
  | nounPhrase n => cases n <;> rfl
  | phrase p => simp [children, tagged?, List.filterMap_map, Function.comp_def, tag?]
  | _ => rfl

theorem children_eq_nil_of_token? {n c : Node} (h : n.token? ≠ none) (hc : c ∈ n.children) :
    c.children = [] := by
  cases n with
  | verb v => cases v <;> simp_all [token?, children]
  | nounPhrase n => cases n <;> simp_all [token?, children]
  | tagged w =>
    simp only [children, List.mem_cons, List.not_mem_nil, or_false] at hc
    rcases hc with rfl | rfl <;> rfl
  | _ => exact absurd rfl h

theorem tokens_eq_above (n : Node) :
    n.tokens = n.word?.toList ++ (full.visit n).filterMap token? := by
  rw [tokens_eq]
  exact filterMap_visit_of_children filterMap_word?_children
    (fun _ h _ hc => children_eq_nil_of_token? h hc) n

theorem tags_eq_above (n : Node) : n.tags = n.tag?.toList ++ n.taggedWords.map TaggedWord.tag := by
  rw [tags_eq, taggedWords_eq, List.map_filterMap]
  apply filterMap_visit_of_children filterMap_tag?_children
  intro m h c hc
  -- a tagged word has a token right below it as well
  apply children_eq_nil_of_token? _ hc
  cases m with
  | tagged w => simp [token?]
  | _ => exact absurd rfl h

theorem taggedWords_sublist_tokens (n : Node) :
    (n.taggedWords.map TaggedWord.word).Sublist n.tokens := by
  have htagged : n.taggedWords.map TaggedWord.word =
      ((full.visit n).filter fun m => m.kind == .tagged).filterMap token? := by
    rw [taggedWords_eq, List.map_filterMap, List.filterMap_filter]
    congr 1
    funext m
    cases m <;> rfl
  rw [htagged, tokens_eq_above]
  exact (List.filter_sublist.filterMap token?).trans (List.sublist_append_right _ _)

/-- The nodes with a token right below them are the tagged words and the bare lemmas. -/
theorem length_filterMap_token? (ns : List Node) :
    (ns.filterMap token?).length = (ns.filterMap tagged?).length + ns.countP isBare := by
  rw [List.length_filterMap_eq_countP, List.length_filterMap_eq_countP,
    List.countP_eq_countP_filter_add ns _ fun m => m.kind == .tagged, List.countP_filter,
    List.countP_filter]
  congr 2
  · funext m
    cases m <;> simp [token?, tagged?, kind]
  · funext m
    cases m with
    | verb v => cases v <;> rfl
    | nounPhrase n => cases n <;> rfl
    | _ => rfl

end Node

/-- What a walker collects that takes note of one kind of node is a projection of the full walk: its words,
its tags or its tagged words, in order; not going below tagged words loses none of them. So the tags of a
pattern are those of its tagged words, the tokens of its tagged words are among its tokens in the same order,
and there are as many further tokens as bare lemmas. -/
theorem collected_eq_projection :
    (∀ n : Node,
      n.tokens = (full.visit n).filterMap Node.word? ∧
      n.tags = (full.visit n).filterMap Node.tag? ∧
      n.taggedWords = (full.visit n).filterMap Node.tagged?) ∧
    (∀ v : Verb, v.taggedWords = (full.visit (.verb v)).filterMap Node.tagged?) ∧
    (∀ n : Node, n.kind ≠ .word → n.kind ≠ .tag →
      n.tags = n.taggedWords.map TaggedWord.tag ∧
      (n.taggedWords.map TaggedWord.word).Sublist n.tokens ∧
      n.tokens.length = n.taggedWords.length + (full.visit n).countP Node.isBare) := by
  refine ⟨fun n => ⟨n.tokens_eq, n.tags_eq, n.taggedWords_eq⟩, fun v => Node.taggedWords_eq (.verb v), ?_⟩
  intro n hword htag
  refine ⟨?_, n.taggedWords_sublist_tokens, ?_⟩
  · rw [n.tags_eq_above, Node.tag?_eq_none htag]
    rfl
  · rw [n.tokens_eq_above, Node.word?_eq_none hword, n.taggedWords_eq]
    exact Node.length_filterMap_token? _

/-- A phrase with a bare object: the third token has no tag. -/
theorem collected_eq_projection_object :
    let give : TaggedWord := ⟨⟨"give", by decide, by decide⟩, .verb⟩
    let up : TaggedWord := ⟨⟨"up", by decide, by decide⟩, .particle⟩
    let hope : Word := ⟨"hope", by decide, by decide⟩
    let n : Node := .verb (.withObject (.phrase ⟨[give, up]⟩) (.bare hope))
    n.kind ≠ .word ∧ n.kind ≠ .tag ∧
    n.tokens = [give.word, up.word, hope] ∧ n.taggedWords = [give, up] ∧
    n.tags = n.taggedWords.map TaggedWord.tag ∧
    n.tokens.length = n.taggedWords.length + (full.visit n).countP Node.isBare := by
  intro give up hope n
  have hword : n.kind ≠ .word := by decide
  have htag : n.kind ≠ .tag := by decide
  obtain ⟨-, -, h⟩ := collected_eq_projection
  obtain ⟨htags, -, hlength⟩ := h n hword htag
  exact ⟨hword, htag, rfl, rfl, htags, hlength⟩

end Phrasebook
