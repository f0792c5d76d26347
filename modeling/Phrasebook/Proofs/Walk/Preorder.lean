/-
Walks in terms of addresses. The address of a node is the way down to it: at each step the position of the
child to go to. In the lexicographic order of addresses a parent comes before its children, and what lies
on the left before what lies on the right. A walker lists nodes in this order, and it meets a node exactly
when it may enter all proper ancestors of the node; so a walker that stops at more kinds of node lists
fewer nodes, in the same order.
-/
import Phrasebook.Proofs.Walk
import Mathlib.Data.List.FinRange

namespace Phrasebook

/-! ## Addresses -/

namespace Node

/-- The node at an address; none if the address leads out of the pattern. -/
def at? (n : Node) : List Nat → Option Node
  | [] => some n
  | i :: a => n.children[i]?.bind fun c => c.at? a

/-- The nodes on the way down to an address, the root first and the node at the address left out. -/
def ancestors (n : Node) : List Nat → List Node
  | [] => []
  | i :: a => n :: n.children[i]?.elim [] fun c => c.ancestors a

theorem sizeOf_lt_of_mem_children {c n : Node} (h : c ∈ n.children) : sizeOf c < sizeOf n := by
  cases n with
  | verb v => cases v <;> simp [children] at h <;> grind
  | nounPhrase n => cases n <;> simp [children] at h <;> grind
  | phrase p =>
    cases p
    obtain ⟨w, hw, rfl⟩ := List.mem_map.1 h
    have hlt := List.sizeOf_lt_of_mem hw
    simp only [tagged.sizeOf_spec, phrase.sizeOf_spec, Phrase.mk.sizeOf_spec] at hlt ⊢
    omega
  | tagged w => cases w; simp [children] at h; grind
  | word w => cases h
  | tag t => cases h

/-- The addresses of all nodes of a pattern: that of the root, then those in each child. -/
def addresses (n : Node) : List (List Nat) :=
  [] :: (List.finRange n.children.length).flatMap fun i =>
    (n.children.get i).addresses.map (i.val :: ·)
termination_by sizeOf n
decreasing_by exact sizeOf_lt_of_mem_children (List.get_mem _ i)

@[simp] theorem at?_get (n : Node) (i : Fin n.children.length) (a : List Nat) :
    n.at? (i.val :: a) = (n.children.get i).at? a := by
  rw [at?, List.getElem?_eq_getElem i.isLt]
  rfl

@[simp] theorem ancestors_get (n : Node) (i : Fin n.children.length) (a : List Nat) :
    n.ancestors (i.val :: a) = n :: (n.children.get i).ancestors a := by
  rw [ancestors, List.getElem?_eq_getElem i.isLt]
  rfl

theorem mem_addresses_iff {n : Node} {a : List Nat} : a ∈ n.addresses ↔ (n.at? a).isSome := by
  induction a generalizing n with
  | nil =>
    rw [addresses]
    simp [at?]
  | cons i a ih =>
    rw [addresses]
    simp only [List.mem_cons, reduceCtorEq, false_or, List.mem_flatMap, List.mem_finRange, true_and,
      List.mem_map, List.cons.injEq, at?]
    constructor
    · rintro ⟨j, b, hb, rfl, rfl⟩
      rw [List.getElem?_eq_getElem j.isLt]
      exact ih.1 hb
    · intro h
      rcases hc : n.children[i]? with _ | c
      · rw [hc] at h
        cases h
      · rw [hc] at h
        obtain ⟨hi, rfl⟩ := List.getElem?_eq_some_iff.1 hc
        exact ⟨⟨i, hi⟩, a, ih.2 h, rfl, rfl⟩

/-- The addresses of a pattern are listed in lexicographic order. -/
theorem addresses_pairwise (n : Node) : n.addresses.Pairwise (List.Lex (· < ·)) := by
  induction n using Node.induction with
  | step n ih =>
    rw [addresses, List.pairwise_cons, List.pairwise_flatMap]
    refine ⟨?_, ?_, ?_⟩
    · -- the root comes before every longer address
      intro a ha
      obtain ⟨i, -, ha⟩ := List.mem_flatMap.1 ha
      obtain ⟨b, -, rfl⟩ := List.mem_map.1 ha
      exact .nil
    · intro i _
      exact (ih _ (List.get_mem _ i)).map _ fun _ _ h => .cons h
    · refine (List.pairwise_lt_finRange _).imp ?_
      intro i j hij a ha b hb
      obtain ⟨a, -, rfl⟩ := List.mem_map.1 ha
      obtain ⟨b, -, rfl⟩ := List.mem_map.1 hb
      exact .rel hij

/-- The proper ancestors of a node stand at the proper beginnings of its address. -/
theorem mem_ancestors_iff {n m : Node} {a : List Nat} :
    m ∈ n.ancestors a ↔ ∃ b, b <+: a ∧ b ≠ a ∧ n.at? b = some m := by
  induction a generalizing n with
  | nil => simp [ancestors]
  | cons i a ih =>
    constructor
    · intro h
      rcases List.mem_cons.1 h with rfl | h
      · exact ⟨[], List.nil_prefix, by simp, rfl⟩
      · rcases hc : n.children[i]? with _ | c
        · rw [hc] at h
          cases h
        · rw [hc] at h
          obtain ⟨b, hb, hne, hm⟩ := ih.1 h
          refine ⟨i :: b, List.cons_prefix_cons.2 ⟨rfl, hb⟩, by simpa using hne, ?_⟩
          rw [at?, hc]
          exact hm
    · rintro ⟨b, hb, hne, hm⟩
      cases b with
      | nil =>
        cases hm
        exact .head _
      | cons j b =>
        obtain ⟨rfl, hprefix⟩ := List.cons_prefix_cons.1 hb
        obtain ⟨c, hc, hm⟩ := Option.bind_eq_some_iff.1 hm
        rw [ancestors, hc]
        exact .tail _ (ih.2 ⟨b, hprefix, by simpa using hne, hm⟩)

end Node

/-! ## The nodes that a walker meets -/

namespace Walker

/-- Whether a walker may enter all proper ancestors of the node at an address. -/
def reaches (w : Walker) (n : Node) (a : List Nat) : Bool :=
  (n.ancestors a).all fun m => w.enters m.kind

/-- The nodes of a pattern that a walker reaches, by ascending address. -/
def met (w : Walker) (n : Node) : List Node :=
  (n.addresses.filter (w.reaches n)).filterMap n.at?

theorem reaches_nil (w : Walker) (n : Node) : w.reaches n [] = true := rfl

theorem reaches_get (w : Walker) (n : Node) (i : Fin n.children.length) (a : List Nat) :
    w.reaches n (i.val :: a) = (w.enters n.kind && w.reaches (n.children.get i) a) := by
  unfold reaches
  rw [Node.ancestors_get, List.all_cons]

/-- The addresses below one child, as seen from the parent. -/
theorem met_child (w : Walker) (n : Node) (i : Fin n.children.length) :
    (((n.children.get i).addresses.map (i.val :: ·)).filter (w.reaches n)).filterMap n.at? =
      if w.enters n.kind then w.met (n.children.get i) else [] := by
  rw [List.filter_map, List.filterMap_map]
  simp only [Function.comp_def, reaches_get, Node.at?_get]
  cases w.enters n.kind with
  | false => simp
  | true => simp [met]

theorem met_eq (w : Walker) (n : Node) :
    w.met n = n :: if w.enters n.kind then n.children.flatMap w.met else [] := by
  conv_lhs =>
    unfold met
    rw [Node.addresses, List.filter_cons_of_pos (w.reaches_nil n), List.filter_flatMap]
  rw [List.filterMap_cons_some (show n.at? [] = some n from rfl), List.filterMap_flatMap]
  simp only [met_child]
  cases w.enters n.kind with
  | false => simp
  | true =>
    simp only [if_true]
    conv_rhs => rw [← List.map_get_finRange n.children, List.flatMap_map]

/-- A walker lists those of the nodes it reaches that are of the kinds to list. -/
theorem visit_eq_filter_met (w : Walker) (n : Node) :
    w.visit n = (w.met n).filter fun m => w.lists m.kind := by
  induction n using Node.induction with
  | step n ih =>
    have hbelow : w.below n = (n.children.flatMap w.met).filter fun m => w.lists m.kind := by
      rw [below_eq, List.filter_flatMap]
      unfold List.flatMap
      rw [List.map_congr_left ih]
    unfold visit arrive
    rw [hbelow, met_eq, List.filter_cons]
    cases w.enters n.kind <;> cases w.lists n.kind <;> simp

/-! ## Walkers that stop -/

theorem visit_stoppingAt (kinds : List NodeKind) (n : Node) :
    (stoppingAt kinds).visit n = (stoppingAt kinds).met n := by
  rw [visit_eq_filter_met]
  exact List.filter_eq_self.2 fun _ _ => rfl

theorem reaches_stoppingAt (kinds : List NodeKind) (n : Node) (a : List Nat) :
    (stoppingAt kinds).reaches n a = (n.ancestors a).all fun m => m.kind ∉ kinds := by
  unfold reaches enters action stoppingAt
  simp

theorem reaches_of_subset {kinds more : List NodeKind} (h : kinds ⊆ more) {n : Node} {a : List Nat}
    (ha : (stoppingAt more).reaches n a = true) : (stoppingAt kinds).reaches n a = true := by
  simp only [reaches_stoppingAt, List.all_eq_true, decide_eq_true_eq] at ha ⊢
  intro m hm hk
  exact ha m hm (h hk)

theorem visit_stoppingAt_sublist {kinds more : List NodeKind} (h : kinds ⊆ more) (n : Node) :
    ((stoppingAt more).visit n).Sublist ((stoppingAt kinds).visit n) := by
  rw [visit_stoppingAt, visit_stoppingAt]
  apply List.Sublist.filterMap
  apply List.monotone_filter_right
  intro a ha
  exact reaches_of_subset h ha

end Walker

open Walker

/-- A walker that stops at some kinds of node lists exactly the nodes without a proper ancestor of these
kinds, in preorder. The addresses of a pattern are those at which it has a node, in lexicographic order:
parents before children, left before right. The proper ancestors of a node stand at the proper
beginnings of its address. Stopping at more kinds leaves a part of the list, in the same order; and a walk
from a node lists the node, then, unless it stops there, what a walk below the node lists. -/
theorem stoppingAt_lists_preorder :
    (∀ n : Node,
      n.addresses.Pairwise (List.Lex (· < ·)) ∧
      (∀ a, a ∈ n.addresses ↔ (n.at? a).isSome) ∧
      ∀ a m, m ∈ n.ancestors a ↔ ∃ b, b <+: a ∧ b ≠ a ∧ n.at? b = some m) ∧
    (∀ (kinds : List NodeKind) (n : Node),
      (stoppingAt kinds).visit n =
        (n.addresses.filter fun a => (n.ancestors a).all fun m => m.kind ∉ kinds).filterMap n.at?) ∧
    (∀ kinds more : List NodeKind, kinds ⊆ more → ∀ n : Node,
      ((stoppingAt more).visit n).Sublist ((stoppingAt kinds).visit n)) ∧
    (∀ (kinds : List NodeKind) (n : Node),
      (stoppingAt kinds).visit n =
        if n.kind ∈ kinds then [n] else n :: (stoppingAt kinds).below n) := by
  refine ⟨fun n => ⟨n.addresses_pairwise, fun a => Node.mem_addresses_iff, fun a m => Node.mem_ancestors_iff⟩,
    fun kinds n => ?_, fun kinds more h n => visit_stoppingAt_sublist h n, fun kinds n => ?_⟩
  · rw [visit_stoppingAt]
    unfold met
    rw [funext (reaches_stoppingAt kinds n)]
  · unfold visit arrive lists enters action stoppingAt
    by_cases h : n.kind ∈ kinds <;> simp [h]

/-- A verb with a tagged object: stopping also at noun phrases cuts the object off. -/
theorem stoppingAt_lists_preorder_object :
    let take : Word := ⟨"take", by decide, by decide⟩
    let place : TaggedWord := ⟨⟨"place", by decide, by decide⟩, .noun⟩
    let n : Node := .verb (.withObject (.bare take) (.tagged place))
    [.tagged] ⊆ [NodeKind.nounPhrase, .tagged] ∧
    (stoppingAt [.nounPhrase, .tagged]).visit n =
      [n, .verb (.bare take), .word take, .nounPhrase (.tagged place)] ∧
    (stoppingAt [.tagged]).visit n =
      [n, .verb (.bare take), .word take, .nounPhrase (.tagged place), .tagged place] ∧
    ((stoppingAt [.nounPhrase, .tagged]).visit n).Sublist ((stoppingAt [.tagged]).visit n) := by
  intro take place n
  have hsubset : [.tagged] ⊆ [NodeKind.nounPhrase, .tagged] := by simp
  obtain ⟨-, -, hsublist, -⟩ := stoppingAt_lists_preorder
  exact ⟨hsubset, rfl, rfl, hsublist _ _ hsubset n⟩

end Phrasebook
