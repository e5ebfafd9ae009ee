import Mathlib.Data.List.Pairwise
import Mathlib.Data.List.TakeWhile
import Mathlib.Order.Lattice

/-!
# Search trees whose inner keys may be wrong

A tree of equal depth everywhere, whose leaves hold keys and whose inner nodes hold a key for each
child. A search takes, at an inner node, the last key before the first greater one. Nothing relates
the inner keys to the leaves, or to each other, so that a search may miss a key that is there. The
condition under which it never does is `Routes`.

## Main definitions

* `Graph`, `content`, `descend`: the tree, what it holds, and the leaf that a search comes to.
* `Routes`: the inner keys separate the children.

## Main results

* `Routes.placed`: then every search comes to the leaf where the key belongs.
* `routes_iff_found`: this is so exactly when every key that is there is found.
-/

namespace RoutingTree

variable {κ ν : Type} [LinearOrder κ]

/-! ### The choice at one node -/

/-- The position of the last key before the first greater one, and the first position where there
is none. -/
def route (ks : List κ) (k : κ) : Nat := (ks.takeWhile (· ≤ k)).length - 1

theorem route_lt {ks : List κ} (h : ks ≠ []) (k : κ) : route ks k < ks.length := by
  have hle : (ks.takeWhile (· ≤ k)).length ≤ ks.length := (List.takeWhile_prefix _).length_le
  have hpos : 0 < ks.length := List.length_pos_iff.mpr h
  rw [route]
  omega

/-- Where a later position is chosen than the first, no key up to it is greater. -/
theorem le_of_route {ks : List κ} {k q : κ} (hpos : 0 < route ks k)
    (hq : q ∈ ks.take (route ks k + 1)) : q ≤ k := by
  have hlen : route ks k + 1 = (ks.takeWhile (· ≤ k)).length := by
    rw [route] at hpos ⊢
    omega
  rw [hlen, ← List.prefix_iff_eq_take.mp (List.takeWhile_prefix _)] at hq
  simpa using List.mem_takeWhile_imp hq

/-- Up to a position after the chosen one there is a greater key. -/
theorem exists_lt_of_route (ks : List κ) {k : κ} {j : Nat} (hj : route ks k < j)
    (hjlen : j < ks.length) : ∃ q ∈ ks.take (j + 1), k < q := by
  obtain ⟨rest, hrest⟩ := List.takeWhile_prefix (fun q => decide (q ≤ k)) (l := ks)
  have hle : (ks.takeWhile (· ≤ k)).length ≤ j := by
    rw [route] at hj
    omega
  match hr : rest with
  | [] =>
    rw [List.append_nil] at hrest
    rw [← hrest] at hjlen
    omega
  | q :: rest =>
    refine ⟨q, ?_, ?_⟩
    · rw [← hrest, List.take_append, List.take_of_length_le (by omega), List.mem_append]
      refine .inr ?_
      rw [show j + 1 - (ks.takeWhile (· ≤ k)).length = (j - (ks.takeWhile (· ≤ k)).length) + 1 by
        omega, List.take_succ_cons]
      exact List.mem_cons_self
    · have hdrop : ks.dropWhile (· ≤ k) = q :: rest := by
        have := List.takeWhile_append_dropWhile (p := fun q => decide (q ≤ k)) (l := ks)
        exact List.append_cancel_left (this.trans hrest.symm)
      have hhead := List.head_dropWhile_not (l := ks) (fun q => decide (q ≤ k)) (by simp [hdrop])
      simpa [hdrop] using hhead

/-! ### Trees -/

/-- The keys of a node, and the children of an inner one. -/
structure Graph (κ ν : Type) where
  keys : ν → List κ
  kids : ν → List ν

section Content

variable {κ ν : Type} (G : Graph κ ν)

/-- The leaves below a node of a height. -/
def leaves : Nat → ν → List ν
  | 0, n => [n]
  | l + 1, n => (G.kids n).flatMap (leaves l)

/-- A node of a height and all nodes below it. -/
def nodes : Nat → ν → List ν
  | 0, n => [n]
  | l + 1, n => n :: (G.kids n).flatMap (nodes l)

/-- The keys of the leaves below a node. -/
def content (l : Nat) (n : ν) : List κ := (leaves G l n).flatMap G.keys

/-- Every node has keys, and an inner one has a child for each. -/
def Shaped : Nat → ν → Prop
  | 0, n => G.keys n ≠ []
  | l + 1, n => G.keys n ≠ [] ∧ (G.kids n).length = (G.keys n).length ∧ ∀ c ∈ G.kids n, Shaped l c

variable {G} {l : Nat} {n : ν}

theorem mem_nodes_self (l : Nat) (n : ν) : n ∈ nodes G l n := by
  cases l with
  | zero => exact List.mem_singleton_self n
  | succ l => exact List.mem_cons_self

theorem nodes_of_kid {c m : ν} (hc : c ∈ G.kids n) (hm : m ∈ nodes G l c) :
    m ∈ nodes G (l + 1) n :=
  List.mem_cons_of_mem _ (List.mem_flatMap.mpr ⟨c, hc, hm⟩)

@[simp]
theorem content_zero : content G 0 n = G.keys n := by
  rw [content, leaves, List.flatMap_singleton]

theorem content_succ : content G (l + 1) n = (G.kids n).flatMap (content G l) := by
  rw [content, leaves, List.flatMap_assoc]
  rfl

theorem content_ne_nil (h : Shaped G l n) : content G l n ≠ [] := by
  induction l generalizing n with
  | zero =>
    rw [content_zero]
    exact h
  | succ l ih =>
    obtain ⟨hkeys, hlen, hkids⟩ := h
    match hk : G.kids n with
    | [] =>
      rw [hk] at hlen
      exact absurd (List.length_eq_zero_iff.mp hlen.symm) hkeys
    | c :: cs =>
      rw [content_succ, hk, List.flatMap_cons]
      exact List.append_ne_nil_of_left_ne_nil (ih (hkids c (by rw [hk]; exact List.mem_cons_self))) _

end Content

variable (G : Graph κ ν)

/-- The leaf that the search for a key comes to. -/
def descend (k : κ) : Nat → ν → ν
  | 0, n => n
  | l + 1, n => descend k l ((G.kids n).getD (route (G.keys n) k) n)

/-- The keys of the inner nodes separate their children: up to each child but the first, some key
is above all that is in the child before it, and none is above anything in the child. -/
def Routes : Nat → ν → Prop
  | 0, _ => True
  | l + 1, n =>
    (∀ i a b, (G.kids n)[i]? = some a → (G.kids n)[i + 1]? = some b →
      (∃ q ∈ (G.keys n).take (i + 2), ∀ x ∈ content G l a, x < q) ∧
        ∀ q ∈ (G.keys n).take (i + 2), ∀ x ∈ content G l b, q ≤ x) ∧
      ∀ c ∈ G.kids n, Routes l c

variable {G} {l : Nat} {n : ν} {k : κ}

/-- The child that is chosen. -/
theorem getElem?_route (h : Shaped G (l + 1) n) (k : κ) :
    (G.kids n)[route (G.keys n) k]? = some ((G.kids n).getD (route (G.keys n) k) n) := by
  have hlt : route (G.keys n) k < (G.kids n).length := by
    rw [h.2.1]
    exact route_lt h.1 k
  rw [List.getD_eq_getElem?_getD, List.getElem?_eq_getElem hlt, Option.getD_some]

theorem descend_mem (h : Shaped G l n) (k : κ) : descend G k l n ∈ leaves G l n := by
  induction l generalizing n with
  | zero => exact List.mem_singleton_self n
  | succ l ih =>
    have hmem := List.mem_of_getElem? (getElem?_route h k)
    exact List.mem_flatMap.mpr ⟨_, hmem, ih (h.2.2 _ hmem)⟩

/-! ### Sorted trees -/

/-- What is in an earlier child comes before what is in a later one. -/
theorem lt_of_kids (hs : (content G (l + 1) n).Pairwise (· < ·)) {i j : Nat} {a b : ν} (hij : i < j)
    (ha : (G.kids n)[i]? = some a) (hb : (G.kids n)[j]? = some b) {x y : κ}
    (hx : x ∈ content G l a) (hy : y ∈ content G l b) : x < y := by
  rw [content_succ, List.pairwise_flatMap] at hs
  obtain ⟨hi, rfl⟩ := List.getElem?_eq_some_iff.mp ha
  obtain ⟨hj, rfl⟩ := List.getElem?_eq_some_iff.mp hb
  exact List.pairwise_iff_getElem.mp hs.2 i j hi hj hij x hx y hy

theorem pairwise_kid (hs : (content G (l + 1) n).Pairwise (· < ·)) {c : ν} (hc : c ∈ G.kids n) :
    (content G l c).Pairwise (· < ·) := by
  rw [content_succ, List.pairwise_flatMap] at hs
  exact hs.1 c hc

/-- A key is in one child only. -/
theorem eq_of_mem_kids (hs : (content G (l + 1) n).Pairwise (· < ·)) {i j : Nat} {a b : ν}
    (ha : (G.kids n)[i]? = some a) (hb : (G.kids n)[j]? = some b) (hka : k ∈ content G l a)
    (hkb : k ∈ content G l b) : i = j := by
  rcases lt_trichotomy i j with h | h | h
  · exact absurd (lt_of_kids hs h ha hb hka hkb) (lt_irrefl k)
  · exact h
  · exact absurd (lt_of_kids hs h hb ha hkb hka) (lt_irrefl k)

/-- The search comes to the leaf where the key belongs. -/
theorem Routes.placed (hr : Routes G l n) (h : Shaped G l n)
    (hs : (content G l n).Pairwise (· < ·)) (k : κ) :
    ∃ before after, leaves G l n = before ++ descend G k l n :: after ∧
      (∀ x ∈ before.flatMap G.keys, x < k) ∧ ∀ x ∈ after.flatMap G.keys, k < x := by
  induction l generalizing n with
  | zero => exact ⟨[], [], rfl, by simp, by simp⟩
  | succ l ih =>
    have hchild := getElem?_route h k
    have hmem := List.mem_of_getElem? hchild
    rw [descend]
    generalize (G.kids n).getD (route (G.keys n) k) n = c at hchild hmem
    generalize hi : route (G.keys n) k = i at hchild
    obtain ⟨before, after, hsplit, hlt, hgt⟩ := ih (hr.2 c hmem) (h.2.2 c hmem) (pairwise_kid hs hmem)
    have hilen : i < (G.kids n).length := (List.getElem?_eq_some_iff.mp hchild).1
    have hkids : G.kids n = (G.kids n).take i ++ c :: (G.kids n).drop (i + 1) := by
      obtain ⟨hlen, hc⟩ := List.getElem?_eq_some_iff.mp hchild
      rw [← hc, List.getElem_cons_drop, List.take_append_drop]
    refine ⟨((G.kids n).take i).flatMap (leaves G l) ++ before,
      after ++ ((G.kids n).drop (i + 1)).flatMap (leaves G l), ?_, ?_, ?_⟩
    · rw [leaves]
      conv_lhs => rw [hkids]
      rw [List.flatMap_append, List.flatMap_cons, hsplit]
      simp only [List.append_assoc, List.cons_append]
    · intro x hx
      rw [List.flatMap_append, List.mem_append, List.flatMap_assoc] at hx
      refine hx.elim (fun hx => ?_) (hlt x)
      obtain ⟨a, ha, hxa⟩ := List.mem_flatMap.mp hx
      obtain ⟨j, hj, rfl⟩ := List.mem_iff_getElem.mp ha
      have hj' : j < i ∧ j < (G.kids n).length := by simpa using hj
      -- The child before the chosen one bounds all that come before.
      have hpos : 0 < i := by omega
      obtain ⟨p, hp⟩ : ∃ p, (G.kids n)[i - 1]? = some p := by
        refine ⟨_, List.getElem?_eq_getElem ?_⟩
        omega
      have hstep := hr.1 (i - 1) p c hp (by rwa [Nat.sub_add_cancel hpos])
      obtain ⟨q, hq, hbound⟩ := hstep.1
      have hqk : q ≤ k := by
        refine le_of_route (hi.symm ▸ hpos : 0 < route (G.keys n) k) ?_
        rwa [hi, show i + 1 = i - 1 + 2 by omega]
      refine lt_of_lt_of_le ?_ hqk
      rcases Nat.lt_or_ge j (i - 1) with hji | hji
      · obtain ⟨y, hy⟩ := List.exists_mem_of_ne_nil _
          (content_ne_nil (h.2.2 p (List.mem_of_getElem? hp)))
        refine lt_trans (lt_of_kids hs hji ?_ hp hxa hy) (hbound y hy)
        rw [List.getElem_take]
        exact List.getElem?_eq_getElem _
      · obtain rfl : j = i - 1 := by omega
        refine hbound x ?_
        rw [List.getElem_take] at hxa
        rw [List.getElem?_eq_getElem (by omega)] at hp
        cases hp
        exact hxa
    · intro x hx
      rw [List.flatMap_append, List.mem_append, List.flatMap_assoc] at hx
      refine hx.elim (hgt x) fun hx => ?_
      obtain ⟨b, hb, hxb⟩ := List.mem_flatMap.mp hx
      obtain ⟨j, hj, rfl⟩ := List.mem_iff_getElem.mp hb
      rw [List.length_drop] at hj
      obtain ⟨p, hp⟩ : ∃ p, (G.kids n)[i + 1]? = some p :=
        ⟨_, List.getElem?_eq_getElem (by omega)⟩
      obtain ⟨q, hq, hkq⟩ := exists_lt_of_route (G.keys n) (k := k) (j := i + 1) (by omega)
        (by rw [← h.2.1]; omega)
      have hbound := (hr.1 i c p hchild hp).2 q hq
      refine lt_of_lt_of_le hkq ?_
      rw [List.getElem_drop] at hxb
      rcases Nat.eq_zero_or_pos j with rfl | hjpos
      · rw [List.getElem?_eq_getElem (by omega)] at hp
        cases hp
        exact hbound x hxb
      · obtain ⟨y, hy⟩ := List.exists_mem_of_ne_nil _
          (content_ne_nil (h.2.2 p (List.mem_of_getElem? hp)))
        refine le_of_lt (lt_of_le_of_lt (hbound y hy) (lt_of_kids hs (j := i + 1 + j) ?_ hp ?_ hy hxb))
        · exact Nat.lt_add_of_pos_right hjpos
        · exact List.getElem?_eq_getElem _

/-- A key that is there leads the search to the child that holds it. -/
theorem route_eq (hfound : ∀ k ∈ content G (l + 1) n, k ∈ G.keys (descend G k (l + 1) n))
    (h : Shaped G (l + 1) n) (hs : (content G (l + 1) n).Pairwise (· < ·)) {i : Nat} {a : ν}
    (ha : (G.kids n)[i]? = some a) (hk : k ∈ content G l a) : route (G.keys n) k = i := by
  have hchild := getElem?_route h k
  have hin : k ∈ content G (l + 1) n := by
    rw [content_succ]
    exact List.mem_flatMap.mpr ⟨a, List.mem_of_getElem? ha, hk⟩
  refine eq_of_mem_kids hs hchild ha ?_ hk
  have hmem := List.mem_of_getElem? hchild
  exact List.mem_flatMap.mpr ⟨_, descend_mem (h.2.2 _ hmem) k, hfound k hin⟩

/-- The search finds every key that is there exactly when the keys of the inner nodes separate
their children. -/
theorem routes_iff_found (h : Shaped G l n) (hs : (content G l n).Pairwise (· < ·)) :
    (∀ k ∈ content G l n, k ∈ G.keys (descend G k l n)) ↔ Routes G l n := by
  constructor
  · intro hfound
    induction l generalizing n with
    | zero => trivial
    | succ l ih =>
      refine ⟨fun i a b ha hb => ⟨?_, ?_⟩, fun c hc => ?_⟩
      · -- The last key of the child before leads to that child.
        have hne := content_ne_nil (h.2.2 a (List.mem_of_getElem? ha))
        have hlast := List.getLast_mem hne
        obtain ⟨hlen, _⟩ := List.getElem?_eq_some_iff.mp hb
        obtain ⟨q, hq, hlt⟩ := exists_lt_of_route (G.keys n) (j := i + 1)
          (by rw [route_eq hfound h hs ha hlast]; exact Nat.lt_succ_self i) (by rwa [← h.2.1])
        refine ⟨q, hq, fun x hx => lt_of_le_of_lt ?_ hlt⟩
        exact ((pairwise_kid hs (List.mem_of_getElem? ha)).imp le_of_lt).rel_getLast hx
      · intro q hq x hx
        have hroute := route_eq hfound h hs hb hx
        exact le_of_route (hroute.symm ▸ Nat.succ_pos i : 0 < route (G.keys n) x) (by rwa [hroute])
      · obtain ⟨i, hi, rfl⟩ := List.mem_iff_getElem.mp hc
        refine ih (h.2.2 _ hc) (pairwise_kid hs hc) fun k hk => ?_
        have hget := List.getElem?_eq_getElem hi
        have hin : k ∈ content G (l + 1) n := by
          rw [content_succ]
          exact List.mem_flatMap.mpr ⟨_, hc, hk⟩
        have hdescend := hfound k hin
        rwa [descend, route_eq hfound h hs hget hk, List.getD_eq_getElem?_getD, hget,
          Option.getD_some] at hdescend
  · intro hr k hk
    obtain ⟨before, after, hsplit, hlt, hgt⟩ := hr.placed h hs k
    rw [content, hsplit, List.flatMap_append, List.flatMap_cons, List.mem_append,
      List.mem_append] at hk
    rcases hk with hk | hk | hk
    · exact absurd (hlt k hk) (lt_irrefl k)
    · exact hk
    · exact absurd (hgt k hk) (lt_irrefl k)

end RoutingTree
