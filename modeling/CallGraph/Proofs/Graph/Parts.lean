import CallGraph.Proofs.Graph.Circle

/-!
# The parts of a graph

Which cycles are shown depends on the strongly connected parts alone, not on how they are listed.

* `Adjacency.Partition` — each node is in exactly one part, together with the nodes of its part;
* `Adjacency.partition_parts` — this is so for the parts that `Adjacency.parts` lists;
* `Adjacency.cyclePath_congr` — the path shown for a part does not depend on the order of its members;
* `Adjacency.foldr_insertPath` — inserting paths one after the other sorts them;
* `Adjacency.cyclesOf_eq` — **one circle for each root**, in their order, whatever the partition.
-/

namespace CallGraph

open Relation

namespace Adjacency

variable {a : Adjacency} {members members' part : List Nat} {parts : List (List Nat)}
  {start depth i j : Nat}

/-! ### Partitions -/

/-- Lists of nodes that are the strongly connected parts, in any order. -/
structure Partition (a : Adjacency) (parts : List (List Nat)) : Prop where
  /-- Each node is in exactly one part, and only once. -/
  perm : parts.flatten.Perm (List.range a.size)
  /-- A part holds the nodes that are together with any of them. -/
  together : ∀ part ∈ parts, ∀ i ∈ part, ∀ j, j ∈ part ↔ a.Together i j

theorem Partition.nodup (h : a.Partition parts) (hpart : part ∈ parts) : part.Nodup :=
  (List.nodup_flatten.1 (h.perm.nodup_iff.2 List.nodup_range)).1 part hpart

theorem Partition.disjoint (h : a.Partition parts) : parts.Pairwise List.Disjoint :=
  (List.nodup_flatten.1 (h.perm.nodup_iff.2 List.nodup_range)).2

theorem Partition.exists_part (h : a.Partition parts) (hi : i < a.size) :
    ∃ part ∈ parts, i ∈ part :=
  List.mem_flatten.1 (h.perm.mem_iff.2 (List.mem_range.2 hi))

theorem getD_reachTable (hi : i < a.size) : a.reachTable.getD i [] = a.reach i := by
  rw [List.getD_eq_getElem?_getD, reachTable, List.getElem?_map, List.getElem?_range hi]
  rfl

/-- The part of a node, as it is computed from what the nodes reach. -/
def partOf (a : Adjacency) (i : Nat) : List Nat := a.part a.reachTable i

theorem mem_partOf (ha : a.Bounded) (hi : i < a.size) : j ∈ a.partOf i ↔ a.Together i j := by
  unfold partOf Adjacency.part
  rw [List.mem_filter, List.mem_range, Bool.or_eq_true, decide_eq_true_eq, Bool.and_eq_true,
    List.contains_iff_mem, List.contains_iff_mem, getD_reachTable hi, mem_reach_iff ha,
    together_iff]
  constructor
  · rintro ⟨hj, heq | ⟨hforth, hback⟩⟩
    · exact .inl heq
    · rw [getD_reachTable hj, mem_reach_iff ha] at hback
      exact .inr ⟨hforth, hback⟩
  · rintro (rfl | h)
    · exact ⟨hi, .inl rfl⟩
    · have hj := ha.lt_of_linked h.symm
      rw [getD_reachTable hj, mem_reach_iff ha]
      exact ⟨hj, .inr h⟩

theorem lt_of_mem_partOf (h : j ∈ a.partOf i) : j < a.size :=
  List.mem_range.1 (List.mem_of_mem_filter h)

theorem mem_partOf_self (ha : a.Bounded) (hi : i < a.size) : i ∈ a.partOf i :=
  (mem_partOf ha hi).2 ⟨.refl, .refl⟩

/-- The nodes that are the earliest of their parts. -/
def firsts (a : Adjacency) : List Nat :=
  (List.range a.size).filter fun i => earliest? (a.partOf i) = some i

theorem mem_firsts : i ∈ a.firsts ↔ i < a.size ∧ earliest? (a.partOf i) = some i := by
  rw [firsts, List.mem_filter, List.mem_range, decide_eq_true_eq]

theorem pairwise_firsts (a : Adjacency) : a.firsts.Pairwise (· < ·) :=
  List.Pairwise.filter _ List.pairwise_lt_range

theorem parts_eq (a : Adjacency) : a.parts = a.firsts.map a.partOf := rfl

theorem Together.symm (h : a.Together i j) : a.Together j i := ⟨h.2, h.1⟩

theorem Together.trans {k : Nat} (h : a.Together i j) (h' : a.Together j k) : a.Together i k :=
  ⟨h.1.trans h'.1, h'.2.trans h.2⟩

/-- A part is computed from any of its nodes. -/
theorem partOf_congr (ha : a.Bounded) (hi : i < a.size) (hj : j < a.size) (h : a.Together i j) :
    a.partOf i = a.partOf j := by
  refine List.filter_congr fun k hk => ?_
  have hsame : k ∈ a.partOf i ↔ k ∈ a.partOf j := by
    rw [mem_partOf ha hi, mem_partOf ha hj]
    exact ⟨h.symm.trans, h.trans⟩
  simpa only [partOf, Adjacency.part, List.mem_filter, hk, true_and, ← Bool.eq_iff_iff] using hsame

/-- Each node is in the part of the earliest node of its part. -/
theorem exists_first (ha : a.Bounded) (hi : i < a.size) :
    ∃ k ∈ a.firsts, i ∈ a.partOf k := by
  obtain ⟨k, hk⟩ := exists_earliest (List.ne_nil_of_mem (mem_partOf_self ha hi))
  have hmem := (earliest?_eq_some_iff.1 hk).1
  have hsize := lt_of_mem_partOf hmem
  rw [partOf_congr ha hi hsize ((mem_partOf ha hi).1 hmem)] at hk
  exact ⟨k, mem_firsts.2 ⟨hsize, hk⟩, (mem_partOf ha hsize).2 ((mem_partOf ha hi).1 hmem).symm⟩

theorem pairwise_disjoint_parts (ha : a.Bounded) : a.parts.Pairwise List.Disjoint := by
  rw [parts_eq]
  refine List.pairwise_map.2 (a.pairwise_firsts.imp_of_mem fun {i j} hi hj hlt k hki hkj => ?_)
  -- Two nodes of one part would both be its earliest.
  obtain ⟨hi, hfirst⟩ := mem_firsts.1 hi
  obtain ⟨hj, hfirst'⟩ := mem_firsts.1 hj
  have htogether := ((mem_partOf ha hi).1 hki).trans ((mem_partOf ha hj).1 hkj).symm
  rw [partOf_congr ha hi hj htogether, hfirst'] at hfirst
  exact Nat.lt_irrefl i (Option.some.inj hfirst ▸ hlt)

/-- **The parts that are listed** are the strongly connected parts. -/
theorem partition_parts (ha : a.Bounded) : a.Partition a.parts := by
  have hpartOf : ∀ part ∈ a.parts, ∃ i < a.size, part = a.partOf i := by
    intro part hpart
    obtain ⟨i, hi, rfl⟩ := List.mem_map.1 hpart
    exact ⟨i, (mem_firsts.1 hi).1, rfl⟩
  have hnodup : a.parts.flatten.Nodup := by
    refine List.nodup_flatten.2 ⟨fun part hpart => ?_, pairwise_disjoint_parts ha⟩
    obtain ⟨i, -, rfl⟩ := hpartOf part hpart
    exact List.nodup_range.filter _
  have hmem : ∀ i, i ∈ a.parts.flatten ↔ i ∈ List.range a.size := by
    intro i
    rw [List.mem_flatten, List.mem_range]
    constructor
    · rintro ⟨part, hpart, hi⟩
      obtain ⟨k, -, rfl⟩ := hpartOf part hpart
      exact lt_of_mem_partOf hi
    · intro hi
      obtain ⟨k, hk, hik⟩ := exists_first ha hi
      exact ⟨_, List.mem_map_of_mem hk, hik⟩
  refine ⟨(List.perm_ext_iff_of_nodup hnodup List.nodup_range).2 hmem,
    fun part hpart i hi j => ?_⟩
  obtain ⟨k, hk, rfl⟩ := hpartOf part hpart
  rw [mem_partOf ha hk] at hi ⊢
  exact ⟨hi.symm.trans, hi.trans⟩

/-- A part contains a cycle if one of its nodes lies on one. -/
theorem isCyclic_iff (hnodup : members.Nodup) (hmembers : ∀ j, j ∈ members ↔ a.Together i j) :
    a.isCyclic members = true ↔ a.Linked i i := by
  unfold isCyclic
  rw [Bool.or_eq_true, decide_eq_true_eq, Option.any_eq_true]
  constructor
  · rintro (hlength | ⟨k, hhead, hself⟩)
    · -- Of several members one is another node than `i`.
      obtain ⟨k, hk, hne⟩ : ∃ k ∈ members, k ≠ i := by
        obtain ⟨x, y, rest, rfl⟩ : ∃ x y rest, members = x :: y :: rest := by
          cases members with
          | nil => exact absurd hlength (Nat.not_lt_zero 1)
          | cons x rest =>
            cases rest with
            | nil => exact absurd hlength (Nat.lt_irrefl 1)
            | cons y rest => exact ⟨x, y, rest, rfl⟩
        have hxy : x ≠ y := fun heq => (List.nodup_cons.1 hnodup).1 (heq ▸ List.mem_cons_self)
        by_cases hx : x = i
        · exact ⟨y, List.mem_cons_of_mem _ List.mem_cons_self, fun hy => hxy (hx.trans hy.symm)⟩
        · exact ⟨x, List.mem_cons_self, hx⟩
      exact ((together_iff.1 ((hmembers k).1 hk)).resolve_left hne).refl_left
    · have hk := (hmembers k).1 (List.mem_of_mem_head? hhead)
      have hleads : a.Leads k k := List.contains_iff_mem.1 hself
      exact hk.symm.linked_self ⟨.single hleads, .single hleads⟩
  · rintro ⟨hcycle, -⟩
    obtain ⟨k, hleads, hback⟩ := TransGen.head'_iff.1 hcycle
    have hk : k ∈ members := (hmembers k).2 ⟨.single hleads, hback⟩
    have hi : i ∈ members := (hmembers i).2 ⟨.refl, .refl⟩
    by_cases hlength : 1 < members.length
    · exact .inl hlength
    · obtain ⟨j, rfl⟩ : ∃ j, members = [j] := by
        refine List.length_eq_one_iff.1 ?_
        have hpos := List.length_pos_of_mem hi
        omega
      obtain rfl := List.mem_singleton.1 hi
      obtain rfl := List.mem_singleton.1 hk
      exact .inr ⟨k, rfl, List.contains_iff_mem.2 hleads⟩

/-! ### Paths of parts -/

/-- The search only asks which nodes are members. -/
theorem seek_congr (h : ∀ j, j ∈ members ↔ j ∈ members') (trail : List Nat) (i : Nat) (s : Search) :
    a.seek members start depth trail i s = a.seek members' start depth trail i s := by
  induction depth generalizing trail i s with
  | zero => rfl
  | succ depth ih =>
    have hcontains : ∀ j, members.contains j = members'.contains j := by
      intro j
      rw [Bool.eq_iff_iff, List.contains_iff_mem, List.contains_iff_mem, h]
    have hvisit : a.visit members start depth trail = a.visit members' start depth trail := by
      funext s j
      simp only [visit, hcontains, ih]
    rw [seek_succ, seek_succ, hvisit]

/-- **The path that is shown** does not depend on the order of the members. -/
theorem cyclePath_congr (h : members.Perm members') :
    a.cyclePath members = a.cyclePath members' := by
  have hway : ∀ start, a.wayBack? members start = a.wayBack? members' start := by
    intro start
    rw [wayBack?, wayBack?, h.length_eq, seek_congr fun j => h.mem_iff]
  have hsort : members.mergeSort (fun i j => i ≤ j) = members'.mergeSort fun i j => i ≤ j := by
    have hsorted : ∀ xs : List Nat,
        (xs.mergeSort fun i j => i ≤ j).Pairwise fun i j => decide (i ≤ j) = true :=
      List.pairwise_mergeSort
        (fun i j k hij hjk => by simp only [decide_eq_true_eq] at *; omega)
        (fun i j => by simp only [Bool.or_eq_true, decide_eq_true_eq]; omega)
    refine List.Perm.eq_of_pairwise (fun i j _ _ hij hji => ?_) (hsorted members) (hsorted members')
      ((List.mergeSort_perm members _).trans (h.trans (List.mergeSort_perm members' _).symm))
    exact Nat.le_antisymm (of_decide_eq_true hij) (of_decide_eq_true hji)
  simp only [cyclePath, earliest?_congr h, hway, hsort]

/-! ### The order of paths -/

theorem pathBefore_trans {path path' path'' : List Nat} (h : pathBefore path path' = true)
    (h' : pathBefore path' path'' = true) : pathBefore path path'' = true :=
  Std.TransCmp.isLE_trans h h'

theorem pathBefore_total (path path' : List Nat) :
    pathBefore path path' = true ∨ pathBefore path' path = true := by
  have hswap : List.compareLex compare path path' = (List.compareLex compare path' path).swap :=
    Std.OrientedCmp.eq_swap
  rw [pathBefore, pathBefore, hswap]
  cases List.compareLex compare path' path with
  | lt => exact .inr rfl
  | eq => exact .inl rfl
  | gt => exact .inl rfl

theorem pathBefore_antisymm {path path' : List Nat} (h : pathBefore path path' = true)
    (h' : pathBefore path' path = true) : path = path' :=
  Std.LawfulEqCmp.eq_of_compare (Std.OrientedCmp.isLE_antisymm h h')

/-- The first numbers decide where they differ. -/
theorem pathBefore_of_lt (h : i < j) (path path' : List Nat) :
    pathBefore (i :: path) (j :: path') = true := by
  rw [pathBefore, List.compareLex_cons_cons, Std.compare_eq_lt.2 h]
  rfl

theorem insertPath_perm (path : List Nat) (paths : List (List Nat)) :
    (insertPath path paths).Perm (path :: paths) := by
  induction paths with
  | nil => exact .refl _
  | cons other rest ih =>
    rw [insertPath]
    split
    · exact .refl _
    · exact (ih.cons other).trans (.swap path other rest)

theorem pairwise_insertPath {paths : List (List Nat)} (path : List Nat)
    (h : paths.Pairwise fun p q => pathBefore p q = true) :
    (insertPath path paths).Pairwise fun p q => pathBefore p q = true := by
  induction paths with
  | nil => exact List.pairwise_singleton _ _
  | cons other rest ih =>
    obtain ⟨hother, hrest⟩ := List.pairwise_cons.1 h
    rw [insertPath]
    split
    · rename_i hbefore
      refine List.pairwise_cons.2 ⟨fun q hq => ?_, h⟩
      rcases List.mem_cons.1 hq with rfl | hq
      · exact hbefore
      · exact pathBefore_trans hbefore (hother q hq)
    · rename_i hbehind
      refine List.pairwise_cons.2 ⟨fun q hq => ?_, ih hrest⟩
      rcases List.mem_cons.1 ((insertPath_perm path rest).mem_iff.1 hq) with rfl | hq
      · exact (pathBefore_total other q).resolve_right hbehind
      · exact hother q hq

/-- **Inserting paths** one after the other gives the same list whatever their order. -/
theorem foldr_insertPath {paths sorted : List (List Nat)} (h : paths.Perm sorted)
    (hsorted : sorted.Pairwise fun p q => pathBefore p q = true) :
    paths.foldr insertPath [] = sorted := by
  have hinserted : ∀ paths : List (List Nat), (paths.foldr insertPath []).Perm paths ∧
      (paths.foldr insertPath []).Pairwise fun p q => pathBefore p q = true := by
    intro paths
    induction paths with
    | nil => exact ⟨.refl _, List.Pairwise.nil⟩
    | cons path paths ih =>
      exact ⟨(insertPath_perm path _).trans (ih.1.cons path), pairwise_insertPath path ih.2⟩
  exact ((hinserted paths).1.trans h).eq_of_pairwise
    (fun p q _ _ => pathBefore_antisymm) (hinserted paths).2 hsorted

/-! ### All cycles -/

/-- The path that is shown for the part of a node. -/
def circleAt (a : Adjacency) (i : Nat) : List Nat := a.cyclePath (a.partOf i)

/-- The roots in ascending order. -/
def roots (a : Adjacency) : List Nat := a.firsts.filter fun i => a.isCyclic (a.partOf i)

theorem mem_roots (ha : a.Bounded) : i ∈ a.roots ↔ a.Root i := by
  have hcyclic : i < a.size → (a.isCyclic (a.partOf i) = true ↔ a.Linked i i) := fun hi =>
    isCyclic_iff (List.nodup_range.filter _) fun _ => mem_partOf ha hi
  rw [roots, List.mem_filter, mem_firsts]
  constructor
  · rintro ⟨⟨hi, hfirst⟩, hpart⟩
    exact ((hcyclic hi).1 hpart).root (fun _ => mem_partOf ha hi) hfirst
  · intro h
    have hi := ha.lt_of_linked h.1
    exact ⟨⟨hi, (h.circle fun _ => mem_partOf ha hi).1⟩, (hcyclic hi).2 h.1⟩

/-- A node that lies on a cycle is linked to the root of its part. -/
theorem Linked.exists_root (ha : a.Bounded) (h : a.Linked i i) :
    ∃ k, a.Root k ∧ a.Linked i k := by
  obtain ⟨k, hk, hmem⟩ := exists_first ha (ha.lt_of_linked h)
  obtain ⟨hsize, hfirst⟩ := mem_firsts.1 hk
  have hmembers : ∀ j, j ∈ a.partOf k ↔ a.Together k j := fun _ => mem_partOf ha hsize
  have hlinked := h.together_iff.1 ((hmembers i).1 hmem).symm
  exact ⟨k, hlinked.symm.refl_left.root hmembers hfirst, hlinked⟩

theorem pairwise_roots (a : Adjacency) : a.roots.Pairwise (· < ·) :=
  a.pairwise_firsts.filter _

theorem Root.circleAt (ha : a.Bounded) (h : a.Root i) : a.Circle i (a.circleAt i) :=
  (h.circle fun _ => mem_partOf ha (ha.lt_of_linked h.1)).2.2

/-- A part that contains a cycle is shown by the circle of its root. -/
theorem Partition.root (ha : a.Bounded) (h : a.Partition parts) (hpart : part ∈ parts)
    (hcyclic : a.isCyclic part = true) :
    ∃ i, a.Root i ∧ earliest? part = some i ∧ (a.wayBack? part i).isSome ∧
      a.cyclePath part = a.circleAt i := by
  have hne : part ≠ [] := by
    rintro rfl
    exact Bool.false_ne_true hcyclic
  obtain ⟨i, hfirst⟩ := exists_earliest hne
  have hmembers := h.together part hpart i (earliest?_eq_some_iff.1 hfirst).1
  have hlinked := (isCyclic_iff (h.nodup hpart) hmembers).1 hcyclic
  have hroot := hlinked.root hmembers hfirst
  have hperm : part.Perm (a.partOf i) := by
    refine (List.perm_ext_iff_of_nodup (h.nodup hpart) (List.nodup_range.filter _)).2 fun j => ?_
    rw [hmembers, ← mem_partOf ha (ha.lt_of_linked hlinked), partOf, Adjacency.part]
  exact ⟨i, hroot, hfirst, (hroot.circle hmembers).2.1, cyclePath_congr hperm⟩

/-- The earliest nodes of the parts that contain cycles are the roots, each of them once. -/
theorem Partition.perm_roots (ha : a.Bounded) (h : a.Partition parts) :
    ((parts.filter a.isCyclic).filterMap earliest?).Perm a.roots := by
  have hnodup : ((parts.filter a.isCyclic).filterMap earliest?).Nodup := by
    refine (h.disjoint.filter _).filterMap _ fun part part' hdisjoint i hi j hj heq => ?_
    refine hdisjoint (earliest?_eq_some_iff.1 hi).1 ?_
    rw [heq]
    exact (earliest?_eq_some_iff.1 hj).1
  refine (List.perm_ext_iff_of_nodup hnodup (a.pairwise_roots.imp Nat.ne_of_lt)).2 fun i => ?_
  rw [List.mem_filterMap, mem_roots ha]
  constructor
  · rintro ⟨part, hpart, hi⟩
    obtain ⟨hpart, hcyclic⟩ := List.mem_filter.1 hpart
    obtain ⟨j, hj, hfirst, -⟩ := h.root ha hpart hcyclic
    rw [hfirst] at hi
    exact Option.some.inj hi ▸ hj
  · intro hi
    obtain ⟨part, hpart, hmem⟩ := h.exists_part (ha.lt_of_linked hi.1)
    have hmembers := h.together part hpart i hmem
    have hcyclic := (isCyclic_iff (h.nodup hpart) hmembers).2 hi.1
    exact ⟨part, List.mem_filter.2 ⟨hpart, hcyclic⟩, (hi.circle hmembers).1⟩

/-- **One circle** is shown for each root, whatever the partition. -/
theorem cyclesOf_eq (ha : a.Bounded) (h : a.Partition parts) :
    a.cyclesOf parts = a.roots.map a.circleAt := by
  have hmap : (parts.filter a.isCyclic).map a.cyclePath =
      ((parts.filter a.isCyclic).filterMap earliest?).map a.circleAt := by
    rw [List.map_filterMap, ← List.filterMap_eq_map]
    refine List.filterMap_congr fun part hpart => ?_
    obtain ⟨hpart, hcyclic⟩ := List.mem_filter.1 hpart
    obtain ⟨i, -, hfirst, -, hpath⟩ := h.root ha hpart hcyclic
    rw [Function.comp_apply, hpath, hfirst]
    rfl
  rw [cyclesOf, hmap]
  refine foldr_insertPath ((h.perm_roots ha).map _)
    (List.pairwise_map.2 (a.pairwise_roots.imp_of_mem fun {i j} hi hj hlt => ?_))
  obtain ⟨⟨interior, hpath, -⟩, -⟩ := ((mem_roots ha).1 hi).circleAt ha
  obtain ⟨⟨interior', hpath', -⟩, -⟩ := ((mem_roots ha).1 hj).circleAt ha
  rw [hpath, hpath']
  exact pathBefore_of_lt hlt _ _

end Adjacency

end CallGraph
