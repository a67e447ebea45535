import Mathlib.Data.List.Nodup

/-!
# Trees in memory

A tree whose nodes are in memory, each with a link to its parent and links to its children.
`DepthIs` follows the links upwards. `Linked` says that the links agree in both directions, and that
the links upwards lead from every node to the root, in no more than a number of steps: there are no
cycles, and no node is anywhere else.

A tree changes a leaf at a time (`Linked.addLeaf`, `Linked.removeLeaf`).
-/

universe u

/-- A node in memory: the addresses of its parent and its children, and what it holds. -/
structure TreeNode (α : Type u) where
  parent : Option ℕ
  children : List ℕ
  data : α

abbrev TreeHeap (α : Type u) : Type u := ℕ → Option (TreeNode α)

namespace TreeHeap

open List Function

variable {α : Type u} {h h' : TreeHeap α} {a b c p k j root bound : ℕ} {n np nc : TreeNode α}
  {x : α}

inductive DepthIs (h : TreeHeap α) : ℕ → ℕ → Prop
  | root {a : ℕ} {n : TreeNode α} : h a = some n → n.parent = none → DepthIs h a 0
  | child {a p k : ℕ} {n : TreeNode α} :
      h a = some n → n.parent = some p → DepthIs h p k → DepthIs h a (k + 1)

/-- The links agree, and lead from every node to the root. -/
structure Linked (h : TreeHeap α) (root bound : ℕ) : Prop where
  exists_root : ∃ n, h root = some n ∧ n.parent = none
  root_eq : ∀ a n, h a = some n → n.parent = none → a = root
  mem_children : ∀ a n p, h a = some n → n.parent = some p → ∃ np, h p = some np ∧ a ∈ np.children
  parent_eq : ∀ a n c, h a = some n → c ∈ n.children → ∃ nc, h c = some nc ∧ nc.parent = some a
  nodup : ∀ a n, h a = some n → n.children.Nodup
  depth : ∀ a n, h a = some n → ∃ k ≤ bound, DepthIs h a k

namespace DepthIs

theorem exists_node (hd : DepthIs h a k) : ∃ n, h a = some n := by
  cases hd with
  | root ha _ => exact ⟨_, ha⟩
  | child ha _ _ => exact ⟨_, ha⟩

theorem unique (hk : DepthIs h a k) (hj : DepthIs h a j) : k = j := by
  induction hk generalizing j with
  | root ha hparent =>
    cases hj with
    | root _ _ => rfl
    | child ha' hparent' _ =>
      obtain rfl := Option.some.inj (ha.symm.trans ha')
      rw [hparent] at hparent'
      cases hparent'
  | child ha hparent _ ih =>
    cases hj with
    | root ha' hparent' =>
      obtain rfl := Option.some.inj (ha.symm.trans ha')
      rw [hparent] at hparent'
      cases hparent'
    | child ha' hparent' hp =>
      obtain rfl := Option.some.inj (ha.symm.trans ha')
      obtain rfl := Option.some.inj (hparent.symm.trans hparent')
      rw [ih hp]

theorem of_parent (hd : DepthIs h a k) (ha : h a = some n) (hp : n.parent = some p) :
    ∃ j, k = j + 1 ∧ DepthIs h p j := by
  cases hd with
  | root ha' hparent =>
    obtain rfl := Option.some.inj (ha.symm.trans ha')
    rw [hp] at hparent
    cases hparent
  | child ha' hparent hd =>
    obtain rfl := Option.some.inj (ha.symm.trans ha')
    obtain rfl := Option.some.inj (hp.symm.trans hparent)
    exact ⟨_, rfl, hd⟩

theorem mono (hd : DepthIs h a k) (hkeep : ∀ b n, h b = some n → (∃ j ≤ k, DepthIs h b j) →
      ∃ n', h' b = some n' ∧ n'.parent = n.parent) : DepthIs h' a k := by
  induction hd with
  | root ha hparent =>
    obtain ⟨n', ha', hparent'⟩ := hkeep _ _ ha ⟨0, Nat.le_refl _, .root ha hparent⟩
    exact .root ha' (hparent'.trans hparent)
  | child ha hparent hp ih =>
    obtain ⟨n', ha', hparent'⟩ := hkeep _ _ ha ⟨_, Nat.le_refl _, .child ha hparent hp⟩
    refine .child ha' (hparent'.trans hparent) (ih fun b n hb hj => hkeep b n hb ?_)
    obtain ⟨j, hj, hd⟩ := hj
    exact ⟨j, Nat.le_succ_of_le hj, hd⟩

end DepthIs

/-! ### Another leaf -/

def addLeaf (h : TreeHeap α) (p : ℕ) (np : TreeNode α) (c : ℕ) (x : α) : TreeHeap α :=
  update (update h p (some { np with children := c :: np.children })) c (some ⟨some p, [], x⟩)

theorem addLeaf_leaf : (h.addLeaf p np c x) c = some ⟨some p, [], x⟩ :=
  update_self ..

theorem addLeaf_parent (hne : p ≠ c) :
    (h.addLeaf p np c x) p = some { np with children := c :: np.children } := by
  rw [addLeaf, update_of_ne hne, update_self]

theorem addLeaf_of_ne (hc : a ≠ c) (hp : a ≠ p) : (h.addLeaf p np c x) a = h a := by
  rw [addLeaf, update_of_ne hc, update_of_ne hp]

theorem addLeaf_cases (ha : (h.addLeaf p np c x) a = some n) :
    a = c ∧ n = ⟨some p, [], x⟩ ∨ a ≠ c ∧ a = p ∧ n = { np with children := c :: np.children } ∨
      a ≠ c ∧ a ≠ p ∧ h a = some n := by
  by_cases hc : a = c
  · rw [hc, addLeaf_leaf] at ha
    exact .inl ⟨hc, (Option.some.inj ha).symm⟩
  · by_cases hp : a = p
    · rw [hp, addLeaf_parent (hp ▸ hc)] at ha
      exact .inr (.inl ⟨hc, hp, (Option.some.inj ha).symm⟩)
    · rw [addLeaf_of_ne hc hp] at ha
      exact .inr (.inr ⟨hc, hp, ha⟩)

theorem exists_addLeaf (hp : h p = some np) (hc : h c = none) (ha : h a = some n) :
    ∃ n', (h.addLeaf p np c x) a = some n' ∧ n'.parent = n.parent ∧ n'.data = n.data ∧
      (a = p → n'.children = c :: n.children) ∧ (a ≠ p → n' = n) := by
  have hac : a ≠ c := by
    rintro rfl
    rw [hc] at ha
    cases ha
  by_cases hap : a = p
  · subst hap
    obtain rfl := Option.some.inj (hp.symm.trans ha)
    exact ⟨_, addLeaf_parent hac, rfl, rfl, fun _ => rfl, fun hne => absurd rfl hne⟩
  · exact ⟨n, (addLeaf_of_ne hac hap).trans ha, rfl, rfl, fun heq => absurd heq hap, fun _ => rfl⟩

theorem DepthIs.addLeaf (hd : DepthIs h a k) (hp : h p = some np) (hc : h c = none) :
    DepthIs (h.addLeaf p np c x) a k :=
  hd.mono fun _ _ hb _ => by
    obtain ⟨n', hn', hparent, -⟩ := exists_addLeaf hp hc hb
    exact ⟨n', hn', hparent⟩

theorem Linked.addLeaf (hl : Linked h root bound) (hp : h p = some np) (hc : h c = none)
    (hd : DepthIs h p k) (hk : k < bound) : Linked (h.addLeaf p np c x) root bound := by
  have hpc : p ≠ c := by
    rintro rfl
    rw [hc] at hp
    cases hp
  constructor
  · obtain ⟨n, hroot, hparent⟩ := hl.exists_root
    obtain ⟨n', hn', hparent', -⟩ := exists_addLeaf hp hc hroot
    exact ⟨n', hn', hparent'.trans hparent⟩
  · intro a n ha hparent
    obtain ⟨rfl, rfl⟩ | ⟨-, rfl, rfl⟩ | ⟨-, -, ha⟩ := addLeaf_cases ha
    · cases hparent
    · exact hl.root_eq a np hp hparent
    · exact hl.root_eq a n ha hparent
  · intro a n q ha hparent
    have hold : ∀ m, h a = some m → m.parent = some q →
        ∃ nq, (h.addLeaf p np c x) q = some nq ∧ a ∈ nq.children := by
      intro m hm hmq
      obtain ⟨nq, hq, hmem⟩ := hl.mem_children a m q hm hmq
      obtain ⟨nq', hq', -, -, hsame, hother⟩ := exists_addLeaf hp hc hq
      refine ⟨nq', hq', ?_⟩
      by_cases hqp : q = p
      · rw [hsame hqp]
        exact mem_cons_of_mem _ hmem
      · rw [hother hqp]
        exact hmem
    obtain ⟨rfl, rfl⟩ | ⟨-, rfl, rfl⟩ | ⟨-, -, ha⟩ := addLeaf_cases ha
    · obtain rfl := Option.some.inj hparent
      exact ⟨_, addLeaf_parent hpc, mem_cons_self⟩
    · exact hold np hp hparent
    · exact hold n ha hparent
  · intro a n d ha hd
    have hold : ∀ m, h a = some m → d ∈ m.children →
        ∃ nd, (h.addLeaf p np c x) d = some nd ∧ nd.parent = some a := by
      intro m hm hmem
      obtain ⟨nd, hnd, hparent⟩ := hl.parent_eq a m d hm hmem
      obtain ⟨nd', hnd', hparent', -⟩ := exists_addLeaf hp hc hnd
      exact ⟨nd', hnd', hparent'.trans hparent⟩
    obtain ⟨rfl, rfl⟩ | ⟨-, rfl, rfl⟩ | ⟨-, -, ha⟩ := addLeaf_cases ha
    · cases hd
    · obtain rfl | hd := mem_cons.mp hd
      · exact ⟨_, addLeaf_leaf, rfl⟩
      · exact hold np hp hd
    · exact hold n ha hd
  · intro a n ha
    obtain ⟨rfl, rfl⟩ | ⟨-, rfl, rfl⟩ | ⟨-, -, ha⟩ := addLeaf_cases ha
    · exact .nil
    · refine nodup_cons.mpr ⟨fun hmem => ?_, hl.nodup a np hp⟩
      obtain ⟨nc, hnc, -⟩ := hl.parent_eq a np c hp hmem
      rw [hc] at hnc
      cases hnc
    · exact hl.nodup a n ha
  · intro a n ha
    have hold : ∀ m, h a = some m → ∃ k ≤ bound, DepthIs (h.addLeaf p np c x) a k := by
      intro m hm
      obtain ⟨j, hj, hdepth⟩ := hl.depth a m hm
      exact ⟨j, hj, hdepth.addLeaf hp hc⟩
    obtain ⟨rfl, rfl⟩ | ⟨-, rfl, rfl⟩ | ⟨-, -, ha⟩ := addLeaf_cases ha
    · exact ⟨k + 1, hk, .child addLeaf_leaf rfl (hd.addLeaf hp hc)⟩
    · exact hold np hp
    · exact hold n ha

/-! ### One leaf less -/

def removeLeaf (h : TreeHeap α) (p : ℕ) (np : TreeNode α) (c : ℕ) : TreeHeap α :=
  update (update h p (some { np with children := np.children.erase c })) c none

theorem removeLeaf_leaf : (h.removeLeaf p np c) c = none :=
  update_self ..

theorem removeLeaf_parent (hne : p ≠ c) :
    (h.removeLeaf p np c) p = some { np with children := np.children.erase c } := by
  rw [removeLeaf, update_of_ne hne, update_self]

theorem removeLeaf_of_ne (hc : a ≠ c) (hp : a ≠ p) : (h.removeLeaf p np c) a = h a := by
  rw [removeLeaf, update_of_ne hc, update_of_ne hp]

theorem removeLeaf_cases (ha : (h.removeLeaf p np c) a = some n) :
    a ≠ c ∧ (a = p ∧ n = { np with children := np.children.erase c } ∨ a ≠ p ∧ h a = some n) := by
  by_cases hc : a = c
  · rw [hc, removeLeaf_leaf] at ha
    cases ha
  · refine ⟨hc, ?_⟩
    by_cases hp : a = p
    · rw [hp, removeLeaf_parent (hp ▸ hc)] at ha
      exact .inl ⟨hp, (Option.some.inj ha).symm⟩
    · rw [removeLeaf_of_ne hc hp] at ha
      exact .inr ⟨hp, ha⟩

theorem exists_removeLeaf (hp : h p = some np) (ha : h a = some n) (hac : a ≠ c) :
    ∃ n', (h.removeLeaf p np c) a = some n' ∧ n'.parent = n.parent ∧ n'.data = n.data ∧
      (a = p → n'.children = n.children.erase c) ∧ (a ≠ p → n' = n) := by
  by_cases hap : a = p
  · subst hap
    obtain rfl := Option.some.inj (hp.symm.trans ha)
    exact ⟨_, removeLeaf_parent hac, rfl, rfl, fun _ => rfl, fun hne => absurd rfl hne⟩
  · refine ⟨n, (removeLeaf_of_ne hac hap).trans ha, rfl, rfl, ?_, fun _ => rfl⟩
    exact fun heq => absurd heq hap

theorem Linked.depthIs_removeLeaf (hl : Linked h root bound) (hc : h c = some nc)
    (hleaf : nc.children = []) (hp : h p = some np) (hd : DepthIs h a k) (hac : a ≠ c) :
    DepthIs (h.removeLeaf p np c) a k := by
  -- no link leads upwards to the leaf
  induction hd with
  | root ha hparent =>
    obtain ⟨n', ha', hparent', -⟩ := exists_removeLeaf hp ha hac
    exact .root ha' (hparent'.trans hparent)
  | child ha hparent _ ih =>
    obtain ⟨n', ha', hparent', -⟩ := exists_removeLeaf hp ha hac
    refine .child ha' (hparent'.trans hparent) (ih ?_)
    rintro rfl
    obtain ⟨nq, hq, hmem⟩ := hl.mem_children _ _ _ ha hparent
    obtain rfl := Option.some.inj (hc.symm.trans hq)
    rw [hleaf] at hmem
    cases hmem

theorem Linked.removeLeaf (hl : Linked h root bound) (hc : h c = some nc)
    (hparent : nc.parent = some p) (hleaf : nc.children = []) (hp : h p = some np) :
    Linked (h.removeLeaf p np c) root bound := by
  have hroot : root ≠ c := by
    rintro rfl
    obtain ⟨n, hn, hnone⟩ := hl.exists_root
    obtain rfl := Option.some.inj (hc.symm.trans hn)
    rw [hparent] at hnone
    cases hnone
  have hcases : ∀ a n, (h.removeLeaf p np c) a = some n → a ≠ c ∧ ∃ m, h a = some m ∧
      n.parent = m.parent ∧ (a = p → n.children = m.children.erase c) ∧ (a ≠ p → n = m) := by
    intro a n ha
    obtain ⟨hac, ⟨rfl, rfl⟩ | ⟨hap, ha⟩⟩ := removeLeaf_cases ha
    · exact ⟨hac, np, hp, rfl, (fun _ => rfl), fun hne => absurd rfl hne⟩
    · exact ⟨hac, n, ha, rfl, (fun heq => absurd heq hap), fun _ => rfl⟩
  constructor
  · obtain ⟨n, hn, hnone⟩ := hl.exists_root
    obtain ⟨n', hn', hparent', -⟩ := exists_removeLeaf hp hn hroot
    exact ⟨n', hn', hparent'.trans hnone⟩
  · intro a n ha hnone
    obtain ⟨-, m, hm, hsame, -⟩ := hcases a n ha
    exact hl.root_eq a m hm (hsame.symm.trans hnone)
  · intro a n q ha hq
    obtain ⟨hac, m, hm, hsame, -⟩ := hcases a n ha
    obtain ⟨nq, hnq, hmem⟩ := hl.mem_children a m q hm (hsame.symm.trans hq)
    have hqc : q ≠ c := by
      rintro rfl
      obtain rfl := Option.some.inj (hc.symm.trans hnq)
      rw [hleaf] at hmem
      cases hmem
    obtain ⟨nq', hnq', -, -, hchildren, hother⟩ := exists_removeLeaf hp hnq hqc
    refine ⟨nq', hnq', ?_⟩
    by_cases hqp : q = p
    · rw [hchildren hqp]
      exact (mem_erase_of_ne hac).mpr hmem
    · rw [hother hqp]
      exact hmem
  · intro a n d ha hd
    obtain ⟨-, m, hm, -, hchildren, hother⟩ := hcases a n ha
    have hmem : d ∈ m.children ∧ d ≠ c := by
      by_cases hap : a = p
      · rw [hchildren hap, (hl.nodup a m hm).mem_erase_iff] at hd
        exact ⟨hd.2, hd.1⟩
      · rw [hother hap] at hd
        refine ⟨hd, ?_⟩
        rintro rfl
        obtain ⟨nd, hnd, hda⟩ := hl.parent_eq a m d hm hd
        obtain rfl := Option.some.inj (hc.symm.trans hnd)
        exact hap (Option.some.inj (hda.symm.trans hparent))
    obtain ⟨nd, hnd, hda⟩ := hl.parent_eq a m d hm hmem.1
    obtain ⟨nd', hnd', hsame, -⟩ := exists_removeLeaf hp hnd hmem.2
    exact ⟨nd', hnd', hsame.trans hda⟩
  · intro a n ha
    obtain ⟨-, m, hm, -, hchildren, hother⟩ := hcases a n ha
    by_cases hap : a = p
    · rw [hchildren hap]
      exact (hl.nodup a m hm).erase c
    · rw [hother hap]
      exact hl.nodup a m hm
  · intro a n ha
    obtain ⟨hac, m, hm, -⟩ := hcases a n ha
    obtain ⟨k, hk, hd⟩ := hl.depth a m hm
    exact ⟨k, hk, hl.depthIs_removeLeaf hc hleaf hp hd hac⟩

end TreeHeap
