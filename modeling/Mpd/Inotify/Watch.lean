import Mpd.General.LinkedTree
import Mpd.General.Runs
import Mpd.Inotify.Queue

/-!
# Watching directories

`inotify_update.c` watches the music directory and the directories below it, down to a maximum
depth. `struct watch_directory` is a node of a tree, with links to its parent and its children, and
`inotify_directories` finds the node for a watch descriptor.

The kernel answers as it likes: which entries a directory has, whether a path leads to a directory
and what descriptor it gets may change from one system call to the next. Memory that has been freed
is not used again, so that a link into it is noticed. A path with 2^32 components is longer than any
system accepts, and so depths are natural numbers.

Whatever the kernel answers and whatever events it reports, no assertion fails, and `Consistent`
holds after each event (`watches_consistent`).
-/

namespace Mpd

open Nat Function List Except

namespace Inotify

/-- What a node of the tree holds. -/
structure WatchDirectory where
  name : Text
  descriptor : ℤ

inductive WatchFault
  /-- memory is used that is not allocated -/
  | badAddress
  /-- `assert(found)` in `tree_remove_watch_directory` -/
  | notFound
  /-- `assert(directory->parent->children != NULL)` in `remove_watch_directory` -/
  | noChildren
  /-- `assert(depth <= inotify_max_depth)` in `recursive_watch_subdirectories` -/
  | tooDeep
  /-- more rounds of a loop than there are nodes, or more calls than there are levels -/
  | endless
  deriving DecidableEq, Repr

/-- The state of the module. The root of the tree, `inotify_root`, is at address 0. -/
structure Watches where
  heap : TreeHeap WatchDirectory
  /-- the address that is allocated next -/
  next : ℕ
  /-- `inotify_directories` -/
  directories : ℤ → Option ℕ
  /-- `inotify_max_depth` -/
  maxDepth : ℕ
  /-- the system calls up to now -/
  calls : ℕ
  /-- `inotify_queue` -/
  queue : List Text

/-- The kernel, with its answers at a time. -/
structure Kernel where
  /-- `opendir` and `readdir`: the names in a directory -/
  readdir : ℕ → Text → Option (List Text)
  /-- `stat`: whether it is a directory -/
  stat : ℕ → Text → Option Bool
  /-- `inotify_add_watch`: the descriptor, or a negative number -/
  addWatch : ℕ → Text → ℤ

/-- The mask of an event. -/
structure Mask where
  attrib : Bool := false
  closeWrite : Bool := false
  create : Bool := false
  delete : Bool := false
  deleteSelf : Bool := false
  movedFrom : Bool := false
  movedTo : Bool := false
  moveSelf : Bool := false
  isDir : Bool := false

def Mask.move (mask : Mask) : Bool :=
  mask.movedFrom || mask.movedTo

/-- An event: the descriptor of the directory, what has happened, and the name of the entry that it
has happened to, if there is one. -/
structure Event where
  wd : ℤ
  mask : Mask
  name : Option Text

namespace Watches

/-! ### The source -/

section Source

def get (w : Watches) (a : ℕ) : Except WatchFault (TreeNode WatchDirectory) :=
  match w.heap a with
  | some node => .ok node
  | none => .error .badAddress

def tick (w : Watches) : Watches :=
  { w with calls := w.calls + 1 }

def treeRemove (w : Watches) (descriptor : ℤ) : Except WatchFault Watches :=
  if (w.directories descriptor).isNone then .error .notFound
  else .ok { w with directories := update w.directories descriptor none }

def removeChildren (remove : ℕ → Watches → Except WatchFault Watches) (a : ℕ) :
    ℕ → Watches → Except WatchFault Watches
  | 0, _ => .error .endless
  | rounds + 1, w => do
    let node ← w.get a
    match node.children with
    | [] => .ok w
    | child :: _ => do
      let w ← remove child w
      removeChildren remove a rounds w

def removeWatchDirectory : ℕ → ℕ → Watches → Except WatchFault Watches
  | 0, _, _ => .error .endless
  | levels + 1, a, w => do
    let node ← w.get a
    match node.parent with
    -- music directory was removed - cannot continue to watch it
    | none => .ok w
    | some p => do
      let parent ← w.get p
      if parent.children = [] then .error .noChildren
      else do
        let w ← w.treeRemove node.data.descriptor
        let w ← removeChildren (removeWatchDirectory levels) a (w.next + 1) w
        let parent ← w.get p
        let _ ← w.get a
        .ok { w.tick with heap := w.heap.removeLeaf p parent a }

def getUriFs : ℕ → ℕ → Watches → Except WatchFault (Option Text)
  | 0, _, _ => .error .endless
  | levels + 1, a, w => do
    let node ← w.get a
    match node.parent with
    | none => .ok none
    | some p => do
      let parentUri ← getUriFs levels p w
      match parentUri with
      | none => .ok (some node.data.name)
      | some parentUri => .ok (some (parentUri ++ '/' :: node.data.name))

def skipPath (path : Text) : Bool :=
  path = ['.'] || path = ['.', '.'] || path.contains '\n'

def addChild (w : Watches) (directory : ℕ) (node : TreeNode WatchDirectory) (name : Text)
    (descriptor : ℤ) : Watches :=
  { w with
    heap := w.heap.addLeaf directory node w.next ⟨name, descriptor⟩
    next := w.next + 1
    directories := update w.directories descriptor (some w.next) }

def watchEntry (kernel : Kernel) (recurse : ℕ → Text → Watches → Except WatchFault Watches)
    (directory : ℕ) (pathFs name : Text) (w : Watches) : Except WatchFault Watches :=
  if skipPath name then .ok w
  else
    let childPathFs := pathFs ++ '/' :: name
    match kernel.stat w.calls childPathFs with
    | some true =>
      let w := w.tick
      let ret := kernel.addWatch w.calls childPathFs
      let w := w.tick
      if ret < 0 then .ok w
      else
        match w.directories ret with
        -- already being watched
        | some _ => .ok w
        | none => do
          let node ← w.get directory
          recurse w.next childPathFs (w.addChild directory node name ret)
    | _ => .ok w.tick

def watchEntries (kernel : Kernel) (recurse : ℕ → Text → Watches → Except WatchFault Watches)
    (directory : ℕ) (pathFs : Text) : List Text → Watches → Except WatchFault Watches
  | [], w => .ok w
  | name :: names, w => do
    let w ← watchEntry kernel recurse directory pathFs name w
    watchEntries kernel recurse directory pathFs names w

def recursiveWatchSubdirectories (kernel : Kernel) :
    ℕ → ℕ → ℕ → Text → Watches → Except WatchFault Watches
  | levels, depth, directory, pathFs, w =>
    if w.maxDepth < depth then .error .tooDeep
    else if w.maxDepth < depth + 1 then .ok w
    else
      match levels with
      | 0 => .error .endless
      | levels + 1 =>
        match kernel.readdir w.calls pathFs with
        | none => .ok w.tick
        | some names =>
          watchEntries kernel (recursiveWatchSubdirectories kernel levels (depth + 1)) directory
            pathFs names w.tick

def watchDirectoryDepth : ℕ → ℕ → Watches → Except WatchFault ℕ
  | 0, _, _ => .error .endless
  | levels + 1, a, w => do
    let node ← w.get a
    match node.parent with
    | none => .ok 0
    | some p => do
      let depth ← watchDirectoryDepth levels p w
      .ok (depth + 1)

def directoryPath (root : Text) : Option Text → Text
  | some uriFs => root ++ '/' :: uriFs
  | none => root

def entryPath (pathFs : Text) : Option Text → Text
  | some name => pathFs ++ '/' :: name
  | none => pathFs

def handleEvent (kernel : Kernel) (toUtf8 : Text → Text) (mask : Mask) (directory : ℕ)
    (uriFs : Option Text) (pathFs : Text) (newDirectory : Bool) (w : Watches) :
    Except WatchFault Watches :=
  if mask.deleteSelf || mask.moveSelf then removeWatchDirectory (w.maxDepth + 1) directory w
  else do
    let depth ← watchDirectoryDepth (w.maxDepth + 1) directory w
    -- a sub directory was changed: register those in inotify
    let w ← (if (mask.attrib || mask.create || mask.move) && newDirectory then
        recursiveWatchSubdirectories kernel w.maxDepth depth directory pathFs w
      else .ok w)
    if mask.closeWrite || mask.move || mask.delete ||
        -- at the maximum depth, we watch out for newly created directories
        (depth = w.maxDepth && newDirectory) || (!mask.isDir && newDirectory) then
      .ok { w with queue := InotifyQueue.enqueue w.queue ((uriFs.map toUtf8).getD []) }
    else .ok w

def callback (kernel : Kernel) (root : Text) (toUtf8 : Text → Text) (event : Event) (w : Watches) :
    Except WatchFault Watches :=
  match w.directories event.wd with
  | none => .ok w
  | some directory => do
    let uriFs ← getUriFs (w.maxDepth + 1) directory w
    let pathFs := directoryPath root uriFs
    if event.mask.attrib || event.mask.create then
      let newDirectory := kernel.stat w.calls (entryPath pathFs event.name) = some true
      handleEvent kernel toUtf8 event.mask directory uriFs pathFs newDirectory w.tick
    else handleEvent kernel toUtf8 event.mask directory uriFs pathFs false w

def init (kernel : Kernel) (root : Text) (maxDepth : ℕ) : Except WatchFault (Option Watches) :=
  let descriptor := kernel.addWatch 0 root
  if descriptor < 0 then .ok none
  else do
    let w ← recursiveWatchSubdirectories kernel maxDepth 0 0 root
      { heap := update (fun _ => none) 0 (some ⟨none, [], ⟨root, descriptor⟩⟩)
        next := 1
        directories := update (fun _ => none) descriptor (some 0)
        maxDepth := maxDepth
        calls := 1
        queue := [] }
    .ok (some w)

end Source

/-! ### The invariant -/

/-- The nodes are a tree with the given root, in which no node is deeper than the maximum, and
`inotify_directories` maps the descriptors of the nodes to them, and nothing else. -/
structure Consistent (w : Watches) : Prop where
  linked : w.heap.Linked 0 w.maxDepth
  index : ∀ descriptor a, w.directories descriptor = some a ↔
    ∃ node, w.heap a = some node ∧ node.data.descriptor = descriptor

/-- The invariant while nodes are being removed that are in the tree still, but not in
`inotify_directories`. -/
structure Inv (removed : List ℕ) (w : Watches) : Prop where
  linked : w.heap.Linked 0 w.maxDepth
  index : ∀ descriptor a, w.directories descriptor = some a ↔
    ∃ node, w.heap a = some node ∧ node.data.descriptor = descriptor ∧ a ∉ removed
  lt_next : ∀ a node, w.heap a = some node → a < w.next

variable {kernel : Kernel} {w w' w'' : Watches} {removed : List ℕ} {a p k directory : ℕ}
  {node : TreeNode WatchDirectory} {name pathFs : Text} {ret : ℤ}

open TreeHeap (DepthIs)

theorem Inv.consistent (h : Inv [] w) : Consistent w where
  linked := h.linked
  index descriptor a := by
    rw [h.index]
    simp only [not_mem_nil, not_false_eq_true, and_true]

theorem get_eq (h : w.heap a = some node) : w.get a = .ok node := by
  rw [get, h]

theorem Inv.tick (h : Inv removed w) : Inv removed w.tick :=
  ⟨h.linked, h.index, h.lt_next⟩

theorem Inv.next_eq_none (h : Inv removed w) : w.heap w.next = none := by
  cases hnext : w.heap w.next with
  | none => rfl
  | some node => exact absurd (h.lt_next _ node hnext) (lt_irrefl _)

theorem watchDirectoryDepth_eq (hd : DepthIs w.heap a k) {levels : ℕ} (hk : k < levels) :
    watchDirectoryDepth levels a w = .ok k := by
  induction hd generalizing levels with
  | root ha hparent =>
    obtain ⟨levels, rfl⟩ := exists_eq_succ_of_ne_zero (ne_of_gt hk)
    rw [watchDirectoryDepth, get_eq ha, ok_bind, hparent]
  | child ha hparent _ ih =>
    obtain ⟨levels, rfl⟩ := exists_eq_succ_of_ne_zero (ne_of_gt (zero_lt_of_lt hk))
    rw [watchDirectoryDepth, get_eq ha, ok_bind, hparent]
    dsimp only
    rw [ih (lt_of_succ_lt_succ hk)]
    rfl

theorem getUriFs_succeeds (hd : DepthIs w.heap a k) {levels : ℕ} (hk : k < levels) :
    ∃ uri, getUriFs levels a w = .ok uri := by
  induction hd generalizing levels with
  | root ha hparent =>
    obtain ⟨levels, rfl⟩ := exists_eq_succ_of_ne_zero (ne_of_gt hk)
    rw [getUriFs, get_eq ha, ok_bind, hparent]
    exact ⟨_, rfl⟩
  | child ha hparent _ ih =>
    obtain ⟨levels, rfl⟩ := exists_eq_succ_of_ne_zero (ne_of_gt (zero_lt_of_lt hk))
    rw [getUriFs, get_eq ha, ok_bind, hparent]
    obtain ⟨parentUri, huri⟩ := ih (lt_of_succ_lt_succ hk)
    dsimp only
    rw [huri, ok_bind]
    cases parentUri with
    | none => exact ⟨_, rfl⟩
    | some parentUri => exact ⟨_, rfl⟩

/-! ### Watching more directories -/

/-- What is watched stays watched, in the same place. -/
structure Grows (w w' : Watches) : Prop where
  node : ∀ a node, w.heap a = some node →
    ∃ node', w'.heap a = some node' ∧ node'.parent = node.parent ∧ node'.data = node.data
  watched : ∀ descriptor a, w.directories descriptor = some a → w'.directories descriptor = some a
  maxDepth : w'.maxDepth = w.maxDepth

theorem Grows.refl (w : Watches) : Grows w w where
  node _ node h := ⟨node, h, rfl, rfl⟩
  watched _ _ h := h
  maxDepth := rfl

theorem Grows.tick (w : Watches) : Grows w w.tick where
  node _ node h := ⟨node, h, rfl, rfl⟩
  watched _ _ h := h
  maxDepth := rfl

theorem Grows.trans (h : Grows w w') (h' : Grows w' w'') : Grows w w'' where
  node a node ha := by
    obtain ⟨node', ha', hparent, hdata⟩ := h.node a node ha
    obtain ⟨node'', ha'', hparent', hdata'⟩ := h'.node a node' ha'
    exact ⟨node'', ha'', hparent'.trans hparent, hdata'.trans hdata⟩
  watched descriptor a ha := h'.watched descriptor a (h.watched descriptor a ha)
  maxDepth := h'.maxDepth.trans h.maxDepth

theorem Grows.depthIs (h : Grows w w') (hd : DepthIs w.heap a k) : DepthIs w'.heap a k := by
  refine hd.mono fun b node hb _ => ?_
  obtain ⟨node', hb', hparent, -⟩ := h.node b node hb
  exact ⟨node', hb', hparent⟩

theorem Grows.addChild (h : Inv [] w) (hdirectory : w.heap directory = some node) (name : Text)
    (hret : w.directories ret = none) : Grows w (w.addChild directory node name ret) where
  node a node' ha := by
    obtain ⟨node'', ha', hparent, hdata, -⟩ :=
      TreeHeap.exists_addLeaf hdirectory h.next_eq_none ha
    exact ⟨node'', ha', hparent, hdata⟩
  watched descriptor a ha := by
    refine (update_of_ne ?_ _ _).trans ha
    rintro rfl
    rw [hret] at ha
    cases ha
  maxDepth := rfl

theorem Inv.addChild (h : Inv [] w) (hdirectory : w.heap directory = some node)
    (hd : DepthIs w.heap directory k) (hk : k < w.maxDepth) (hret : w.directories ret = none) :
    Inv [] (w.addChild directory node name ret) := by
  constructor
  · exact h.linked.addLeaf hdirectory h.next_eq_none hd hk
  · intro descriptor b
    simp only [Watches.addChild, not_mem_nil, not_false_eq_true, and_true]
    have hindex : ∀ m, w.heap b = some m → (m.data.descriptor = descriptor ↔
        w.directories descriptor = some b) := by
      intro m hm
      rw [h.index]
      refine ⟨fun heq => ⟨m, hm, heq, not_mem_nil⟩, ?_⟩
      rintro ⟨m', hm', heq, -⟩
      obtain rfl := Option.some.inj (hm.symm.trans hm')
      exact heq
    constructor
    · intro hb
      rw [update_apply] at hb
      split at hb
      · next heq =>
        obtain rfl := Option.some.inj hb
        exact ⟨_, TreeHeap.addLeaf_leaf, heq.symm⟩
      · obtain ⟨m, hm, heq, -⟩ := (h.index descriptor b).mp hb
        obtain ⟨m', hm', -, hdata, -⟩ := TreeHeap.exists_addLeaf hdirectory h.next_eq_none hm
        exact ⟨m', hm', (congrArg WatchDirectory.descriptor hdata).trans heq⟩
    · rintro ⟨m, hm, heq⟩
      rw [update_apply]
      have hne : ∀ m', w.heap b = some m' → m'.data.descriptor = descriptor →
          (if descriptor = ret then some w.next else w.directories descriptor) = some b := by
        intro m' hm' heq'
        have hb := (hindex m' hm').mp heq'
        rw [if_neg ?_, hb]
        rintro rfl
        rw [hret] at hb
        cases hb
      obtain ⟨rfl, rfl⟩ | ⟨-, rfl, rfl⟩ | ⟨-, -, hm⟩ := TreeHeap.addLeaf_cases hm
      · exact if_pos heq.symm
      · exact hne node hdirectory heq
      · exact hne m hm heq
  · intro b m hb
    obtain ⟨rfl, -⟩ | ⟨-, rfl, -⟩ | ⟨-, -, hb⟩ := TreeHeap.addLeaf_cases hb
    · exact lt_succ_self _
    · exact lt_succ_of_lt (h.lt_next _ _ hdirectory)
    · exact lt_succ_of_lt (h.lt_next _ _ hb)

section Watching

variable {recurse : ℕ → Text → Watches → Except WatchFault Watches} {depth : ℕ}

/-- What is needed of the watches below a directory at `depth`. -/
def Recurses (recurse : ℕ → Text → Watches → Except WatchFault Watches) (maxDepth depth : ℕ) :
    Prop :=
  ∀ child path w, Inv [] w → w.maxDepth = maxDepth → DepthIs w.heap child (depth + 1) →
    (recurse child path w).Succeeds fun w' => Inv [] w' ∧ Grows w w'

section

variable (h : Inv [] w) (hd : DepthIs w.heap directory depth)
include h hd

/-- A new child is entered below the directory. -/
theorem exists_addChild (hdepth : depth < w.maxDepth) {d : ℤ} (hnone : w.directories d = none)
    (name : Text) : ∃ node, w.get directory = .ok node ∧
      Inv [] (w.addChild directory node name d) ∧ Grows w (w.addChild directory node name d) ∧
      DepthIs (w.addChild directory node name d).heap w.next (depth + 1) := by
  obtain ⟨node, hnode⟩ := hd.exists_node
  have hgrows := Grows.addChild h hnode name hnone
  exact ⟨node, get_eq hnode, h.addChild hnode hd hdepth hnone, hgrows,
    .child TreeHeap.addLeaf_leaf rfl (hgrows.depthIs hd)⟩

theorem watchEntry_succeeds (hdepth : depth < w.maxDepth)
    (hrecurse : Recurses recurse w.maxDepth depth) :
    (watchEntry kernel recurse directory pathFs name w).Succeeds fun w' =>
      Inv [] w' ∧ Grows w w' := by
  have htick := (Grows.tick w).trans (Grows.tick w.tick)
  refine .branch (.ok ⟨h, Grows.refl w⟩) ?_
  dsimp only
  split
  · refine .branch (.ok ⟨h.tick.tick, htick⟩) ?_
    split
    · exact .ok ⟨h.tick.tick, htick⟩
    · next hret =>
      obtain ⟨node, hget, hinv, hgrows, hd'⟩ := exists_addChild h.tick.tick hd hdepth hret name
      rw [hget, ok_bind]
      exact (hrecurse _ _ _ hinv rfl hd').mono fun w' hw' =>
        ⟨hw'.1, htick.trans (hgrows.trans hw'.2)⟩
  · exact .ok ⟨h.tick, Grows.tick w⟩

theorem watchEntries_succeeds (hdepth : depth < w.maxDepth) (names : List Text)
    (hrecurse : Recurses recurse w.maxDepth depth) :
    (watchEntries kernel recurse directory pathFs names w).Succeeds fun w' =>
      Inv [] w' ∧ Grows w w' := by
  induction names generalizing w with
  | nil => exact .ok ⟨h, Grows.refl w⟩
  | cons name names ih =>
    refine (watchEntry_succeeds h hd hdepth hrecurse).bind fun w₁ hw₁ => ?_
    have hmax := hw₁.2.maxDepth
    refine (ih hw₁.1 (hw₁.2.depthIs hd) (hmax ▸ hdepth) ?_).mono fun w₂ hw₂ =>
      ⟨hw₂.1, hw₁.2.trans hw₂.2⟩
    rw [hmax]
    exact hrecurse

theorem recursiveWatchSubdirectories_succeeds
    (hdepth : depth ≤ w.maxDepth) {levels : ℕ} (hlevels : w.maxDepth ≤ depth + levels) :
    (recursiveWatchSubdirectories kernel levels depth directory pathFs w).Succeeds fun w' =>
      Inv [] w' ∧ Grows w w' := by
  induction levels generalizing w depth directory pathFs with
  | zero =>
    rw [recursiveWatchSubdirectories, if_neg (not_lt.mpr hdepth), if_pos (lt_succ_of_le hlevels)]
    exact .ok ⟨h, Grows.refl w⟩
  | succ levels ih =>
    rw [recursiveWatchSubdirectories, if_neg (not_lt.mpr hdepth)]
    refine .ite (fun _ => .ok ⟨h, Grows.refl w⟩) fun hlt => ?_
    split
    · exact .ok ⟨h.tick, Grows.tick w⟩
    · next names _ =>
      have hlt : depth < w.maxDepth := lt_of_succ_le (not_lt.mp hlt)
      refine (watchEntries_succeeds h.tick hd hlt names fun child path w₁ h₁ hmax hd₁ => ?_).mono
        fun w' hw' => ⟨hw'.1, (Grows.tick w).trans hw'.2⟩
      have hmax : w₁.maxDepth = w.maxDepth := hmax
      exact ih h₁ hd₁ (by omega) (by omega)

end

end Watching

/-! ### Watching fewer directories -/

/-- When a node and what is below it have been removed, its parent has one child less, and
everything else that is not deeper than the node is as before. -/
structure Shrinks (a p k : ℕ) (w w' : Watches) : Prop where
  gone : w'.heap a = none
  parent : ∀ node, w.heap p = some node →
    w'.heap p = some { node with children := node.children.erase a }
  kept : ∀ b node, w.heap b = some node → (∃ j ≤ k, DepthIs w.heap b j) → b ≠ a → b ≠ p →
    w'.heap b = some node
  next : w'.next = w.next
  maxDepth : w'.maxDepth = w.maxDepth

/-- When what is below a node has been removed, everything else that is not deeper than the node is
as before. -/
structure Clears (a k : ℕ) (w w' : Watches) : Prop where
  cleared : ∀ node, w.heap a = some node → w'.heap a = some { node with children := [] }
  kept : ∀ b node, w.heap b = some node → (∃ j ≤ k, DepthIs w.heap b j) → b ≠ a →
    w'.heap b = some node
  next : w'.next = w.next
  maxDepth : w'.maxDepth = w.maxDepth

theorem Shrinks.depthIs (h : Shrinks a p k w w') (ha : DepthIs w.heap a k) {b j : ℕ}
    (hb : DepthIs w.heap b j) (hj : j ≤ k) (hne : b ≠ a) : DepthIs w'.heap b j := by
  have hkeep : ∀ b node j, w.heap b = some node → DepthIs w.heap b j → j ≤ k → b ≠ a →
      ∃ node', w'.heap b = some node' ∧ node'.parent = node.parent := by
    intro b node j hb hdepth hj hne
    by_cases hp : b = p
    · rw [hp] at hb ⊢
      exact ⟨_, h.parent node hb, rfl⟩
    · exact ⟨node, h.kept b node hb ⟨j, hj, hdepth⟩ hne hp, rfl⟩
  induction hb with
  | root hnode hparent =>
    obtain ⟨node', hnode', hparent'⟩ := hkeep _ _ _ hnode (.root hnode hparent) hj hne
    exact .root hnode' (hparent'.trans hparent)
  | child hnode hparent hup ih =>
    obtain ⟨node', hnode', hparent'⟩ := hkeep _ _ _ hnode (.child hnode hparent hup) hj hne
    refine .child hnode' (hparent'.trans hparent) (ih (le_of_succ_le hj) ?_)
    rintro rfl
    exact absurd (ha.unique hup) (ne_of_gt hj)

section Removing

variable {remove : ℕ → Watches → Except WatchFault Watches} {maxDepth : ℕ}

theorem removeChildren_succeeds (h : Inv (a :: removed) w) (ha : w.heap a = some node)
    (hd : DepthIs w.heap a k) (habove : ∀ b ∈ removed, ∃ j < k, DepthIs w.heap b j)
    (hmax : w.maxDepth = maxDepth) {rounds : ℕ} (hrounds : node.children.length < rounds)
    (hremove : ∀ c nc w₁, Inv (a :: removed) w₁ → w₁.heap c = some nc → nc.parent = some a →
      DepthIs w₁.heap c (k + 1) → c ∉ a :: removed →
      (∀ b ∈ a :: removed, ∃ j < k + 1, DepthIs w₁.heap b j) → w₁.maxDepth = maxDepth →
      (remove c w₁).Succeeds fun w₂ => Inv (a :: removed) w₂ ∧ Shrinks c a (k + 1) w₁ w₂) :
    (removeChildren remove a rounds w).Succeeds fun w' =>
      Inv (a :: removed) w' ∧ Clears a k w w' := by
  induction rounds generalizing w node with
  | zero => exact absurd hrounds (not_lt_zero _)
  | succ rounds ih =>
    rw [removeChildren, get_eq ha, ok_bind]
    cases hchildren : node.children with
    | nil =>
      refine .ok ⟨h, ?_, fun b m hb _ _ => hb, rfl, rfl⟩
      intro m hm
      obtain rfl := Option.some.inj (ha.symm.trans hm)
      rw [ha, ← hchildren]
    | cons c rest =>
      obtain ⟨nc, hc, hparent⟩ := h.linked.parent_eq a node c ha (by rw [hchildren]; simp)
      have hdc : DepthIs w.heap c (k + 1) := .child hc hparent hd
      have hbelow : ∀ b ∈ a :: removed, ∃ j < k + 1, DepthIs w.heap b j := by
        rw [forall_mem_cons]
        refine ⟨⟨k, lt_succ_self k, hd⟩, fun b hb => ?_⟩
        obtain ⟨j, hj, hdb⟩ := habove b hb
        exact ⟨j, lt_succ_of_lt hj, hdb⟩
      have hnotMem : c ∉ a :: removed := by
        intro hmem
        obtain ⟨j, hj, hdb⟩ := hbelow c hmem
        exact absurd (hdc.unique hdb) (ne_of_gt hj)
      refine (hremove c nc w h hc hparent hdc hnotMem hbelow hmax).bind fun w₁ hw₁ => ?_
      obtain ⟨h₁, hshrinks⟩ := hw₁
      have hca : ∀ b j, DepthIs w.heap b j → j < k + 1 → b ≠ c := by
        rintro b j hdb hj rfl
        exact absurd (hdc.unique hdb) (ne_of_gt hj)
      have hkeep : ∀ b j, DepthIs w.heap b j → j < k + 1 → DepthIs w₁.heap b j := fun b j hdb hj =>
        hshrinks.depthIs hdc hdb (le_of_lt hj) (hca b j hdb hj)
      have ha₁ := hshrinks.parent node ha
      rw [hchildren, erase_cons_head] at ha₁
      have hlength : rest.length < rounds := by
        rw [hchildren, length_cons] at hrounds
        exact lt_of_succ_lt_succ hrounds
      refine (ih h₁ ha₁ (hkeep a k hd (lt_succ_self k)) (fun b hb => ?_)
        (hshrinks.maxDepth.trans hmax) hlength).mono fun w₂ hw₂ => ⟨hw₂.1, ?_⟩
      · obtain ⟨j, hj, hdb⟩ := habove b hb
        exact ⟨j, hj, hkeep b j hdb (lt_succ_of_lt hj)⟩
      · obtain ⟨-, hcleared, hkept, hnext, hmax₂⟩ := hw₂
        refine ⟨fun m hm => ?_, fun b m hb hdb hne => ?_, hnext.trans hshrinks.next,
          hmax₂.trans hshrinks.maxDepth⟩
        · obtain rfl := Option.some.inj (ha.symm.trans hm)
          have ha₂ := hcleared _ ha₁
          exact ha₂
        · obtain ⟨j, hj, hdb⟩ := hdb
          have hj' := lt_succ_of_le hj
          refine hkept b m ?_ ⟨j, hj, hkeep b j hdb hj'⟩ hne
          exact hshrinks.kept b m hb ⟨j, le_succ_of_le hj, hdb⟩ (hca b j hdb hj') hne

theorem Inv.treeRemove (h : Inv removed w) (ha : w.heap a = some node) (hnotMem : a ∉ removed) :
    ∃ w', w.treeRemove node.data.descriptor = .ok w' ∧ Inv (a :: removed) w' ∧
      w'.heap = w.heap ∧ w'.next = w.next ∧ w'.maxDepth = w.maxDepth := by
  have hfound : w.directories node.data.descriptor = some a :=
    (h.index _ a).mpr ⟨node, ha, rfl, hnotMem⟩
  refine ⟨{ w with directories := update w.directories node.data.descriptor none },
    by rw [Watches.treeRemove, hfound]; rfl, ⟨h.linked, ?_, h.lt_next⟩, rfl, rfl, rfl⟩
  intro descriptor b
  dsimp only
  rw [update_apply]
  constructor
  · intro hb
    split at hb
    · cases hb
    · next hne =>
      obtain ⟨m, hm, hdescriptor, hb⟩ := (h.index descriptor b).mp hb
      refine ⟨m, hm, hdescriptor, not_mem_cons_of_ne_of_not_mem ?_ hb⟩
      rintro rfl
      obtain rfl := Option.some.inj (ha.symm.trans hm)
      exact hne hdescriptor.symm
  · rintro ⟨m, hm, hdescriptor, hb⟩
    rw [mem_cons, not_or] at hb
    have hindex := (h.index descriptor b).mpr ⟨m, hm, hdescriptor, hb.2⟩
    rw [if_neg ?_, hindex]
    rintro rfl
    exact hb.1 (Option.some.inj (hindex.symm.trans hfound))

theorem Inv.removeLeaf (h : Inv (a :: removed) w) (ha : w.heap a = some node)
    (hparent : node.parent = some p) (hleaf : node.children = []) {np : TreeNode WatchDirectory}
    (hp : w.heap p = some np) :
    Inv removed { w.tick with heap := w.heap.removeLeaf p np a } := by
  constructor
  · exact h.linked.removeLeaf ha hparent hleaf hp
  · intro descriptor b
    refine (h.index descriptor b).trans ?_
    simp only [mem_cons, not_or]
    constructor
    · rintro ⟨m, hm, hdescriptor, hne, hb⟩
      obtain ⟨m', hm', -, hdata, -⟩ := TreeHeap.exists_removeLeaf hp hm hne
      exact ⟨m', hm', (congrArg WatchDirectory.descriptor hdata).trans hdescriptor, hb⟩
    · rintro ⟨m, hm, hdescriptor, hb⟩
      obtain ⟨hne, ⟨rfl, rfl⟩ | ⟨-, hm⟩⟩ := TreeHeap.removeLeaf_cases hm
      · exact ⟨np, hp, hdescriptor, hne, hb⟩
      · exact ⟨m, hm, hdescriptor, hne, hb⟩
  · intro b m hm
    obtain ⟨-, ⟨rfl, rfl⟩ | ⟨-, hm⟩⟩ := TreeHeap.removeLeaf_cases hm
    · exact h.lt_next _ _ hp
    · exact h.lt_next _ _ hm

theorem Inv.length_children_le (h : Inv removed w) (ha : w.heap a = some node) :
    node.children.length ≤ w.next := by
  have hsub : node.children ⊆ range w.next := by
    intro c hc
    obtain ⟨nc, hnc, -⟩ := h.linked.parent_eq a node c ha hc
    exact mem_range.mpr (h.lt_next c nc hnc)
  have hle := (subperm_of_subset (h.linked.nodup a node ha) hsub).length_le
  rwa [length_range] at hle

theorem removeWatchDirectory_succeeds (h : Inv removed w) (ha : w.heap a = some node)
    (hparent : node.parent = some p) (hd : DepthIs w.heap a k) (hnotMem : a ∉ removed)
    (habove : ∀ b ∈ removed, ∃ j < k, DepthIs w.heap b j) {levels : ℕ}
    (hlevels : w.maxDepth < k + levels) :
    (removeWatchDirectory levels a w).Succeeds fun w' => Inv removed w' ∧ Shrinks a p k w w' := by
  induction levels generalizing removed w a node p k with
  | zero =>
    obtain ⟨j, hj, hdj⟩ := h.linked.depth a node ha
    obtain rfl := hd.unique hdj
    exact absurd hlevels (not_lt.mpr hj)
  | succ levels ih =>
    obtain ⟨np, hp, hmem⟩ := h.linked.mem_children a node p ha hparent
    obtain ⟨j, rfl, hdp⟩ := hd.of_parent ha hparent
    obtain ⟨w₁, hremove, h₁, hheap₁, hnext₁, hmax₁⟩ := h.treeRemove ha hnotMem
    have hpa : p ≠ a := by
      rintro rfl
      exact absurd (hdp.unique hd) (Nat.ne_of_lt (Nat.lt_succ_self j))
    rw [removeWatchDirectory, get_eq ha, ok_bind, hparent]
    dsimp only
    rw [get_eq hp, ok_bind, if_neg (ne_nil_of_mem hmem), hremove, ok_bind]
    have hrounds : node.children.length < w₁.next + 1 := by
      rw [hnext₁]
      exact lt_succ_of_le (h.length_children_le ha)
    rw [← hheap₁] at ha hd hp hdp habove
    refine (removeChildren_succeeds h₁ ha hd habove hmax₁ hrounds ?_).bind fun w₂ hw₂ => ?_
    · intro c nc w' h' hc hparent' hdc hc' habove' hmax'
      exact ih h' hc hparent' hdc hc' habove' (by omega)
    · obtain ⟨h₂, hcleared, hkept, hnext₂, hmax₂⟩ := hw₂
      have ha₂ := hcleared node ha
      have hp₂ := hkept p np hp ⟨j, le_succ j, hdp⟩ hpa
      rw [get_eq hp₂, ok_bind, get_eq ha₂, ok_bind]
      refine .ok ⟨h₂.removeLeaf ha₂ hparent rfl hp₂, TreeHeap.removeLeaf_leaf, ?_, ?_,
        hnext₂.trans hnext₁, hmax₂.trans hmax₁⟩
      · intro m hm
        rw [← hheap₁] at hm
        obtain rfl := Option.some.inj (hp.symm.trans hm)
        exact TreeHeap.removeLeaf_parent hpa
      · intro b m hb hdb hne hnp
        rw [← hheap₁] at hb hdb
        exact (TreeHeap.removeLeaf_of_ne hne hnp).trans (hkept b m hb hdb hne)

end Removing

/-! ### Events -/

theorem Inv.remove (h : Inv [] w) (ha : w.heap a = some node) :
    (removeWatchDirectory (w.maxDepth + 1) a w).Succeeds (Inv []) := by
  cases hparent : node.parent with
  | none =>
    rw [removeWatchDirectory, get_eq ha, ok_bind, hparent]
    exact .ok h
  | some p =>
    obtain ⟨k, -, hd⟩ := h.linked.depth a node ha
    exact (removeWatchDirectory_succeeds h ha hparent hd not_mem_nil
      (fun _ hb => nomatch hb) (by omega)).mono fun w' hw' => hw'.1

theorem Inv.enqueue (h : Inv [] w) (queue : List Text) : Inv [] { w with queue := queue } :=
  ⟨h.linked, h.index, h.lt_next⟩

theorem Inv.handleEvent (h : Inv [] w) (hnode : w.heap directory = some node) (kernel : Kernel)
    (toUtf8 : Text → Text) (mask : Mask) (uriFs : Option Text) (pathFs : Text)
    (newDirectory : Bool) :
    (handleEvent kernel toUtf8 mask directory uriFs pathFs newDirectory w).Succeeds (Inv []) := by
  obtain ⟨k, hk, hd⟩ := h.linked.depth directory node hnode
  refine .branch (h.remove hnode) ?_
  rw [watchDirectoryDepth_eq hd (lt_succ_of_le hk), ok_bind]
  refine .bind (P := Inv []) ?_ fun w' h' => ?_
  · refine .branch ?_ <| .ok h
    exact (recursiveWatchSubdirectories_succeeds h hd hk (le_add_left _ _)).mono fun w' hw' => hw'.1
  · exact .branch (.ok (h'.enqueue _)) <| .ok h'

theorem Inv.callback (h : Inv [] w) (kernel : Kernel) (root : Text) (toUtf8 : Text → Text)
    (event : Event) : (callback kernel root toUtf8 event w).Succeeds (Inv []) := by
  rw [Watches.callback]
  cases hdirectory : w.directories event.wd with
  | none => exact .ok h
  | some directory =>
    obtain ⟨node, hnode, -⟩ := (h.index _ _).mp hdirectory
    obtain ⟨k, hk, hd⟩ := h.linked.depth directory node hnode
    obtain ⟨uriFs, huriFs⟩ := getUriFs_succeeds hd (lt_succ_of_le hk)
    dsimp only
    rw [huriFs, ok_bind]
    exact .branch (h.tick.handleEvent hnode ..) <| h.handleEvent hnode ..

theorem Inv.root (root : Text) (descriptor : ℤ) (maxDepth : ℕ) : Inv []
      { heap := update (fun _ => none) 0 (some ⟨none, [], ⟨root, descriptor⟩⟩)
        next := 1
        directories := update (fun _ => none) descriptor (some 0)
        maxDepth := maxDepth
        calls := 1
        queue := [] } := by
  have hroot : ∀ (a : ℕ) (node : TreeNode WatchDirectory),
      update (fun _ => none) 0 (some ⟨none, [], ⟨root, descriptor⟩⟩) a = some node ↔
        a = 0 ∧ node = ⟨none, [], ⟨root, descriptor⟩⟩ := by
    intro a node
    rw [update_apply]
    split
    · next ha => simp [ha, eq_comm]
    · next ha => simp [ha]
  constructor
  · constructor
    · exact ⟨_, (hroot _ _).mpr ⟨rfl, rfl⟩, rfl⟩
    · intro a node ha _
      exact ((hroot a node).mp ha).1
    · intro a node p ha hp
      obtain ⟨rfl, rfl⟩ := (hroot a node).mp ha
      cases hp
    · intro a node c ha hc
      obtain ⟨rfl, rfl⟩ := (hroot a node).mp ha
      cases hc
    · intro a node ha
      obtain ⟨rfl, rfl⟩ := (hroot a node).mp ha
      exact .nil
    · intro a node ha
      obtain ⟨rfl, rfl⟩ := (hroot a node).mp ha
      exact ⟨0, zero_le _, .root ha rfl⟩
  · intro d a
    simp only [hroot, not_mem_nil, not_false_eq_true, and_true]
    rw [update_apply]
    constructor
    · intro ha
      split at ha
      · next heq =>
        obtain rfl := Option.some.inj ha
        exact ⟨_, ⟨rfl, rfl⟩, heq.symm⟩
      · cases ha
    · rintro ⟨node, ⟨rfl, rfl⟩, rfl⟩
      exact if_pos rfl
  · intro a node ha
    obtain ⟨rfl, -⟩ := (hroot a node).mp ha
    exact Nat.one_pos

theorem init_succeeds (kernel : Kernel) (root : Text) (toUtf8 : Text → Text) (maxDepth : ℕ) :
    (init kernel root maxDepth).Succeeds fun r => ∀ w₀, r = some w₀ →
      ∀ w, Reaches (callback kernel root toUtf8) (fun _ _ => True) w₀ w → Inv [] w := by
  refine .branch (.ok fun _ hr => nomatch hr) ?_
  have hroot := Inv.root root (kernel.addWatch 0 root) maxDepth
  have hd : DepthIs (update (fun _ => none) 0
      (some ⟨none, [], ⟨root, kernel.addWatch 0 root⟩⟩) : TreeHeap WatchDirectory) 0 0 :=
    .root (update_self ..) rfl
  refine (recursiveWatchSubdirectories_succeeds hroot hd (zero_le _)
    (Nat.le_of_eq (Nat.zero_add _).symm)).bind fun w₁ hw₁ => ?_
  rw [succeeds_ok]
  rintro w₀ ⟨⟩ w hreaches
  exact hreaches.invariant hw₁.1 fun event w _ hw => (hw.callback kernel root toUtf8 event).yields

/-- **The watches stay consistent** from `mpd_inotify_init` on, whatever the kernel answers and
whatever events it reports, and no assertion fails. -/
theorem watches_consistent (kernel : Kernel) (root : Text) (toUtf8 : Text → Text) (maxDepth : ℕ) :
    (init kernel root maxDepth).Succeeds fun r => ∀ w₀, r = some w₀ →
      ∀ w, Reaches (callback kernel root toUtf8) (fun _ _ => True) w₀ w →
        Consistent w ∧ ∀ event, (callback kernel root toUtf8 event w).Succeeds Consistent := by
  refine (init_succeeds kernel root toUtf8 maxDepth).mono fun r hr w₀ hw₀ w hreaches => ?_
  have hw := hr w₀ hw₀ w hreaches
  exact ⟨hw.consistent, fun event =>
    (hw.callback kernel root toUtf8 event).mono fun w' hw' => hw'.consistent⟩

end Watches

end Inotify

end Mpd
