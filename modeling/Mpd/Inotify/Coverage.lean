import Mpd.Inotify.Watch

/-!
# What is watched after an event

`mpd_inotify_callback` looks for a new directory if an event reports that something was created or
has other attributes, and registers the directories below the one that the event is about. A
directory that is watched already is passed over, with everything below it. An event that reports
that something was moved is meant to be treated in the same way, as the mask shows that is tested
before the directories are registered, but no new directory is looked for then.

Here the file system stays as it is and the system calls succeed. `callback_covers` says what is
watched afterwards.
-/

namespace Mpd

open List

namespace Inotify

open TreeHeap (DepthIs)

/-- A file system that stays as it is, seen through paths. -/
structure StaticFiles where
  names : Text → List Text
  isDirectory : Text → Bool
  /-- the watch descriptor of what a path leads to -/
  descriptor : Text → ℤ
  descriptor_nonneg : ∀ path, 0 ≤ descriptor path

def StaticFiles.kernel (fs : StaticFiles) : Kernel where
  readdir _ path := some (fs.names path)
  stat _ path := some (fs.isDirectory path)
  addWatch _ path := fs.descriptor path

namespace StaticFiles

variable {fs : StaticFiles} {path name : Text} {l l₁ l₂ : List Text}

def descend (path : Text) (l : List Text) : Text :=
  l.foldl (fun path name => path ++ '/' :: name) path

/-- A way down through directories that are not skipped. -/
def Chain (fs : StaticFiles) : Text → List Text → Prop
  | _, [] => True
  | path, name :: l =>
    (name ∈ fs.names path ∧ Watches.skipPath name = false ∧
      fs.isDirectory (path ++ '/' :: name) = true) ∧ Chain fs (path ++ '/' :: name) l

/-- No directory is reached in two ways. -/
def NoAlias (fs : StaticFiles) (path : Text) (levels : ℕ) : Prop :=
  ∀ l l', fs.Chain path l → fs.Chain path l' → l.length ≤ levels → l'.length ≤ levels → l ≠ [] →
    l' ≠ [] → fs.descriptor (descend path l) = fs.descriptor (descend path l') → l = l'

/-- What is above was not watched before. -/
def Unwatched (fs : StaticFiles) (w : Watches) (path : Text) (l : List Text) : Prop :=
  ∀ l₁ l₂, l = l₁ ++ l₂ → l₁ ≠ [] → l₂ ≠ [] →
    w.directories (fs.descriptor (descend path l₁)) = none

theorem Chain.of_append : ∀ {path : Text} {l₁ l₂ : List Text}, fs.Chain path (l₁ ++ l₂) →
    fs.Chain path l₁
  | _, [], _, _ => trivial
  | _, _ :: _, _, h => ⟨h.1, h.2.of_append⟩

theorem NoAlias.child {levels : ℕ} (h : fs.NoAlias path (levels + 1))
    (hname : fs.Chain path [name]) : fs.NoAlias (path ++ '/' :: name) levels := by
  intro l l' hl hl' hlength hlength' _ _ heq
  have hcons := h (name :: l) (name :: l') ⟨hname.1, hl⟩ ⟨hname.1, hl'⟩ (Nat.succ_le_succ hlength)
    (Nat.succ_le_succ hlength') (cons_ne_nil _ _) (cons_ne_nil _ _) heq
  exact (cons.inj hcons).2

end StaticFiles

namespace Watches

open StaticFiles

variable {fs : StaticFiles} {w w' : Watches} {directory depth levels : ℕ} {pathFs name : Text}

/-- What is watched below a directory afterwards: everything that is new is below it, along names
from a list, and everything below it that is reached through directories that were not watched is
watched. -/
structure Covers (fs : StaticFiles) (heads : List Text) (pathFs : Text) (depth : ℕ)
    (w w' : Watches) : Prop where
  inv : Inv [] w'
  grows : Grows w w'
  below : ∀ d, w.directories d = none → w'.directories d ≠ none →
    ∃ name l, name ∈ heads ∧ fs.Chain pathFs (name :: l) ∧ depth + l.length < w.maxDepth ∧
      d = fs.descriptor (descend pathFs (name :: l))
  covers : ∀ name l, name ∈ heads → fs.Chain pathFs (name :: l) → depth + l.length < w.maxDepth →
    fs.Unwatched w pathFs (name :: l) →
      w'.directories (fs.descriptor (descend pathFs (name :: l))) ≠ none

theorem Covers.of_same {heads : List Text} (h : Inv [] w') (hgrows : Grows w w')
    (hsame : w'.directories = w.directories)
    (hcovers : ∀ name l, name ∈ heads → fs.Chain pathFs (name :: l) →
      depth + l.length < w.maxDepth → fs.Unwatched w pathFs (name :: l) →
        w.directories (fs.descriptor (descend pathFs (name :: l))) ≠ none) :
    Covers fs heads pathFs depth w w' where
  inv := h
  grows := hgrows
  below d hnone hsome := absurd (hsame ▸ hnone) hsome
  covers := by
    rw [hsame]
    exact hcovers

theorem Grows.ne_none (h : Grows w w') {d : ℤ} (hd : w.directories d ≠ none) :
    w'.directories d ≠ none := by
  obtain ⟨a, ha⟩ := Option.ne_none_iff_exists'.mp hd
  rw [h.watched d a ha]
  exact Option.some_ne_none a

theorem addChild_watches (w : Watches) (directory : ℕ) (node : TreeNode WatchDirectory)
    (name : Text) (d : ℤ) : (w.addChild directory node name d).directories d ≠ none := by
  dsimp only [addChild]
  rw [Function.update_self]
  exact Option.some_ne_none _

/-- What is covered below a new child is covered below the directory. -/
theorem Covers.addChild {node : TreeNode WatchDirectory}
    (h : Covers fs (fs.names (pathFs ++ '/' :: name)) (pathFs ++ '/' :: name) (depth + 1)
      (w.addChild directory node name (fs.descriptor (pathFs ++ '/' :: name))) w')
    (hgrows : Grows w w') (hchain : fs.Chain pathFs [name])
    (hlevels : depth + (levels + 1) = w.maxDepth) (halias : fs.NoAlias pathFs (levels + 1)) :
    Covers fs [name] pathFs depth w w' := by
  refine ⟨h.inv, hgrows, ?_, ?_⟩
  · intro d hnone hsome
    by_cases hself : d = fs.descriptor (pathFs ++ '/' :: name)
    · exact ⟨name, [], mem_singleton_self _, hchain, by rw [length_nil]; omega, hself⟩
    · have hnone' : (w.addChild directory node name
          (fs.descriptor (pathFs ++ '/' :: name))).directories d = none :=
        (Function.update_of_ne hself _ _).trans hnone
      obtain ⟨next, l, -, hl, hlength, heq⟩ := h.below d hnone' hsome
      refine ⟨name, next :: l, mem_singleton_self _, ⟨hchain.1, hl⟩, ?_, heq⟩
      have hlength : depth + 1 + l.length < w.maxDepth := hlength
      rw [length_cons]
      omega
  · intro name' l hname' hl hlength hunwatched
    obtain rfl := mem_singleton.mp hname'
    cases l with
    | nil => exact h.grows.ne_none (addChild_watches _ _ _ _ _)
    | cons next l =>
      rw [length_cons] at hlength
      have hlength' : depth + 1 + l.length < w.maxDepth := by omega
      refine h.covers next l hl.2.1.1 hl.2 hlength' fun l₁ l₂ hsplit hl₁ hl₂ => ?_
      have hnone :=
        hunwatched (name' :: l₁) l₂ (by rw [hsplit]; rfl) (cons_ne_nil _ _) hl₂
      refine (Function.update_of_ne ?_ _ _).trans hnone
      -- no directory further down is the new one
      intro heq
      rw [hsplit] at hl
      have hlen := congrArg length hsplit
      rw [length_cons, length_append] at hlen
      have hsame := halias (name' :: l₁) [name'] hl.of_append hchain
        (by rw [length_cons]; omega) (by rw [length_singleton]; omega)
        (cons_ne_nil _ _) (cons_ne_nil _ _) heq
      exact hl₁ (cons.inj hsame).2

/-! ### Registering what is below a directory -/

section Watching

variable {recurse : ℕ → Text → Watches → Except WatchFault Watches} (h : Inv [] w)
  (hd : DepthIs w.heap directory depth)
include h hd

theorem watchEntry_watches (hdepth : depth < w.maxDepth) (hchain : fs.Chain pathFs [name])
    (hrecurse : Recurses recurse w.maxDepth depth) :
    (watchEntry fs.kernel recurse directory pathFs name w).Succeeds fun w' =>
      w'.directories (fs.descriptor (pathFs ++ '/' :: name)) ≠ none := by
  obtain ⟨⟨-, hskip, hdirectory⟩, -⟩ := hchain
  rw [watchEntry, if_neg (by rw [hskip]; exact Bool.false_ne_true)]
  dsimp only [StaticFiles.kernel]
  rw [hdirectory]
  rw [if_neg (Int.not_lt.mpr (fs.descriptor_nonneg _))]
  cases hret : w.tick.tick.directories (fs.descriptor (pathFs ++ '/' :: name)) with
  | some a =>
    rw [Except.succeeds_ok, hret]
    exact Option.some_ne_none a
  | none =>
    obtain ⟨node, hget, hinv, -, hd'⟩ := exists_addChild h.tick.tick hd hdepth hret name
    rw [hget, Except.ok_bind]
    exact (hrecurse _ _ _ hinv rfl hd').mono fun w' hw' =>
      hw'.2.ne_none (addChild_watches _ _ _ _ _)

theorem watchEntries_watches
    (hdepth : depth < w.maxDepth) {names : List Text} (hname : name ∈ names)
    (hchain : fs.Chain pathFs [name])
    (hrecurse : Recurses recurse w.maxDepth depth) :
    (watchEntries fs.kernel recurse directory pathFs names w).Succeeds fun w' =>
      w'.directories (fs.descriptor (pathFs ++ '/' :: name)) ≠ none := by
  induction names generalizing w with
  | nil => cases hname
  | cons first names ih =>
    have hfirst : (watchEntry fs.kernel recurse directory pathFs first w).Yields fun w' =>
        first = name → w'.directories (fs.descriptor (pathFs ++ '/' :: name)) ≠ none := by
      intro w₁ hw₁ heq
      rw [heq] at hw₁
      exact (watchEntry_watches h hd hdepth hchain hrecurse).yields w₁ hw₁
    refine ((watchEntry_succeeds h hd hdepth hrecurse).and_yields hfirst).bind ?_
    · rintro w₁ ⟨⟨h₁, hgrows⟩, hwatched⟩
      have hmax := hgrows.maxDepth
      have hrecurse₁ := hrecurse
      rw [← hmax] at hrecurse₁ hdepth
      by_cases hfirst : first = name
      · exact (watchEntries_succeeds h₁ (hgrows.depthIs hd) hdepth names hrecurse₁).mono
          fun w₂ hw₂ => hw₂.2.ne_none (hwatched hfirst)
      · exact ih h₁ (hgrows.depthIs hd) hdepth
          ((mem_cons.mp hname).resolve_left (Ne.symm hfirst)) hrecurse₁

theorem recursiveWatchSubdirectories_watches
    (hdepth : depth < w.maxDepth) (hlevels : w.maxDepth ≤ depth + levels)
    (hchain : fs.Chain pathFs [name]) :
    (recursiveWatchSubdirectories fs.kernel levels depth directory pathFs w).Succeeds fun w' =>
      w'.directories (fs.descriptor (pathFs ++ '/' :: name)) ≠ none := by
  obtain ⟨levels, rfl⟩ : ∃ n, levels = n + 1 := ⟨levels - 1, by omega⟩
  rw [recursiveWatchSubdirectories, if_neg (by omega), if_neg (by omega)]
  refine watchEntries_watches h.tick hd hdepth hchain.1.1 hchain fun child path w₁ h₁ hmax hd₁ => ?_
  have hmax : w₁.maxDepth = w.maxDepth := hmax
  exact recursiveWatchSubdirectories_succeeds h₁ hd₁ (by omega) (by omega)

section

variable (hlevels : depth + (levels + 1) = w.maxDepth) (halias : fs.NoAlias pathFs (levels + 1))
  (hrecurse : ∀ child path w₁, Inv [] w₁ → w₁.maxDepth = w.maxDepth →
    DepthIs w₁.heap child (depth + 1) → fs.NoAlias path levels →
    (recurse child path w₁).Succeeds (Covers fs (fs.names path) path (depth + 1) w₁))
include hlevels halias hrecurse

theorem watchEntry_covers
    (hname : name ∈ fs.names pathFs) :
    (watchEntry fs.kernel recurse directory pathFs name w).Succeeds
      (Covers fs [name] pathFs depth w) := by
  have htick := (Grows.tick w).trans (Grows.tick w.tick)
  refine .ite (fun hskip => .ok ?_) fun hskip => ?_
  · refine .of_same h (Grows.refl w) rfl fun name' l hname' hchain => ?_
    obtain rfl := mem_singleton.mp hname'
    rw [hchain.1.2.1] at hskip
    cases hskip
  · dsimp only [StaticFiles.kernel]
    cases hdirectory : fs.isDirectory (pathFs ++ '/' :: name) with
    | false =>
      refine .ok (.of_same h.tick (Grows.tick w) rfl ?_)
      intro name' l hname' hchain
      obtain rfl := mem_singleton.mp hname'
      rw [hchain.1.2.2] at hdirectory
      cases hdirectory
    | true =>
      have hchain : fs.Chain pathFs [name] := ⟨⟨hname, by simpa using hskip, hdirectory⟩, trivial⟩
      rw [if_neg (Int.not_lt.mpr (fs.descriptor_nonneg _))]
      cases hret : w.tick.tick.directories (fs.descriptor (pathFs ++ '/' :: name)) with
      | some a =>
        refine .ok (.of_same h.tick.tick htick rfl ?_)
        intro name' l hname' _ _ hunwatched
        obtain rfl := mem_singleton.mp hname'
        have hwatched : w.directories (fs.descriptor (descend pathFs [name'])) = some a := hret
        cases l with
        | nil =>
          rw [hwatched]
          exact Option.some_ne_none a
        | cons next l =>
          have hnone := hunwatched [name'] (next :: l) rfl (cons_ne_nil _ _) (cons_ne_nil _ _)
          rw [hwatched] at hnone
          cases hnone
      | none =>
        have hlt : depth < w.maxDepth := by omega
        obtain ⟨node, hget, hinv, hgrows, hd'⟩ := exists_addChild h.tick.tick hd hlt hret name
        rw [hget, Except.ok_bind]
        refine (hrecurse _ _ _ hinv rfl hd' (halias.child hchain)).mono fun w' hw' => ?_
        have hcovers := hw'.addChild (hgrows.trans hw'.grows) hchain hlevels halias
        exact ⟨hcovers.inv, htick.trans hcovers.grows, hcovers.below, hcovers.covers⟩

theorem watchEntries_covers
    {heads : List Text} (hheads : ∀ name ∈ heads, name ∈ fs.names pathFs) :
    (watchEntries fs.kernel recurse directory pathFs heads w).Succeeds
      (Covers fs heads pathFs depth w) := by
  induction heads generalizing w with
  | nil =>
    exact .ok (.of_same h (Grows.refl w) rfl fun _ _ hname => nomatch hname)
  | cons name heads ih =>
    rw [forall_mem_cons] at hheads
    refine (watchEntry_covers h hd hlevels halias hrecurse hheads.1).bind fun w₁ hw₁ => ?_
    have hmax := hw₁.grows.maxDepth
    refine (ih hw₁.inv (hw₁.grows.depthIs hd) (hlevels.trans hmax.symm) ?_ hheads.2).mono
      fun w₂ hw₂ => ⟨hw₂.inv, hw₁.grows.trans hw₂.grows, ?_, ?_⟩
    · rw [hmax]
      exact hrecurse
    · intro d hnone hsome
      by_cases hnew : w₁.directories d = none
      · obtain ⟨name', l, hname', hl, hlength, heq⟩ := hw₂.below d hnew hsome
        exact ⟨name', l, mem_cons_of_mem _ hname', hl, hmax ▸ hlength, heq⟩
      · obtain ⟨name', l, hname', hrest⟩ := hw₁.below d hnone hnew
        exact ⟨name', l, mem_cons.mpr (.inl (mem_singleton.mp hname')), hrest⟩
    · intro name' l hname' hl hlength hunwatched
      by_cases hne : name' = name
      · exact hw₂.grows.ne_none (hw₁.covers name' l (mem_singleton.mpr hne) hl hlength hunwatched)
      · have hname' := (mem_cons.mp hname').resolve_left hne
        refine hw₂.covers name' l hname' hl (hmax.symm ▸ hlength) fun l₁ l₂ hsplit hl₁ hl₂ => ?_
        -- what is new is below another entry
        by_contra hsome
        obtain ⟨first, l', hfirst, hl', hlength', heq⟩ :=
          hw₁.below _ (hunwatched l₁ l₂ hsplit hl₁ hl₂) hsome
        have hlen := congrArg length hsplit
        rw [length_cons, length_append] at hlen
        rw [hsplit] at hl
        have hsame := halias l₁ (first :: l') hl.of_append hl' (by omega)
          (by rw [length_cons]; omega) hl₁ (cons_ne_nil _ _) heq
        rw [hsame, cons_append, cons.injEq] at hsplit
        exact hne (hsplit.1.trans (mem_singleton.mp hfirst))

end

theorem recursiveWatchSubdirectories_covers
    {rest : ℕ} (hrest : depth + rest = w.maxDepth) (hlevels : rest ≤ levels)
    (halias : fs.NoAlias pathFs rest) :
    (recursiveWatchSubdirectories fs.kernel levels depth directory pathFs w).Succeeds
      (Covers fs (fs.names pathFs) pathFs depth w) := by
  induction rest generalizing w depth directory pathFs levels with
  | zero =>
    rw [recursiveWatchSubdirectories.eq_def]
    dsimp only
    rw [if_neg (by omega), if_pos (by omega)]
    refine .ok (.of_same h (Grows.refl w) rfl fun _ l _ _ hlength => ?_)
    omega
  | succ rest ih =>
    obtain ⟨levels, rfl⟩ : ∃ n, levels = n + 1 := ⟨levels - 1, by omega⟩
    rw [recursiveWatchSubdirectories, if_neg (by omega), if_neg (by omega)]
    refine (watchEntries_covers h.tick hd hrest halias ?_ fun _ hname => hname).mono
      fun w' hw' => ⟨hw'.inv, (Grows.tick w).trans hw'.grows, hw'.below, hw'.covers⟩
    intro child path w₁ h₁ hmax hd₁ halias₁
    have hmax : w₁.maxDepth = w.maxDepth := hmax
    exact ih h₁ hd₁ (by omega) (by omega) halias₁

end Watching

/-! ### Events -/

theorem handleEvent_covers (h : Inv [] w) (hd : DepthIs w.heap directory depth)
    (hlt : depth < w.maxDepth) {mask : Mask} (hmask : mask.attrib = true ∨ mask.create = true)
    (hself : mask.deleteSelf = false ∧ mask.moveSelf = false) (hname : fs.Chain pathFs [name])
    (toUtf8 : Text → Text) (uriFs : Option Text) :
    (handleEvent fs.kernel toUtf8 mask directory uriFs pathFs true w).Succeeds fun w' =>
      w'.directories (fs.descriptor (descend pathFs [name])) ≠ none ∧
        (fs.NoAlias pathFs (w.maxDepth - depth) →
          ∀ l, fs.Chain pathFs (name :: l) → depth + l.length < w.maxDepth →
            fs.Unwatched w pathFs (name :: l) →
            w'.directories (fs.descriptor (descend pathFs (name :: l))) ≠ none) := by
  have hlooks : ((mask.attrib || mask.create || mask.move) && true) = true := by
    rw [Bool.and_true, Bool.or_eq_true, Bool.or_eq_true]
    exact .inl hmask
  rw [handleEvent, hself.1, hself.2, if_neg (by decide),
    watchDirectoryDepth_eq hd (Nat.lt_succ_of_lt hlt), Except.ok_bind, if_pos hlooks]
  have hcovers : (recursiveWatchSubdirectories fs.kernel w.maxDepth depth directory pathFs w).Yields
      fun w' => fs.NoAlias pathFs (w.maxDepth - depth) →
        Covers fs (fs.names pathFs) pathFs depth w w' := fun w' hw' halias =>
    (recursiveWatchSubdirectories_covers h hd (Nat.add_sub_cancel' hlt.le) (Nat.sub_le _ _)
      halias).yields w' hw'
  refine ((recursiveWatchSubdirectories_watches h hd hlt (Nat.le_add_left _ _) hname).and_yields
    hcovers).bind fun w' hw' => ?_
  have hresult := And.intro hw'.1 fun halias l hl hlength hunwatched =>
    (hw'.2 halias).covers name l hname.1.1 hl hlength hunwatched
  exact .branch (.ok hresult) <| .ok hresult

/-- **A subdirectory that was created, or whose attributes have changed, is watched** afterwards,
and so is what is below it, as far as it is reached through directories that were not watched
before, if no directory is reached through two paths. -/
theorem callback_covers {kernel : Kernel} {root : Text} {toUtf8 : Text → Text} {maxDepth : ℕ}
    {w₀ : Watches} (hinit : init kernel root maxDepth = .ok (some w₀))
    (hreaches : Reaches (callback kernel root toUtf8) (fun _ _ => True) w₀ w)
    {wd : ℤ} {mask : Mask} {uriFs : Option Text}
    (hdirectory : w.directories wd = some directory)
    (huriFs : getUriFs (w.maxDepth + 1) directory w = .ok uriFs)
    (hdepth : watchDirectoryDepth (w.maxDepth + 1) directory w = .ok depth)
    (hlt : depth < w.maxDepth) (hmask : mask.attrib = true ∨ mask.create = true)
    (hself : mask.deleteSelf = false ∧ mask.moveSelf = false)
    (hname : fs.Chain (directoryPath root uriFs) [name]) :
    (callback fs.kernel root toUtf8 ⟨wd, mask, some name⟩ w).Succeeds fun w' =>
      w'.directories (fs.descriptor (descend (directoryPath root uriFs) [name])) ≠ none ∧
        (fs.NoAlias (directoryPath root uriFs) (w.maxDepth - depth) →
          ∀ l, fs.Chain (directoryPath root uriFs) (name :: l) → depth + l.length < w.maxDepth →
            fs.Unwatched w (directoryPath root uriFs) (name :: l) →
            w'.directories (fs.descriptor (descend (directoryPath root uriFs) (name :: l))) ≠
              none) := by
  have h : Inv [] w := by
    obtain ⟨r, hr, hinv⟩ := init_succeeds kernel root toUtf8 maxDepth
    rw [hinit] at hr
    exact hinv w₀ (Except.ok.inj hr).symm w hreaches
  obtain ⟨node, hnode, -⟩ := (h.index _ _).mp hdirectory
  obtain ⟨k, hk, hd⟩ := h.linked.depth directory node hnode
  rw [watchDirectoryDepth_eq hd (Nat.lt_succ_of_le hk), Except.ok.injEq] at hdepth
  rw [hdepth] at hd
  have hlooks : (mask.attrib || mask.create) = true := Bool.or_eq_true _ _ ▸ hmask
  have hnew : fs.kernel.stat w.calls (entryPath (directoryPath root uriFs) (some name)) =
      some true := congrArg some hname.1.2.2
  rw [callback, hdirectory]
  dsimp only
  rw [huriFs, Except.ok_bind, if_pos hlooks, decide_eq_true hnew]
  exact handleEvent_covers h.tick hd hlt hmask hself hname toUtf8 uriFs

def nested : StaticFiles where
  names path :=
    if path = ['/'] then [['a']] else if path = ['/', '/', 'a'] then [['b']] else []
  isDirectory _ := true
  descriptor path := path.length
  descriptor_nonneg _ := Int.natCast_nonneg _

def rootOnly : Watches where
  heap := Function.update (fun _ => none) 0 (some ⟨none, [], ⟨['/'], 1⟩⟩)
  next := 1
  directories := Function.update (fun _ => none) 1 (some 0)
  maxDepth := 2
  calls := 2
  queue := []

theorem chain_nested {l : List Text} (h : nested.Chain ['/'] l) :
    l = [] ∨ l = [['a']] ∨ l = [['a'], ['b']] := by
  match l, h with
  | [], _ => exact .inl rfl
  | [name], h =>
    obtain rfl : name = ['a'] := mem_singleton.mp h.1.1
    exact .inr (.inl rfl)
  | [name, name'], h =>
    obtain rfl : name = ['a'] := mem_singleton.mp h.1.1
    obtain rfl : name' = ['b'] := mem_singleton.mp h.2.1.1
    exact .inr (.inr rfl)
  | name :: name' :: name'' :: _, h =>
    obtain rfl : name = ['a'] := mem_singleton.mp h.1.1
    exact absurd h.2.2.1.1 (not_mem_nil)

theorem noAlias_nested (levels : ℕ) : nested.NoAlias ['/'] levels := by
  intro l l' hl hl' _ _ hne hne' heq
  obtain rfl | rfl | rfl := chain_nested hl <;> obtain rfl | rfl | rfl := chain_nested hl' <;>
    first | rfl | exact absurd rfl hne | exact absurd rfl hne' | exact absurd heq (by decide)

theorem callback_covers_nested :
    (callback nested.kernel ['/'] id ⟨1, { create := true }, some ['a']⟩ rootOnly).Succeeds
      fun w' => w'.directories 3 ≠ none ∧ w'.directories 5 ≠ none := by
  have hinit : init ⟨fun _ _ => some [], fun _ _ => none, fun _ _ => 1⟩ ['/'] 2 =
      .ok (some rootOnly) := rfl
  have hdirectory : rootOnly.directories 1 = some 0 := rfl
  have hchain : nested.Chain ['/'] [['a'], ['b']] :=
    ⟨⟨by decide, by decide, rfl⟩, ⟨by decide, by decide, rfl⟩, trivial⟩
  have hname : nested.Chain (directoryPath ['/'] none) [['a']] := ⟨hchain.1, trivial⟩
  have hcreate : ({ create := true } : Mask).create = true := rfl
  refine (callback_covers hinit .refl hdirectory rfl rfl Nat.two_pos (.inr hcreate) ⟨rfl, rfl⟩
    hname).mono fun w' hw' =>
      ⟨hw'.1, hw'.2 (noAlias_nested 2) [['b']] hchain Nat.one_lt_two fun l₁ l₂ hsplit hl₁ hl₂ => ?_⟩
  match l₁, hsplit with
  | [], _ => exact absurd rfl hl₁
  | [_], hsplit =>
    rfl
  | _ :: _ :: l₁, hsplit =>
    obtain ⟨-, htail⟩ := cons.inj hsplit
    obtain ⟨-, hnil⟩ := cons.inj htail
    exact absurd (append_eq_nil_iff.mp hnil.symm).2 hl₂

/-- A directory that is reached through `pp/q`, at the last level, and through `d`. -/
def aliased : StaticFiles where
  names path :=
    if path = ['/'] then [['p', 'p'], ['d'], replicate 5 '\n']
    else if path.length = 4 then [['q']] else if path.length = 3 then [['e']] else []
  isDirectory _ := true
  descriptor path := if path.length = 6 then 3 else path.length
  descriptor_nonneg path := by split <;> omega

/-- Nothing is registered for a move, below a directory that is watched, below one that was reached
through another path, and for a name with a newline. -/
theorem not_callback_covers :
    (callback nested.kernel ['/'] id ⟨1, { movedTo := true, isDir := true }, some ['a']⟩
      rootOnly).Succeeds (fun w' => w'.directories 3 = none) ∧
    ((init ⟨fun _ path => if path = ['/'] then some [['a']] else none, fun _ _ => some true,
      fun _ path => path.length⟩ ['/'] 2).Succeeds fun r => (r.any fun w =>
        decide ((callback nested.kernel ['/'] id ⟨1, { attrib := true, isDir := true },
          some ['a']⟩ w).Succeeds fun w' => w'.directories 3 ≠ none ∧ w'.directories 5 = none)) =
            true) ∧
    (callback aliased.kernel ['/'] id ⟨1, { create := true, isDir := true }, some ['d']⟩
      rootOnly).Succeeds (fun w' => w'.directories 3 ≠ none ∧ w'.directories 5 = none) ∧
    (callback aliased.kernel ['/'] id ⟨1, { create := true, isDir := true },
      some (replicate 5 '\n')⟩ rootOnly).Succeeds fun w' => w'.directories 7 = none := by
  decide

end Watches

end Inotify

end Mpd
