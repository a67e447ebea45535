import Mathlib.Data.List.Perm.Subperm
import Mpd.Update.Walk

/-!
# The walk ends

Symbolic links can make a directory appear below itself, so that the directories below the music
directory are infinitely many. `find_inode_ancestor` compares the identity of a directory with those
of all directories above the one that it is in. Some of these are known from an earlier walk, but
those that are being walked are known from this one (`OnStack`), and what is known of a directory is
not forgotten (`Keeps`). So no directory is entered that is being walked, and the recursion is not
deeper than there are directories in the file system (`updateWalk_terminates`).
-/

namespace Mpd

open List

namespace Walk

open Except (Within Below)

variable {files : Files} {discard : Bool} {v v' w : Visit} {name : Text} {st : Stat}

/-! ### What is known of directories -/

def Info.Known (info info' : Info) : Prop :=
  info.haveStat = true → info'.haveStat = true ∧ info'.id = info.id

def Keeps (infos infos' : List Info) : Prop :=
  List.Forall₂ Info.Known infos infos'

theorem Keeps.refl (infos : List Info) : Keeps infos infos :=
  forall₂_same.mpr fun _ _ hstat => ⟨hstat, rfl⟩

theorem Keeps.trans {infos infos' infos'' : List Info} (h : Keeps infos infos')
    (h' : Keeps infos' infos'') : Keeps infos infos'' := by
  induction h generalizing infos'' with
  | nil => exact h'
  | cons hinfo _ ih =>
    cases h' with
    | cons hinfo' htail' =>
      refine .cons (fun hstat => ?_) (ih htail')
      obtain ⟨hstat', hid⟩ := hinfo hstat
      obtain ⟨hstat'', hid'⟩ := hinfo' hstat'
      exact ⟨hstat'', hid'.trans hid⟩

def OnStack (stack : List FileId) (infos : List Info) : Prop :=
  ∀ id ∈ stack, ∃ info ∈ infos, info.haveStat = true ∧ info.id = id

theorem OnStack.keeps {stack : List FileId} {infos infos' : List Info} (h : OnStack stack infos)
    (hkeeps : Keeps infos infos') : OnStack stack infos' := by
  intro id hid
  obtain ⟨info, hinfo, hstat, rfl⟩ := h id hid
  clear h
  induction hkeeps with
  | nil => cases hinfo
  | cons hknown _ ih =>
    obtain rfl | hinfo := mem_cons.mp hinfo
    · obtain ⟨hstat', hid'⟩ := hknown hstat
      exact ⟨_, mem_cons_self, hstat', hid'⟩
    · obtain ⟨info', hinfo', hstat', hid'⟩ := ih hinfo
      exact ⟨info', mem_cons_of_mem _ hinfo', hstat', hid'⟩

theorem findInodeAncestor_spec (files : Files) (id : FileId) (infos : List Info) :
    Keeps infos (findInodeAncestor files id infos).2 ∧
      ((findInodeAncestor files id infos).1 = false →
        ∀ info ∈ infos, info.haveStat = true → info.id ≠ id) := by
  induction infos with
  | nil => exact ⟨.nil, fun _ _ hinfo => nomatch hinfo⟩
  | cons info above ih =>
    have hknown : ∀ info', (if info.haveStat then some info
        else (statDirectory files info.path).map info.setStat) = some info' →
        Info.Known info info' := by
      intro info' heq hstat
      rw [hstat, if_pos rfl] at heq
      obtain rfl := Option.some.inj heq
      exact ⟨hstat, rfl⟩
    rw [findInodeAncestor]
    split
    · exact ⟨Keeps.refl _, fun hfound => nomatch hfound⟩
    · next info' heq =>
      by_cases hid : info'.id = id
      · rw [if_pos hid]
        exact ⟨.cons (hknown info' heq) (Keeps.refl above), fun hfound => nomatch hfound⟩
      · rw [if_neg hid]
        refine ⟨.cons (hknown info' heq) ih.1, fun hfound => ?_⟩
        rw [forall_mem_cons]
        refine ⟨fun hstat => ?_, ih.2 hfound⟩
        rw [← (hknown info' heq hstat).2]
        exact hid

theorem Keeps.setInfos {infos : List Info} (h : Keeps v.infos infos) :
    Keeps v.infos (v.setInfos infos).infos := by
  cases h with
  | cons hinfo htail => exact .cons hinfo htail

theorem Keeps.leave (h : Keeps v.infos w.above) (children : List Folder) :
    Keeps v.infos (v.leave w children).infos :=
  h.setInfos

/-! ### Files -/

theorem newChild_within (d : Folder) (name : Text) :
    (d.newChild name).Within (· = .assertion) fun _ => True :=
  .branch (.error rfl) <| .ok trivial

theorem makeChild_within (d : Folder) (name : Text) :
    (d.makeChild name).Within (· = .assertion) fun _ => True := by
  rw [Folder.makeChild]
  cases d.getChild name with
  | some child => exact .ok trivial
  | none => exact newChild_within d name

theorem songFileLoad_within (d : Folder) (name : Text) :
    (songFileLoad files d name).Within (· = .assertion) fun _ => True :=
  .branch (.error rfl) <| .ok trivial

theorem containerSongs_within (plugin : Decoder) (contdir : Folder) (mtime : Int64)
    (tracks : List Text) :
    (containerSongs files plugin contdir mtime tracks).Within (· = .assertion) fun _ => True := by
  induction tracks with
  | nil => exact .ok trivial
  | cons vtrack tracks ih =>
    exact .branch (.error rfl) <| ih.bind fun _ _ => .ok trivial

theorem updateContainerFile_within (name : Text) (st : Stat) (plugin : Decoder) (v : Visit) :
    (updateContainerFile files discard name st plugin v).Within (· = .assertion)
      fun r => r.2.infos = v.infos := by
  rw [updateContainerFile]
  cases plugin.containerScan with
  | none => exact .ok rfl
  | some containerScan =>
    refine .branch (.ok rfl) ?_
    refine (makeChild_within _ _).bind fun contdir _ => ?_
    split
    · exact .ok rfl
    · exact (containerSongs_within _ _ _ _).bind fun songs _ => .ok rfl

theorem updateSong_within (name : Text) (st : Stat) (v : Visit) :
    (updateSong files discard name st v).Within (· = .assertion) fun v' => v'.infos = v.infos := by
  rw [updateSong]
  split
  · refine (songFileLoad_within _ _).bind fun song _ => ?_
    cases song with
    | none => exact .ok rfl
    | some song => exact .ok rfl
  · exact .branch (.ok rfl) <| .ok rfl

theorem updateSongFile2_within (name : Text) (st : Stat) (plugin : Decoder) (v : Visit) :
    (updateSongFile2 files discard name st plugin v).Within (· = .assertion)
      fun v' => v'.infos = v.infos := by
  refine .branch (.ok rfl) ?_
  refine .bind (P := fun r => r.2.infos = v.infos)
    (.branch (.ok rfl) <| updateContainerFile_within _ _ _ _)
    fun r hr => ?_
  refine .branch (.ok hr) ?_
  exact (updateSong_within name st r.2).mono fun v' hv' => hv'.trans hr

theorem leave_infos (h : w.above = v.infos) (children : List Folder) :
    (v.leave w children).infos = v.infos := by
  rw [Visit.leave, h]
  rfl

theorem updateArchiveTree_within (parts : List Text) (v : Visit) :
    (updateArchiveTree files parts v).Within (· = .assertion) fun v' => v'.infos = v.infos := by
  induction parts generalizing v with
  | nil => exact .ok rfl
  | cons name parts ih =>
    cases parts with
    | nil =>
      refine .branch (.ok rfl) ?_
      refine .branch (.ok rfl) ?_
      refine (songFileLoad_within _ _).bind fun song _ => ?_
      cases song with
      | none => exact .ok rfl
      | some song => exact .ok rfl
    | cons next parts =>
      refine (makeChild_within _ _).bind fun subdir _ => ?_
      refine (ih _).bind fun w hw => .ok ?_
      exact leave_infos (cons.inj hw).2 _

theorem updateArchiveTrees_within (filepaths : List Text) (v : Visit) :
    (updateArchiveTrees files filepaths v).Within (· = .assertion)
      fun v' => v'.infos = v.infos := by
  induction filepaths generalizing v with
  | nil => exact .ok rfl
  | cons filepath filepaths ih =>
    exact (updateArchiveTree_within _ _).bind fun v' hv' =>
      (ih v').mono fun v'' hv'' => hv''.trans hv'

theorem updateArchiveFile2_within (name : Text) (st : Stat) (scan : Text → Option (List Text))
    (v : Visit) :
    (updateArchiveFile2 files discard name st scan v).Within (· = .assertion)
      fun v' => v'.infos = v.infos := by
  refine .branch (.ok rfl) ?_
  split
  · exact .ok rfl
  · refine (makeChild_within _ _).bind fun child _ => ?_
    refine (updateArchiveTrees_within _ _).bind fun w hw => .ok ?_
    exact leave_infos (cons.inj hw).2 _

theorem updateRegularFile_within (name : Text) (st : Stat) (v : Visit) :
    (updateRegularFile files discard name st v).Within (· = .assertion)
      fun v' => v'.infos = v.infos := by
  rw [updateRegularFile]
  split
  · exact .ok rfl
  · split
    · exact updateSongFile2_within _ _ _ _
    · split
      · exact updateArchiveFile2_within _ _ _ _
      · refine .branch (.ok ?_) <| .ok rfl
        rw [updatePlaylistFile2]
        split <;> rfl

/-! ### Directories -/

section Directories

variable {recurse : Stat → Visit → Except WalkFault (Bool × Visit)} {stack ids : List FileId}

def Enters (recurse : Stat → Visit → Except WalkFault (Bool × Visit)) (stack ids : List FileId) :
    Prop :=
  ∀ st w, st.type = .directory → st.id ∈ ids → st.id ∉ stack → OnStack stack w.above →
    (recurse st w).Within (· = .assertion) fun r => Keeps w.above r.2.above

theorem updateDirectoryChild_within (hrecurse : Enters recurse stack ids)
    (hst : st.type = .directory → st.id ∈ ids) (hstack : OnStack stack v.infos) :
    (updateDirectoryChild files discard recurse name st v).Within (· = .assertion)
      fun v' => Keeps v.infos v'.infos := by
  rw [updateDirectoryChild]
  cases htype : st.type with
  | regular =>
    exact (updateRegularFile_within name st v).mono fun v' hv' => hv' ▸ Keeps.refl _
  | other => exact .ok (Keeps.refl _)
  | directory =>
    obtain ⟨hkeeps, hfound⟩ := findInodeAncestor_spec files st.id v.infos
    have hset := hkeeps.setInfos
    refine .ite (fun _ => .ok hset) fun hnot => ?_
    refine (makeChild_within _ _).bind fun subdir _ => ?_
    have hnew : st.id ∉ stack := by
      intro hmem
      obtain ⟨info, hinfo, hstat, hid⟩ := hstack st.id hmem
      exact hfound (Bool.not_eq_true _ ▸ hnot) info hinfo hstat hid
    refine (hrecurse st (Visit.enter _ subdir) htype (hst htype) hnew (hstack.keeps hset)).bind
      fun r hr => .ok ?_
    exact hset.trans (hr.leave _)

section

variable (hids : ∀ path st, files.stat path = some st → st.type = .directory → st.id ∈ ids)
include hids

theorem updateName_within (hrecurse : Enters recurse stack ids) (hstack : OnStack stack v.infos) :
    (updateName files discard recurse name v).Within (· = .assertion)
      fun v' => Keeps v.infos v'.infos := by
  refine .branch (.ok (Keeps.refl _)) ?_
  cases hstat : statDirectoryChild files v.here.path name with
  | none => exact .ok (Keeps.refl _)
  | some st =>
    obtain ⟨pathFs, -, hst⟩ := Option.bind_eq_some_iff.mp hstat
    exact updateDirectoryChild_within hrecurse (hids pathFs st hst) hstack

theorem updateEntries_within (hrecurse : Enters recurse stack ids) (hstack : OnStack stack v.infos)
    (patterns names : List Text) :
    (updateEntries files discard recurse patterns names v).Within (· = .assertion)
      fun v' => Keeps v.infos v'.infos := by
  induction names generalizing v with
  | nil => exact .ok (Keeps.refl _)
  | cons name names ih =>
    refine .branch (ih hstack) ?_
    exact (updateName_within hids hrecurse hstack).bind fun v' hv' =>
      (ih (hstack.keeps hv')).mono fun v'' hv'' => hv'.trans hv''

theorem updateDirectory_enters {levels : ℕ} (hnodup : stack.Nodup) (hsub : stack ⊆ ids)
    (hlevels : ids.length ≤ levels + stack.length) :
    Enters (updateDirectory files discard levels stack) stack ids := by
  induction levels generalizing stack with
  | zero =>
    intro st w _ hmem hnew _
    have hcons : (st.id :: stack).length ≤ ids.length :=
      (subperm_of_subset (nodup_cons.mpr ⟨hnew, hnodup⟩) (cons_subset.mpr ⟨hmem, hsub⟩)).length_le
    rw [length_cons] at hcons
    omega
  | succ levels ih =>
    intro st w htype hmem hnew hstack
    rw [updateDirectory, if_neg (not_not.mpr htype), if_neg hnew]
    dsimp only
    split
    · exact .ok (Keeps.refl _)
    · next names _ =>
      have hnext : Enters (updateDirectory files discard levels (st.id :: stack)) (st.id :: stack)
          ids :=
        ih (nodup_cons.mpr ⟨hnew, hnodup⟩) (cons_subset.mpr ⟨hmem, hsub⟩)
          (by rw [length_cons]; omega)
      have hhere : OnStack (st.id :: stack) (w.here.toInfo.setStat st :: w.above) := by
        intro id hid
        obtain rfl | hid := mem_cons.mp hid
        · exact ⟨_, mem_cons_self, rfl, rfl⟩
        · obtain ⟨info, hinfo, hknown⟩ := hstack id hid
          exact ⟨info, mem_cons_of_mem _ hinfo, hknown⟩
      have hinfos : ∀ (patterns : List Text) (v : Visit),
          (purgeDeletedFromDirectory files (if patterns = [] then v
            else removeExcludedFromDirectory files patterns v)).infos = v.infos := by
        intro patterns v
        split <;> rfl
      refine (updateEntries_within hids hnext ?_ _ names).bind fun v' hv' =>
        .ok ?_
      · rw [hinfos]
        exact hhere
      · rw [hinfos] at hv'
        cases hv' with
        | cons _ htail => exact htail

end

end Directories

/-! ### Bounds for the recursion -/

section Bounds

variable {recurse recurse' : Stat → Visit → Except WalkFault (Bool × Visit)}

theorem updateName_below (h : ∀ st v, Below .endless (recurse st v) (recurse' st v)) (name : Text)
    (v : Visit) :
    Below .endless (updateName files discard recurse name v)
      (updateName files discard recurse' name v) := by
  refine .ite (.refl _) ?_
  cases statDirectoryChild files v.here.path name with
  | none => exact .refl _
  | some st =>
    dsimp only
    rw [updateDirectoryChild, updateDirectoryChild]
    cases st.type with
    | regular => exact .refl _
    | other => exact .refl _
    | directory => exact .ite (.refl _) ((Below.refl _).bind fun _ => (h _ _).bind fun _ => .refl _)

theorem updateEntries_below (h : ∀ st v, Below .endless (recurse st v) (recurse' st v))
    (patterns names : List Text) (v : Visit) :
    Below .endless (updateEntries files discard recurse patterns names v)
      (updateEntries files discard recurse' patterns names v) := by
  induction names generalizing v with
  | nil => exact .refl _
  | cons name names ih => exact .ite (ih v) ((updateName_below h _ v).bind fun v' => ih v')

theorem updateDirectory_below_succ (levels : ℕ) (stack : List FileId) (st : Stat) (v : Visit) :
    Below .endless (updateDirectory files discard levels stack st v)
      (updateDirectory files discard (levels + 1) stack st v) := by
  induction levels generalizing stack st v with
  | zero => exact .ite (.refl _) (.ite (.refl _) (.inl rfl))
  | succ levels ih =>
    refine .ite (.refl _) (.ite (.refl _) ?_)
    dsimp only
    split
    · exact .refl _
    · exact (updateEntries_below (ih _) _ _ _).bind fun _ => .refl _

theorem updateDirectory_below {levels levels' : ℕ} (h : levels ≤ levels') (stack : List FileId)
    (st : Stat) (v : Visit) :
    Below .endless (updateDirectory files discard levels stack st v)
      (updateDirectory files discard levels' stack st v) := by
  induction h with
  | refl => exact .refl _
  | step _ ih => exact ih.trans (updateDirectory_below_succ _ stack st v)

theorem withUriParent_below {act act' : Visit → Except WalkFault Visit}
    (h : ∀ v, Below .endless (act v) (act' v)) (parts : List Text) (v : Visit) :
    Below .endless (withUriParent files act parts v) (withUriParent files act' parts v) := by
  induction parts generalizing v with
  | nil => exact h v
  | cons name parts ih =>
    refine .ite (h v) ?_
    cases v.here.getChild name with
    | some child => exact (ih _).bind fun _ => .refl _
    | none =>
      cases statDirectoryChild files v.here.path name with
      | none => exact .refl _
      | some st =>
        exact .ite (.refl _) (.ite (.refl _) ((Below.refl _).bind fun _ =>
          (ih _).bind fun _ => .refl _))

theorem updateWalk_below {levels levels' : ℕ} (h : levels ≤ levels') (path : Text) (root : Folder) :
    Below .endless (updateWalk files discard levels path root)
      (updateWalk files discard levels' path root) := by
  refine .ite ?_ ?_
  · cases statDirectory files root.path with
    | none => exact .refl _
    | some st => exact (updateDirectory_below h _ _ _).bind fun _ => .refl _
  · exact withUriParent_below (updateName_below (updateDirectory_below h []) _) _ _

end Bounds

/-! ### The walk -/

theorem withUriParent_within {act : Visit → Except WalkFault Visit}
    (hact : ∀ v, (act v).Within (· = .assertion) fun v' => Keeps v.infos v'.infos)
    (parts : List Text) (v : Visit) :
    (withUriParent files act parts v).Within (· = .assertion) fun v' => Keeps v.infos v'.infos := by
  induction parts generalizing v with
  | nil => exact hact v
  | cons name parts ih =>
    refine .branch (hact v) ?_
    cases v.here.getChild name with
    | some child =>
      refine (ih (v.enter child)).bind fun w hw => .ok ?_
      cases hw with
      | cons _ htail => exact Keeps.leave htail _
    | none =>
      cases statDirectoryChild files v.here.path name with
      | none => exact .ok (Keeps.refl _)
      | some st =>
        have hset := (findInodeAncestor_spec files st.id v.infos).1.setInfos
        refine .branch (.ok hset) ?_
        refine .branch (.ok hset) ?_
        refine (newChild_within _ _).bind fun child _ => ?_
        refine (ih _).bind fun w hw => .ok ?_
        cases hw with
        | cons _ htail => exact hset.trans (Keeps.leave htail _)

/-- **The walk ends**, if there are finitely many directories: with any bound that is at least their
number it has the same outcome, the recursion is not deeper than the bound, and no directory is
entered while it is being walked. -/
theorem updateWalk_terminates (ids : List FileId)
    (hids : ∀ path st, files.stat path = some st → st.type = .directory → st.id ∈ ids)
    (path : Text) (root : Folder) :
    ∃ outcome, outcome ≠ .error .endless ∧ outcome ≠ .error .reentered ∧
      ∀ levels, ids.length ≤ levels → updateWalk files discard levels path root = outcome := by
  have hwithin : (updateWalk files discard ids.length path root).Within (· = .assertion)
      fun _ => True := by
    have henters : Enters (updateDirectory files discard ids.length []) [] ids :=
      updateDirectory_enters hids .nil (nil_subset ids) (Nat.le_refl ids.length)
    have hnone : ∀ infos, OnStack [] infos := fun _ _ hid => nomatch hid
    refine .branch ?_ ?_
    · cases hstat : statDirectory files root.path with
      | none => exact .ok trivial
      | some st =>
        by_cases htype : st.type = .directory
        · exact (henters st _ htype (hids _ st hstat htype) not_mem_nil (hnone _)).bind
            fun _ _ => .ok trivial
        · dsimp only
          rw [updateDirectory.eq_def]
          dsimp only
          rw [if_pos htype]
          exact .error rfl
    · exact (withUriParent_within (fun v => updateName_within hids henters (hnone _)) _ _).mono
        fun _ _ => trivial
  refine ⟨updateWalk files discard ids.length path root, fun hendless => ?_,
    fun hreentered => ?_, fun levels hlevels => ?_⟩
  · exact nomatch hwithin.1 _ hendless
  · exact nomatch hwithin.1 _ hreentered
  · exact (updateWalk_below hlevels path root).eq fun hendless =>
      nomatch hwithin.1 _ hendless

def cyclic : Files where
  musicDirFs := ['m']
  musicDirUtf8 := ['m']
  toFs := id
  toUtf8 := id
  stat path := some ⟨.directory, if path = ['m'] then ⟨1, 0⟩ else ⟨2, 0⟩, 0⟩
  readdir _ := some [['a']]
  readlink path := if path = ['m', '/', 'a'] then .notALink else .target ['.']
  readable _ := true
  read _ := none
  patternMatch _ _ := false
  followInsideSymlinks := true
  followOutsideSymlinks := true
  decoder _ := none
  scanTag _ _ := none
  archive _ := none
  playlistSuffix _ := false

def emptyRoot : Folder where
  path := []
  id := ⟨0, 0⟩
  haveStat := false
  mtime := 0
  children := []
  songs := []
  playlists := []

theorem updateWalk_terminates_cyclic :
    ∃ outcome, outcome ≠ .error .endless ∧ outcome ≠ .error .reentered ∧
      ∀ levels, 2 ≤ levels → updateWalk cyclic false levels [] emptyRoot = outcome := by
  refine updateWalk_terminates [⟨1, 0⟩, ⟨2, 0⟩] (fun path st hst _ => ?_) [] emptyRoot
  obtain rfl := Option.some.inj hst
  split <;> decide

-- the directory is entered once
example : (updateWalk cyclic false 2 [] emptyRoot).Succeeds fun v =>
    v.here.children.map (fun c => (c.path, c.children.length)) = [(['a'], 0)] := by
  decide

end Walk

end Mpd
