import Mpd.Command.Find
import Mpd.Database.StringSet
import Mpd.Database.Tag

/-!
# `list`

`listAllUniqueTags` of `db_print.c` prints the values of a tag: it walks the database, puts the
values of the songs that match into a set of strings, and prints what comes out of the set.

Each value comes out once, whatever the hash function is (`listAllUniqueTags_eq`).
-/

namespace Mpd

namespace Database

variable {σ ε St : Type} {uri : σ → Text}

def walk (db : Option (Database uri)) (name : Text) (visit : σ → St → Except ε (ℤ × St)) (st : St) :
    Except ε (ℤ × St) :=
  match db with
  | none => .ok (-MpdErr.dbDisabled.code, st)
  | some db =>
    match db.root.lookupDirectory name with
    | some directory => directoryWalk visit directory st
    | none =>
      match db.root.lookupSong name with
      | some song => visit song st
      | none => .ok (-MpdErr.dbNoent.code, st)

theorem walk_root (db : Database uri) (visit : σ → St → Except ε (ℤ × St)) (st : St) :
    walk (some db) [] visit st = visitSongs visit db.root.allSongs st :=
  directoryWalk_eq visit db.root st

end Database

inductive UniqueTagsFault
  | set (fault : StringSetFault)
  /-- there is no set -/
  | noSet
  deriving DecidableEq, Repr

namespace UniqueTags

variable {σ : Type} {data : SongData σ} {R : Type}

/-! ### The source -/

section Source

variable (hash : Text → UInt32) (printUri : σ → Text)

abbrev Collecting (data : SongData σ) (R : Type) : Type :=
  Server (World data R) × Option StringSet

def addTo (set : Option StringSet) (value : Text) : Except UniqueTagsFault (Option StringSet) :=
  match set with
  | none => .error .noSet
  | some set =>
    match set.add hash value with
    | .ok set => .ok (some set)
    | .error fault => .error (.set fault)

def visitItems (tagType : LocateType) : List (TagType × Text) → Option StringSet → Bool →
    Except UniqueTagsFault (Option StringSet × Bool)
  | [], set, found => .ok (set, found)
  | item :: items, set, found =>
    if tagType = .tag item.1 then do
      let set ← addTo hash set item.2
      visitItems tagType items set true
    else visitItems tagType items set found

def visitTag (song : σ) (tagType : LocateType) (st : Collecting data R) :
    Except UniqueTagsFault (Collecting data R) :=
  if tagType = .file then .ok (st.1.write (printUri song), st.2)
  else
    match data.tag song with
    | none => .ok st
    | some items => do
      let (set, found) ← visitItems hash tagType items st.2 false
      let set ← if !found then addTo hash set [] else .ok set
      .ok (st.1, set)

def uniqueTagsVisitorSong (tagType : LocateType) (criteria : List LocateItem) (song : σ)
    (st : Collecting data R) : Except UniqueTagsFault (ℤ × Collecting data R) := do
  let st ← if locateSongMatch data song criteria then visitTag hash printUri song tagType st
    else .ok st
  .ok (0, st)

def printValues (type : TagType) (s : Server (World data R)) (values : List Text) :
    Server (World data R) :=
  values.foldl (fun s value => s.write (type.itemName ++ ": ".toList ++ value ++ ['\n'])) s

def listAllUniqueTags (s : Server (World data R)) (type : LocateType) (criteria : List LocateItem) :
    Except UniqueTagsFault (ℤ × Server (World data R)) := do
  let set := match type with
    | .tag _ => some StringSet.new
    | _ => none
  let (ret, s, set) ← Database.walk s.world.database []
    (uniqueTagsVisitorSong hash printUri type criteria) (s, set)
  if ret ≠ 0 then .ok (ret, s)
  else
    match type, set with
    | .tag type, some set =>
      .ok (0, printValues type s (set.rewind.drain (set.contents.length + 1)))
    | _, _ => .ok (0, s)

end Source

/-! ### What is collected -/

/-- The song has this value, or the empty one if it has none. -/
def Shows (data : SongData σ) (type : TagType) (song : σ) (value : Text) : Prop :=
  ∃ items, data.tag song = some items ∧
    ((type, value) ∈ items ∨ value = [] ∧ ∀ v, (type, v) ∉ items)

variable {hash : Text → UInt32} {set : StringSet} {type : TagType} {s : Server (World data R)}

open StringSet (Sound)

theorem addTo_succeeds (h : Sound hash set) (value : Text) :
    (addTo hash (some set) value).Succeeds fun r => ∃ set', r = some set' ∧ Sound hash set' ∧
      ∀ v, v ∈ set'.contents ↔ v = value ∨ v ∈ set.contents := by
  obtain ⟨set', hadd, hset'⟩ := h.add value
  rw [addTo, hadd]
  exact .ok ⟨set', rfl, hset'⟩

theorem visitItems_succeeds (h : Sound hash set) (items : List (TagType × Text)) (found : Bool) :
    (visitItems hash (.tag type) items (some set) found).Succeeds fun r =>
      (∃ set', r.1 = some set' ∧ Sound hash set' ∧
        ∀ v, v ∈ set'.contents ↔ v ∈ set.contents ∨ (type, v) ∈ items) ∧
      (r.2 = true ↔ found = true ∨ ∃ v, (type, v) ∈ items) := by
  induction items generalizing set found with
  | nil => exact .ok ⟨⟨set, rfl, h, by simp⟩, by simp⟩
  | cons item items ih =>
    obtain ⟨itemType, value⟩ := item
    refine .ite (fun htype => ?_) fun htype => ?_
    · obtain rfl : type = itemType := LocateType.tag.inj htype
      refine (addTo_succeeds h value).bind fun r hr => ?_
      obtain ⟨set', rfl, hset', hcontents⟩ := hr
      refine (ih hset' true).mono fun r hr => ?_
      obtain ⟨⟨set'', hset'', hsound, hmem⟩, hfound⟩ := hr
      refine ⟨⟨set'', hset'', hsound, fun v => ?_⟩, ?_⟩
      · rw [hmem, hcontents, List.mem_cons, Prod.mk.injEq]
        simp only [true_and]
        rw [or_assoc, or_left_comm]
      · refine hfound.trans ⟨fun _ => .inr ⟨value, List.mem_cons_self⟩, fun _ => .inl rfl⟩
    · have hne : ∀ v, (type, v) ∈ (itemType, value) :: items ↔ (type, v) ∈ items := by
        intro v
        rw [List.mem_cons, Prod.mk.injEq]
        exact ⟨fun hv => hv.resolve_left fun hv => htype (congrArg _ hv.1), .inr⟩
      simp only [hne]
      exact ih h found

theorem visitTag_succeeds (h : Sound hash set) (printUri : σ → Text) (s : Server (World data R))
    (song : σ) :
    (visitTag hash printUri song (.tag type) (s, some set)).Succeeds fun r =>
      ∃ set', r = (s, some set') ∧ Sound hash set' ∧
        ∀ v, v ∈ set'.contents ↔ v ∈ set.contents ∨ Shows data type song v := by
  rw [visitTag, if_neg (by simp)]
  cases htag : data.tag song with
  | none =>
    refine .ok ⟨set, rfl, h, fun v => ⟨.inl, fun hv => hv.resolve_right ?_⟩⟩
    rintro ⟨items, hitems, -⟩
    rw [htag] at hitems
    cases hitems
  | some items =>
    have hshows : ∀ v, Shows data type song v ↔
        (type, v) ∈ items ∨ v = [] ∧ ∀ w, (type, w) ∉ items := by
      intro v
      rw [Shows, htag]
      simp
    refine (visitItems_succeeds h items false).bind fun r hr => ?_
    obtain ⟨set₁, found⟩ := r
    obtain ⟨⟨set', rfl, hset', hcontents⟩, hfound⟩ := hr
    simp only [Bool.false_eq_true, false_or] at hfound
    cases found with
    | true =>
      obtain ⟨w, hw⟩ := hfound.mp rfl
      refine .ok ⟨set', rfl, hset', fun v => ?_⟩
      rw [hcontents, hshows]
      exact or_congr_right ⟨.inl, fun hv => hv.resolve_right fun hv => hv.2 w hw⟩
    | false =>
      have hnone : ∀ w, (type, w) ∉ items := fun w hw => nomatch hfound.mpr ⟨w, hw⟩
      refine (addTo_succeeds hset' []).bind fun r hr => ?_
      obtain ⟨set'', rfl, hset'', hcontents'⟩ := hr
      refine .ok ⟨set'', rfl, hset'', fun v => ?_⟩
      rw [hcontents', hcontents, hshows]
      simp only [hnone, not_false_eq_true, implies_true, and_true, false_or, or_false]
      exact or_comm

theorem visitSongs_succeeds (h : Sound hash set) (printUri : σ → Text) (type : TagType)
    (criteria : List LocateItem) (s : Server (World data R)) (songs : List σ) :
    (visitSongs (uniqueTagsVisitorSong hash printUri (.tag type) criteria) songs
      (s, some set)).Succeeds fun r =>
        ∃ set', r = (0, s, some set') ∧ Sound hash set' ∧
          ∀ v, v ∈ set'.contents ↔ v ∈ set.contents ∨
            ∃ song ∈ songs, locateSongMatch data song criteria = true ∧ Shows data type song v := by
  induction songs generalizing set with
  | nil => exact .ok ⟨set, rfl, h, by simp⟩
  | cons song songs ih =>
    simp only [List.exists_mem_cons_iff]
    rw [visitSongs, uniqueTagsVisitorSong]
    cases hmatch : locateSongMatch data song criteria with
    | false =>
      simp only [Bool.false_eq_true, false_and, false_or]
      exact ih h
    | true =>
      simp only [true_and]
      obtain ⟨r, hvisit, set', rfl, hset', hcontents⟩ := visitTag_succeeds h printUri s song
      rw [if_pos trivial, hvisit]
      refine (ih hset').mono fun r hr => ?_
      obtain ⟨set'', hr, hset'', hcontents'⟩ := hr
      refine ⟨set'', hr, hset'', fun v => ?_⟩
      rw [hcontents', hcontents, or_assoc]

/-- **Each value is printed once**: the values of the tag in the songs that match, and the empty
value if a song that matches has a tag without that type. Nothing else is printed. -/
theorem listAllUniqueTags_eq {db : Database data.uri} (hdb : s.world.database = some db)
    (hash : Text → UInt32) (printUri : σ → Text) (type : TagType) (criteria : List LocateItem) :
    ∃ values : List Text,
      listAllUniqueTags hash printUri s (.tag type) criteria = .ok (0, printValues type s values) ∧
      values.Nodup ∧ ∀ v, v ∈ values ↔ ∃ song ∈ db.root.allSongs,
        locateSongMatch data song criteria = true ∧ Shows data type song v := by
  have hnew : Sound hash StringSet.new := Sound.new
  obtain ⟨r, hwalk, set, rfl, hset, hcontents⟩ :=
    visitSongs_succeeds hnew printUri type criteria s db.root.allSongs
  refine ⟨set.contents, ?_, hset.nodup_contents, fun v => ?_⟩
  · rw [listAllUniqueTags, hdb, Database.walk_root, hwalk, Except.ok_bind]
    dsimp only
    rw [hset.drain_rewind (Nat.lt_succ_self _)]
    rfl
  · rw [hcontents]
    refine ⟨fun hv => hv.resolve_left ?_, .inr⟩
    intro hmem
    rw [hnew.mem_contents_iff] at hmem
    cases hmem

def taggedData : SongData ℕ :=
  { plainData with tag := fun _ => some [(.artist, "a".toList), (.title, "b".toList)] }

def taggedServer : Server (World taggedData Unit) where
  world := ⟨.numbered .stop fun _ => 0, some Server.twoSongs, [], ()⟩
  permission := permissionRead
  uid := -1
  currentCommand := none
  commandListNum := 0
  output := []

theorem listAllUniqueTags_eq_twice : ∃ values : List Text,
      listAllUniqueTags (fun _ => 0) (fun _ => []) taggedServer (.tag .artist) [] =
        .ok (0, printValues .artist taggedServer values) ∧
      values.Nodup ∧ ∀ v, v ∈ values ↔ ∃ song ∈ Server.twoSongs.root.allSongs,
        locateSongMatch taggedData song [] = true ∧ Shows taggedData .artist song v :=
  listAllUniqueTags_eq rfl _ _ _ _

end UniqueTags

end Mpd
