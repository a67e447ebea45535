import Mpd.Database.Directory

/-!
# Searching for songs

`locate.c`: the criteria that the commands for searching take as arguments, and whether a song
matches them. `find` compares whole values, and `search` looks for a part of them without regard to
case. What is found is also found by searching (`locateSongSearch_of_match`).

Both note in an array which types of tags a song has. The criterion `any` is not one of them: with
an empty string to find, `locate_tag_match` takes it for an index (`indices_lt_iff`).
-/

namespace Mpd

open List

inductive TagType
  | artist | artistSort | album | albumArtist | albumArtistSort | title | track | name | genre
  | date | composer | performer | comment | disc | musicbrainzArtistid | musicbrainzAlbumid
  | musicbrainzAlbumartistid | musicbrainzTrackid
  deriving DecidableEq, Repr

def tagItemNames : List (TagType × String) :=
  [(.artist, "Artist"), (.artistSort, "ArtistSort"), (.album, "Album"),
    (.albumArtist, "AlbumArtist"), (.albumArtistSort, "AlbumArtistSort"), (.title, "Title"),
    (.track, "Track"), (.name, "Name"), (.genre, "Genre"), (.date, "Date"),
    (.composer, "Composer"), (.performer, "Performer"), (.comment, "Comment"), (.disc, "Disc"),
    (.musicbrainzArtistid, "MUSICBRAINZ_ARTISTID"), (.musicbrainzAlbumid, "MUSICBRAINZ_ALBUMID"),
    (.musicbrainzAlbumartistid, "MUSICBRAINZ_ALBUMARTISTID"),
    (.musicbrainzTrackid, "MUSICBRAINZ_TRACKID")]

def equalsIgnoringCase (a b : Text) : Bool :=
  a.map Char.toLower = b.map Char.toLower

inductive LocateType
  | tag (type : TagType)
  | file
  | any
  deriving DecidableEq, Repr

def locateParseType (str : Text) : Option LocateType :=
  if equalsIgnoringCase str "file".toList || equalsIgnoringCase str "filename".toList then
    some .file
  else if equalsIgnoringCase str "any".toList then some .any
  else (tagItemNames.find? fun item => equalsIgnoringCase str item.2.toList).map fun item =>
    .tag item.1

/-- `struct locate_item`. -/
structure LocateItem where
  tag : LocateType
  needle : Text

def locateItemListParse : List Text → Option (List LocateItem)
  | [] => some []
  | [_] => none
  | type :: needle :: argv => do
    let tag ← locateParseType type
    let items ← locateItemListParse argv
    pure (⟨tag, needle⟩ :: items)

/-- What is known of songs. A URI is a C string that is not empty, as `song_alloc` asserts. -/
structure SongData (σ : Type) where
  /-- `song_get_uri` -/
  uri : σ → Text
  uri_ne_nil : ∀ song, uri song ≠ []
  nul_notMem_uri : ∀ song, '\x00' ∉ uri song
  /-- the items of `song->tag` -/
  tag : σ → Option (List (TagType × Text))
  /-- what is behind the end of the array `visited_types` -/
  strayRead : Bool

variable {σ : Type} (data : SongData σ)

def locateTagMatch (song : σ) (item : LocateItem) : Bool :=
  if item.tag ∈ [LocateType.file, .any] ∧ item.needle = data.uri song then true
  else if item.tag = .file then false
  else
    match data.tag song with
    | none => false
    | some items =>
      if items.any fun i => (item.tag = .any ∨ item.tag = .tag i.1) ∧ item.needle = i.2 then true
      else if item.needle = [] then
        match item.tag with
        | .tag type => !items.any fun i => i.1 = type
        | _ => !data.strayRead
      else false

def locateSongMatch (song : σ) (criteria : List LocateItem) : Bool :=
  criteria.all (locateTagMatch data song)

def locateItemListCasefold (casefold : Text → Text) (list : List LocateItem) : List LocateItem :=
  list.map fun item => { item with needle := casefold item.needle }

def locateTagSearch (casefold : Text → Text) (song : σ) (item : LocateItem) : Bool :=
  if item.tag ∈ [LocateType.file, .any] ∧ item.needle <:+: casefold (data.uri song) then true
  else if item.tag = .file then false
  else
    match data.tag song with
    | none => false
    | some items =>
      if items.any fun i => (item.tag = .any ∨ item.tag = .tag i.1) ∧ item.needle ≠ [] ∧
          item.needle <:+: casefold i.2 then true
      else if item.needle = [] then
        match item.tag with
        | .tag type => !items.any fun i => i.1 = type
        | _ => !data.strayRead
      else false

def locateSongSearch (casefold : Text → Text) (song : σ) (criteria : List LocateItem) : Bool :=
  criteria.all (locateTagSearch data casefold song)

/-! ### What is found is also found by searching -/

section Search

variable {data} {casefold : Text → Text} {song : σ} {item : LocateItem}

theorem locateTagSearch_of_match (hfold : ∀ s, casefold s = [] ↔ s = [])
    (hvalues : ∀ items ∈ data.tag song, ∀ i ∈ items, i.2 ≠ [])
    (hany : item.tag = .any → item.needle ≠ []) (h : locateTagMatch data song item = true) :
    locateTagSearch data casefold song { item with needle := casefold item.needle } = true := by
  obtain ⟨tag, needle⟩ := item
  dsimp only [locateTagMatch, locateTagSearch] at hany h ⊢
  split at h
  · next huri => exact if_pos ⟨huri.1, huri.2 ▸ infix_rfl⟩
  split at h
  · cases h
  · next hfile =>
    cases htag : data.tag song with
    | none => simp [htag] at h
    | some items =>
      rw [htag] at h
      dsimp only at h ⊢
      split_ifs with huri hfound hempty
      · rfl
      · rfl
      · -- the tag is absent, since the string to find is empty
        rw [hfold] at hempty
        subst hempty
        have hnone : ¬ items.any (fun i => (tag = .any ∨ tag = .tag i.1) ∧ ([] : Text) = i.2) := by
          rw [any_eq_true]
          rintro ⟨i, hi, hfound⟩
          exact hvalues items htag i hi (of_decide_eq_true hfound).2.symm
        rwa [if_neg hnone, if_pos rfl] at h
      · rw [hfold] at hempty
        rw [if_neg hempty, ite_eq_left_iff] at h
        have hmem : items.any _ = true := by_contra fun hn => by simpa using h hn
        refine absurd (any_eq_true.mpr ?_) hfound
        obtain ⟨i, hi, hval⟩ := any_eq_true.mp hmem
        simp only [decide_eq_true_eq] at hval
        exact ⟨i, hi, decide_eq_true ⟨hval.1, by rwa [ne_eq, hfold], hval.2 ▸ infix_rfl⟩⟩

/-- **What `find` finds is also found by `search`**, for songs without empty tag values. -/
theorem locateSongSearch_of_match {criteria : List LocateItem}
    (hfold : ∀ s, casefold s = [] ↔ s = [])
    (hvalues : ∀ items ∈ data.tag song, ∀ i ∈ items, i.2 ≠ [])
    (hany : ∀ item ∈ criteria, item.tag = .any → item.needle ≠ [])
    (h : locateSongMatch data song criteria = true) :
    locateSongSearch data casefold song (locateItemListCasefold casefold criteria) = true := by
  rw [locateSongSearch, locateItemListCasefold, all_map, all_eq_true]
  exact fun item hitem => locateTagSearch_of_match hfold hvalues (hany item hitem)
    (all_eq_true.mp h item hitem)

end Search

def artistData : SongData Unit where
  uri _ := "a".toList
  uri_ne_nil _ := by decide
  nul_notMem_uri _ := by decide
  tag _ := some [(.artist, "B".toList)]
  strayRead := false

theorem locateSongSearch_of_match_artist : locateSongSearch artistData (List.map Char.toLower) ()
      [⟨.tag .artist, "b".toList⟩, ⟨.tag .album, []⟩] = true :=
  have h : locateSongMatch artistData () [⟨.tag .artist, "B".toList⟩, ⟨.tag .album, []⟩] = true :=
    by decide
  locateSongSearch_of_match (fun _ => map_eq_nil_iff) (by decide) (by decide) h

/-! ### The array `visited_types` -/

def tagNumOfItemTypes : ℕ := 18

def LocateType.index : LocateType → ℕ
  | .tag type => type.ctorIdx
  | .file => tagNumOfItemTypes + 10
  | .any => tagNumOfItemTypes + 20

def sweep (found : TagType × Text → Bool) : List (TagType × Text) → List (TagType × Text)
  | [] => []
  | i :: items => if found i then [i] else i :: sweep found items

def visitedTypes (song : σ) (item : LocateItem) (inUri : Bool) (found : TagType × Text → Bool) :
    List ℕ :=
  if item.tag ∈ [LocateType.file, .any] ∧ inUri then []
  else if item.tag = .file then []
  else
    match data.tag song with
    | none => []
    | some items =>
      (sweep found items).map (fun i => i.1.ctorIdx) ++
        if !items.any found ∧ item.needle = [] then [item.tag.index] else []

def matchIndices (song : σ) (item : LocateItem) : List ℕ :=
  visitedTypes data song item (item.needle = data.uri song)
    fun i => (item.tag = .any ∨ item.tag = .tag i.1) ∧ item.needle = i.2

def searchIndices (casefold : Text → Text) (song : σ) (item : LocateItem) : List ℕ :=
  visitedTypes data song item (item.needle <:+: casefold (data.uri song))
    fun i => (item.tag = .any ∨ item.tag = .tag i.1) ∧ item.needle ≠ [] ∧
      item.needle <:+: casefold i.2

def criteriaIndices (met : LocateItem → Bool) (indices : LocateItem → List ℕ) :
    List LocateItem → List ℕ
  | [] => []
  | item :: criteria =>
    indices item ++ if met item then criteriaIndices met indices criteria else []

section Indices

variable {data} {casefold : Text → Text} {song : σ} {item : LocateItem} {inUri : Bool}
  {found : TagType × Text → Bool}

theorem TagType.ctorIdx_lt (type : TagType) : type.ctorIdx < tagNumOfItemTypes := by
  cases type <;> decide

theorem visitedTypes_lt_iff :
    (∀ n ∈ visitedTypes data song item inUri found, n < tagNumOfItemTypes) ↔
      (item.tag = .any → item.needle = [] → inUri = false →
        ∀ items ∈ data.tag song, ∃ i ∈ items, found i = true) := by
  have hsweep : ∀ items, ∀ n ∈ (sweep found items).map (fun i => i.1.ctorIdx),
      n < tagNumOfItemTypes := by
    intro items n hn
    obtain ⟨i, -, rfl⟩ := mem_map.mp hn
    exact i.1.ctorIdx_lt
  obtain ⟨tag, needle⟩ := item
  cases htag : data.tag song with
  | none => simp [visitedTypes, htag]
  | some items =>
    simp only [visitedTypes, htag, Option.mem_some_iff, forall_eq']
    cases tag with
    | file => simp
    | tag type =>
      refine iff_of_true ?_ fun h => by cases h
      rw [if_neg (by simp), if_neg (by simp), forall_mem_append]
      refine ⟨hsweep items, ?_⟩
      split
      · exact forall_mem_singleton.mpr type.ctorIdx_lt
      · simp
    | any =>
      cases inUri with
      | true => simp
      | false =>
        rw [if_neg (by simp), if_neg (by simp), forall_mem_append,
          and_iff_right (hsweep items), ← any_eq_true]
        by_cases hneedle : needle = [] <;> cases items.any found <;>
          simp [hneedle, LocateType.index]

theorem searchIndices_lt : ∀ n ∈ searchIndices data casefold song item, n < tagNumOfItemTypes := by
  refine visitedTypes_lt_iff.mpr fun _ hnil huri => ?_
  simp [hnil] at huri

theorem forall_criteriaIndices {met : LocateItem → Bool} {indices : LocateItem → List ℕ}
    {P : ℕ → Prop} {criteria : List LocateItem} :
    (∀ n ∈ criteriaIndices met indices criteria, P n) ↔
      ∀ before item behind, criteria = before ++ item :: behind → before.all met = true →
        ∀ n ∈ indices item, P n := by
  induction criteria with
  | nil => simp [criteriaIndices]
  | cons first criteria ih =>
    rw [criteriaIndices, forall_mem_append]
    constructor
    · rintro ⟨hfirst, hrest⟩ (_ | ⟨_, before⟩) item behind heq hmet
      · exact (cons.inj heq).1 ▸ hfirst
      · obtain ⟨rfl, rfl⟩ := cons.inj heq
        rw [all_cons, Bool.and_eq_true] at hmet
        rw [if_pos hmet.1] at hrest
        exact ih.mp hrest before item behind rfl hmet.2
    · intro h
      refine ⟨h [] first criteria rfl rfl, ?_⟩
      split
      · next hmet =>
        exact ih.mpr fun before item behind heq hbefore =>
          h (first :: before) item behind (congrArg _ heq) (by simp [hmet, hbefore])
      · simp

/-- **When all indices are within the array**: unless `any` comes with an empty string to find, for
a song that has a tag, but no empty value, and that meets the criteria in front. -/
theorem indices_lt_iff (data : SongData σ) (casefold : Text → Text) (song : σ)
    (criteria : List LocateItem) :
    (∀ n ∈ criteriaIndices (locateTagMatch data song) (matchIndices data song) criteria ++
        criteriaIndices (locateTagSearch data casefold song) (searchIndices data casefold song)
          criteria, n < tagNumOfItemTypes) ↔
      ∀ before behind, criteria = before ++ ⟨.any, []⟩ :: behind →
        locateSongMatch data song before = true →
          ∀ items ∈ data.tag song, ∃ i ∈ items, i.2 = [] := by
  rw [forall_mem_append, and_iff_left (forall_criteriaIndices.mpr
    fun _ _ _ _ _ => searchIndices_lt), forall_criteriaIndices]
  constructor
  · intro h before behind heq hmet items hitems
    obtain ⟨i, hi, hfound⟩ := visitedTypes_lt_iff.mp (h before _ behind heq hmet) rfl rfl
      (decide_eq_false (data.uri_ne_nil song).symm) items hitems
    exact ⟨i, hi, (of_decide_eq_true hfound).2.symm⟩
  · rintro h before ⟨tag, needle⟩ behind heq hmet
    refine visitedTypes_lt_iff.mpr fun htag hneedle _ items hitems => ?_
    obtain rfl : tag = .any := htag
    obtain rfl : needle = [] := hneedle
    obtain ⟨i, hi, hnil⟩ := h before behind heq hmet items hitems
    exact ⟨i, hi, by simp [hnil]⟩

end Indices

theorem any_empty_out_of_bounds : locateItemListParse ["any".toList, []] = some [⟨.any, []⟩] ∧
      ¬ ∀ n ∈ criteriaIndices (locateTagMatch artistData ()) (matchIndices artistData ())
        [⟨.any, []⟩], n < tagNumOfItemTypes :=
  ⟨rfl, by decide⟩

end Mpd
