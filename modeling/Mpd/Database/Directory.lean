import Mpd.General.Outcome
import Mpd.General.Text
import Mathlib.Data.List.Infix

/-!
# The database

The directory tree of `directory.c`, looking up directories and songs in it, and visiting its songs
(`directory_walk`, `simple_db_visit`).

A song is known by its URI, which `song_get_uri` builds from the path of its directory and its name.
In a `Database` every song is where its URI says, so that a song that is looked up by its URI is one
with that URI (`Database.uri_of_getSong`).
-/

def Text.cutLast (c : Char) (s : Text) : Option (Text × Text) :=
  if c ∈ s then
    some ((s.reverse.dropWhile (· ≠ c)).tail.reverse, (s.reverse.takeWhile (· ≠ c)).reverse)
  else none

theorem Text.eq_of_cutLast {c : Char} {s a b : Text} (h : Text.cutLast c s = some (a, b)) :
    s = a ++ c :: b := by
  rw [cutLast] at h
  split at h
  · next hmem =>
    cases h
    have hdrop : s.reverse.dropWhile (· ≠ c) = c :: (s.reverse.dropWhile (· ≠ c)).tail := by
      have hne : s.reverse.dropWhile (· ≠ c) ≠ [] := by
        rw [ne_eq, List.dropWhile_eq_nil_iff]
        intro hall
        exact of_decide_eq_true (hall c (List.mem_reverse.mpr hmem)) rfl
      have hhead := List.head_dropWhile_not (· ≠ c) hne
      rw [decide_eq_false_iff_not, not_not] at hhead
      conv_lhs => rw [← List.cons_head_tail hne, hhead]
    have hsplit := congrArg List.reverse (List.takeWhile_append_dropWhile (p := (· ≠ c))
      (l := s.reverse))
    rw [List.reverse_append, List.reverse_reverse, hdrop, List.reverse_cons, List.append_assoc,
      List.singleton_append] at hsplit
    exact hsplit.symm
  · cases h

namespace Mpd

open List

variable {σ : Type}

def uriHasScheme (uri : Text) : Bool :=
  decide ("://".toList <:+: uri)

inductive Directory (σ : Type)
  | mk (name : Text) (songs : List (Text × σ)) (children : List (Directory σ))

namespace Directory

def name : Directory σ → Text
  | mk name _ _ => name

def songs : Directory σ → List (Text × σ)
  | mk _ songs _ => songs

def children : Directory σ → List (Directory σ)
  | mk _ _ children => children

/-! ### Lookup -/

def getChild (d : Directory σ) (name : Text) : Option (Directory σ) :=
  d.children.find? fun child => child.name = name

def getSong (d : Directory σ) (name : Text) : Option σ :=
  (d.songs.find? fun entry => entry.1 = name).map Prod.snd

def lookupParts : List Text → Directory σ → Option (Directory σ)
  | [], _ => none
  | [name], d => d.getChild name
  | name :: parts, d => if name = [] then none else (d.getChild name).bind (lookupParts parts)

def isRootDirectory (uri : Text) : Bool :=
  uri = [] || uri = ['/']

def lookupDirectory (d : Directory σ) (uri : Text) : Option (Directory σ) :=
  if isRootDirectory uri then some d else lookupParts (uri.splitOn '/') d

def lookupSong (d : Directory σ) (uri : Text) : Option σ :=
  match Text.cutLast '/' uri with
  | some (path, base) => (d.lookupDirectory path).bind (getSong · base)
  | none => d.getSong uri

/-! ### Where things are -/

def buildFilename : Option Text → Text → Text
  | none, name => name
  | some path, name => path ++ '/' :: name

inductive At (root : Directory σ) : Option Text → Directory σ → Prop
  | root : At root none root
  | child {path : Option Text} {d child : Directory σ} (h : At root path d)
      (hchild : child ∈ d.children) : At root (some (buildFilename path child.name)) child

variable {root d d' : Directory σ} {path : Option Text}

theorem At.getChild {name : Text} (h : At root path d) (hget : d.getChild name = some d') :
    At root (some (buildFilename path name)) d' := by
  obtain rfl : d'.name = name := by simpa using find?_some hget
  exact h.child (mem_of_find?_eq_some hget)

theorem mem_songs_of_getSong {name : Text} {song : σ} (h : d.getSong name = some song) :
    (name, song) ∈ d.songs := by
  obtain ⟨entry, hentry, rfl⟩ := Option.map_eq_some_iff.mp h
  obtain rfl : entry.1 = name := by simpa using find?_some hentry
  exact mem_of_find?_eq_some hentry

theorem At.lookupParts {name : Text} {parts : List Text} (h : At root path d)
    (hlookup : lookupParts (name :: parts) d = some d') :
    At root (some (buildFilename path (['/'].intercalate (name :: parts)))) d' := by
  induction parts generalizing name path d with
  | nil =>
    rw [intercalate_singleton]
    exact h.getChild hlookup
  | cons next parts ih =>
    rw [Directory.lookupParts.eq_def] at hlookup
    simp only at hlookup
    split at hlookup
    · cases hlookup
    · obtain ⟨child, hchild, hnext⟩ := Option.bind_eq_some_iff.mp hlookup
      have hdown := ih (h.getChild hchild) hnext
      rw [intercalate_cons_cons]
      cases path with
      | none =>
        simpa only [buildFilename, append_assoc, cons_append, nil_append] using hdown
      | some path =>
        simpa only [buildFilename, append_assoc, cons_append, nil_append] using hdown

theorem at_of_lookupDirectory {uri : Text} (hslash : uri.head? ≠ some '/')
    (h : root.lookupDirectory uri = some d) :
    uri = [] ∧ d = root ∨ uri ≠ [] ∧ At root (some uri) d := by
  rw [lookupDirectory] at h
  split at h
  · next hroot =>
    rw [isRootDirectory, Bool.or_eq_true, decide_eq_true_eq, decide_eq_true_eq] at hroot
    obtain rfl | rfl := hroot
    · exact .inl ⟨rfl, (Option.some.inj h).symm⟩
    · exact absurd rfl hslash
  · next hroot =>
    refine .inr ⟨fun hnil => hroot (by rw [hnil]; rfl), ?_⟩
    obtain ⟨name, parts, hparts⟩ := exists_cons_of_ne_nil (splitOn_ne_nil '/' uri)
    rw [hparts] at h
    have hat := At.root.lookupParts h
    rw [← hparts, intercalate_splitOn] at hat
    exact hat

end Directory

/-- The database: every song is where its URI says. -/
structure Database (uri : σ → Text) where
  root : Directory σ
  uri_eq : ∀ {path d}, root.At path d → ∀ entry ∈ d.songs,
    uri entry.2 = Directory.buildFilename path entry.1

namespace Database

variable {uri : σ → Text}

def getSong (db : Option (Database uri)) (file : Text) : Option σ :=
  db.bind fun db => db.root.lookupSong file

/-- **A song is found by its URI only.** -/
theorem uri_of_getSong {db : Option (Database uri)} {file : Text} {song : σ}
    (hslash : file.head? ≠ some '/') (h : getSong db file = some song) : uri song = file := by
  obtain ⟨db, rfl, hsong⟩ := Option.bind_eq_some_iff.mp h
  rw [Directory.lookupSong] at hsong
  cases hcut : Text.cutLast '/' file with
  | none =>
    rw [hcut] at hsong
    exact db.uri_eq .root _ (Directory.mem_songs_of_getSong hsong)
  | some parts =>
    obtain ⟨path, base⟩ := parts
    rw [hcut] at hsong
    obtain ⟨d, hd, hbase⟩ := Option.bind_eq_some_iff.mp hsong
    obtain rfl := Text.eq_of_cutLast hcut
    cases path with
    | nil => exact absurd rfl hslash
    | cons ch path =>
      have hhead : (ch :: path).head? ≠ some '/' := hslash
      obtain ⟨hnil, -⟩ | ⟨-, hat⟩ := Directory.at_of_lookupDirectory hhead hd
      · cases hnil
      · exact db.uri_eq hat _ (Directory.mem_songs_of_getSong hbase)

end Database

/-! ### Visiting songs -/

section Walk

variable {ε St : Type} (visit : σ → St → Except ε (ℤ × St))

def visitSongs : List σ → St → Except ε (ℤ × St)
  | [], st => .ok (0, st)
  | song :: songs, st => do
    let (ret, st) ← visit song st
    if ret ≠ 0 then pure (ret, st) else visitSongs songs st

mutual

def directoryWalk : Directory σ → St → Except ε (ℤ × St)
  | .mk _ songs children, st => do
    let (ret, st) ← visitSongs visit (songs.map Prod.snd) st
    if ret ≠ 0 then pure (ret, st) else walkChildren children st

def walkChildren : List (Directory σ) → St → Except ε (ℤ × St)
  | [], st => .ok (0, st)
  | child :: children, st => do
    let (ret, st) ← directoryWalk child st
    if ret ≠ 0 then pure (ret, st) else walkChildren children st

end

mutual

def Directory.allSongs : Directory σ → List σ
  | .mk _ songs children => songs.map Prod.snd ++ Directory.allSongsOf children

def Directory.allSongsOf : List (Directory σ) → List σ
  | [] => []
  | child :: children => child.allSongs ++ Directory.allSongsOf children

end

theorem visitSongs_append (songs songs' : List σ) (st : St) :
    visitSongs visit (songs ++ songs') st = (do
      let (ret, st) ← visitSongs visit songs st
      if ret ≠ 0 then pure (ret, st) else visitSongs visit songs' st) := by
  induction songs generalizing st with
  | nil => rfl
  | cons song songs ih =>
    rw [cons_append, visitSongs, visitSongs]
    cases visit song st with
    | error e => rfl
    | ok r =>
      obtain ⟨ret, st⟩ := r
      by_cases hret : ret = 0
      · simpa only [hret, Except.ok_bind, ne_eq, not_true_eq_false, if_false] using ih st
      · simp [hret]

mutual

theorem directoryWalk_eq : ∀ (d : Directory σ) (st : St),
    directoryWalk visit d st = visitSongs visit d.allSongs st
  | .mk _ songs children, st => by
    rw [directoryWalk, Directory.allSongs, visitSongs_append]
    simp only [walkChildren_eq children]

theorem walkChildren_eq : ∀ (children : List (Directory σ)) (st : St),
    walkChildren visit children st = visitSongs visit (Directory.allSongsOf children) st
  | [], st => by rw [walkChildren, Directory.allSongsOf, visitSongs]
  | child :: children, st => by
    rw [walkChildren, Directory.allSongsOf, visitSongs_append]
    simp only [directoryWalk_eq child, walkChildren_eq children]

end

end Walk

end Mpd
