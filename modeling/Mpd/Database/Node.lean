import Mathlib.Data.List.Nodup
import Mpd.Database.Tag

/-!
# Directories in memory

`directory.c` and `song.c` as they are in memory: every directory and every song knows the directory
that lists it by a pointer, and a directory stores its whole path. Its name is what comes behind the
last slash of the path.

In a tree whose paths and pointers fit together (`WellFormed`), looking up the path of a directory
or the URI of a song leads there (`WellFormed.finds_everything`).
-/

namespace Text

variable {c : Char} {s t : Text}

theorem cutLast_eq_none (h : c ∉ s) : cutLast c s = none :=
  if_neg h

theorem cutLast_append (h : c ∉ t) : cutLast c (s ++ c :: t) = some (s, t) := by
  have htake : ∀ ch ∈ t.reverse, (decide (ch ≠ c)) = true := fun ch hch =>
    decide_eq_true fun heq => h (heq ▸ List.mem_reverse.mp hch)
  rw [cutLast, if_pos (by simp), List.reverse_append, List.reverse_cons, List.append_assoc,
    List.singleton_append, List.dropWhile_append_of_pos htake, List.takeWhile_append_of_pos htake]
  simp

end Text

namespace Mpd

open List

abbrev Address : Type := ℕ

/-- `struct song`. -/
structure Song where
  uri : Text
  parent : Option Address
  tag : Option Tag
  mtime : Int64
  startMs : UInt32
  endMs : UInt32

/-- `struct playlist_metadata`. -/
structure PlaylistMetadata where
  name : Text
  mtime : Int64

/-- `struct directory`, and where it is. What identifies a directory of the file system is left
out. -/
structure Node where
  address : Address
  path : Text
  parent : Option Address
  mtime : Int64
  children : List Node
  songs : List Song
  playlists : List PlaylistMetadata

namespace Node

variable {d n root : Node}

theorem induction {P : Node → Prop} (step : ∀ d : Node, (∀ c ∈ d.children, P c) → P d)
    (d : Node) : P d :=
  @Node.rec P (fun l => ∀ c ∈ l, P c) (fun _ _ _ _ _ _ _ ih => step _ ih)
    (fun _ hc => nomatch hc) (fun _ _ hc ih => forall_mem_cons.mpr ⟨hc, ih⟩) d

/-! ### Directories and songs -/

def isRoot (d : Node) : Bool :=
  d.parent.isNone

def name (d : Node) : Text :=
  match Text.cutLast '/' d.path with
  | some (_, base) => base
  | none => d.path

def childPath (d : Node) (name : Text) : Text :=
  if d.isRoot then name else d.path ++ '/' :: name

def newRoot (address : Address) : Node where
  address := address
  path := []
  parent := none
  mtime := 0
  children := []
  songs := []
  playlists := []

def newChild (d : Node) (address : Address) (name : Text) : Node where
  address := address
  path := d.childPath name
  parent := some d.address
  mtime := 0
  children := []
  songs := []
  playlists := []

def addChild (d child : Node) : Node :=
  { d with children := d.children ++ [child] }

def delete (d child : Node) : Node :=
  { d with children := d.children.filter fun c => c.address ≠ child.address }

def update (d child : Node) : Node :=
  { d with children := d.children.map fun c => if c.address = child.address then child else c }

def getChild (d : Node) (name : Text) : Option Node :=
  d.children.find? fun child => child.name = name

def addSong (d : Node) (song : Song) : Node :=
  { d with songs := d.songs ++ [song] }

def getSong (d : Node) (name : Text) : Option Song :=
  d.songs.find? fun song => song.uri = name

def lookupParts : List Text → Node → Option Node
  | [], _ => none
  | [name], d => d.getChild name
  | name :: parts, d => if name = [] then none else (d.getChild name).bind (lookupParts parts)

def lookupDirectory (d : Node) (uri : Text) : Option Node :=
  if Directory.isRootDirectory uri then some d else lookupParts (uri.splitOn '/') d

def lookupSong (d : Node) (uri : Text) : Option Song :=
  match Text.cutLast '/' uri with
  | some (path, base) => (d.lookupDirectory path).bind (getSong · base)
  | none => d.getSong uri

/-! ### The tree -/

mutual

def nodes : Node → List Node
  | ⟨address, path, parent, mtime, children, songs, playlists⟩ =>
    ⟨address, path, parent, mtime, children, songs, playlists⟩ :: nodesOf children

def nodesOf : List Node → List Node
  | [] => []
  | child :: children => child.nodes ++ nodesOf children

end

theorem nodes_eq (d : Node) : d.nodes = d :: nodesOf d.children := by
  cases d
  rw [nodes]

@[simp]
theorem nodesOf_nil : nodesOf [] = [] := by
  rw [nodesOf]

@[simp]
theorem nodesOf_cons (child : Node) (children : List Node) :
    nodesOf (child :: children) = child.nodes ++ nodesOf children := by
  rw [nodesOf]

@[simp]
theorem nodesOf_append (l l' : List Node) : nodesOf (l ++ l') = nodesOf l ++ nodesOf l' := by
  induction l with
  | nil => rw [nil_append, nodesOf_nil, nil_append]
  | cons child l ih => rw [cons_append, nodesOf_cons, nodesOf_cons, ih, append_assoc]

theorem mem_nodesOf {l : List Node} : n ∈ nodesOf l ↔ ∃ c ∈ l, n ∈ c.nodes := by
  induction l with
  | nil => simp
  | cons child l ih => rw [nodesOf_cons, mem_append, ih, exists_mem_cons_iff]

theorem mem_nodes : n ∈ d.nodes ↔ n = d ∨ ∃ c ∈ d.children, n ∈ c.nodes := by
  rw [nodes_eq, mem_cons, mem_nodesOf]

theorem self_mem_nodes (d : Node) : d ∈ d.nodes :=
  mem_nodes.mpr (.inl rfl)

def deref (root : Node) (address : Address) : Option Node :=
  root.nodes.find? fun d => d.address = address

def songGetUri (root : Node) (song : Song) : Text :=
  match song.parent.bind root.deref with
  | some d => d.childPath song.uri
  | none => song.uri

/-! ### Well-formed trees -/

/-- The names in a directory: not empty, without a slash, and different from each other. Every
subdirectory and every song knows the directory, and the path of a subdirectory is that of the
directory, a slash and its name. -/
structure Tidy (d : Node) : Prop where
  names : (d.children.map Node.name).Nodup
  songNames : (d.songs.map Song.uri).Nodup
  child_name : ∀ c ∈ d.children, c.name ≠ [] ∧ '/' ∉ c.name
  child_path : ∀ c ∈ d.children, c.path = d.childPath c.name
  child_parent : ∀ c ∈ d.children, c.parent = some d.address
  song_name : ∀ s ∈ d.songs, s.uri ≠ [] ∧ '/' ∉ s.uri
  song_parent : ∀ s ∈ d.songs, s.parent = some d.address

/-- A root directory, and everything below it. -/
structure WellFormed (root : Node) : Prop where
  path : root.path = []
  parent : root.parent = none
  tidy : ∀ d ∈ root.nodes, d.Tidy
  addresses : (root.nodes.map Node.address).Nodup

theorem name_eq {name : Text} (hname : '/' ∉ name) (h : n.path = d.childPath name) :
    n.name = name := by
  rw [Node.name, h, childPath]
  cases d.isRoot with
  | true => rw [if_pos rfl, Text.cutLast_eq_none hname]
  | false => rw [if_neg Bool.false_ne_true, Text.cutLast_append hname]

theorem childPath_append (d : Node) (name rest : Text) :
    d.childPath (name ++ '/' :: rest) = d.childPath name ++ '/' :: rest := by
  rw [childPath, childPath]
  split
  · rfl
  · rw [append_assoc, cons_append]

/-! ### Looking up -/

private theorem find?_of_nodup {α β : Type} [DecidableEq β] {f : α → β} {l : List α} {a : α}
    (h : (l.map f).Nodup) (ha : a ∈ l) : (l.find? fun x => f x = f a) = some a := by
  induction l with
  | nil => cases ha
  | cons x l ih =>
    rw [map_cons, nodup_cons] at h
    obtain rfl | hmem := mem_cons.mp ha
    · exact find?_cons_of_pos (decide_eq_true rfl)
    · have hne : f x ≠ f a := fun heq => h.1 (heq ▸ mem_map_of_mem hmem)
      rw [find?_cons_of_neg (by simpa using hne)]
      exact ih h.2 hmem

theorem Tidy.getChild_name {c : Node} (h : d.Tidy) (hc : c ∈ d.children) :
    d.getChild c.name = some c :=
  find?_of_nodup h.names hc

theorem Tidy.getSong_uri {s : Song} (h : d.Tidy) (hs : s ∈ d.songs) : d.getSong s.uri = some s :=
  find?_of_nodup h.songNames hs

theorem exists_parts (h : ∀ n ∈ d.nodes, n.Tidy) (hn : n ∈ d.nodes) :
    n = d ∨ n.isRoot = false ∧ ∃ name parts, lookupParts (name :: parts) d = some n ∧
      n.path = d.childPath (['/'].intercalate (name :: parts)) ∧
      ∀ part ∈ name :: parts, part ≠ [] ∧ '/' ∉ part := by
  induction d using Node.induction with
  | step d ih =>
    obtain rfl | ⟨c, hc, hn⟩ := mem_nodes.mp hn
    · exact .inl rfl
    · right
      have hd : d.Tidy := h d d.self_mem_nodes
      have hget := hd.getChild_name hc
      have hroot : c.isRoot = false := by rw [isRoot, hd.child_parent c hc]; rfl
      have hbelow : ∀ m ∈ c.nodes, m.Tidy := fun m hm => h m (mem_nodes.mpr (.inr ⟨c, hc, hm⟩))
      obtain rfl | ⟨hnroot, name, parts, hlookup, hpath, hparts⟩ := ih c hc hbelow hn
      · refine ⟨hroot, n.name, [], hget, ?_, by simpa using hd.child_name n hc⟩
        rw [intercalate_singleton]
        exact hd.child_path n hc
      · refine ⟨hnroot, c.name, name :: parts, ?_, ?_,
          forall_mem_cons.mpr ⟨hd.child_name c hc, hparts⟩⟩
        · rw [Node.lookupParts.eq_def]
          simp only [if_neg (hd.child_name c hc).1, hget]
          exact hlookup
        · rw [hpath, childPath, hroot, if_neg Bool.false_ne_true, hd.child_path c hc,
            ← childPath_append, intercalate_cons_cons, append_assoc]
          rfl

theorem isRootDirectory_intercalate {name : Text} {parts : List Text}
    (h : ∀ part ∈ name :: parts, part ≠ [] ∧ '/' ∉ part) :
    Directory.isRootDirectory (['/'].intercalate (name :: parts)) = false := by
  obtain ⟨hne, hslash⟩ := h name mem_cons_self
  obtain ⟨ch, rest, hname⟩ := exists_cons_of_ne_nil hne
  have hch : ch ≠ '/' := fun heq => hslash (by rw [hname, heq]; exact mem_cons_self)
  have hcons : ∃ rest', ['/'].intercalate (name :: parts) = ch :: rest' := by
    cases parts with
    | nil => exact ⟨rest, by rw [intercalate_singleton, hname]⟩
    | cons part parts =>
      rw [intercalate_cons_cons, hname]
      exact ⟨_, rfl⟩
  obtain ⟨rest', hrest⟩ := hcons
  simp [Directory.isRootDirectory, hrest, hch]

namespace WellFormed

variable (h : root.WellFormed)

include h

theorem isRoot : root.isRoot = true := by
  rw [Node.isRoot, h.parent]
  rfl

theorem childPath_eq (name : Text) : root.childPath name = name := by
  rw [childPath, h.isRoot, if_pos rfl]

theorem lookupDirectory_path (hd : d ∈ root.nodes) : root.lookupDirectory d.path = some d := by
  obtain rfl | ⟨-, name, parts, hlookup, hpath, hparts⟩ := exists_parts h.tidy hd
  · rw [h.path]
    rfl
  · rw [h.childPath_eq] at hpath
    rw [lookupDirectory, hpath, isRootDirectory_intercalate hparts, if_neg Bool.false_ne_true,
      splitOn_intercalate _ (fun part hpart => (hparts part hpart).2) (cons_ne_nil _ _)]
    exact hlookup

theorem deref_address (hd : d ∈ root.nodes) : root.deref d.address = some d :=
  find?_of_nodup h.addresses hd

theorem songGetUri_eq {s : Song} (hd : d ∈ root.nodes) (hs : s ∈ d.songs) :
    root.songGetUri s = d.childPath s.uri := by
  rw [songGetUri, (h.tidy d hd).song_parent s hs, Option.bind_some, h.deref_address hd]

theorem lookupSong_uri {s : Song} (hd : d ∈ root.nodes) (hs : s ∈ d.songs) :
    root.lookupSong (root.songGetUri s) = some s := by
  have hslash := ((h.tidy d hd).song_name s hs).2
  have hget := (h.tidy d hd).getSong_uri hs
  rw [h.songGetUri_eq hd hs, childPath, lookupSong]
  obtain rfl | ⟨hroot, -⟩ := exists_parts h.tidy hd
  · rw [h.isRoot, if_pos rfl, Text.cutLast_eq_none hslash]
    exact hget
  · rw [hroot, if_neg Bool.false_ne_true, Text.cutLast_append hslash]
    dsimp only
    rw [h.lookupDirectory_path hd, Option.bind_some]
    exact hget

theorem nodup_nodes : root.nodes.Nodup :=
  List.Nodup.of_map _ h.addresses

theorem nodup_songs : (root.nodes.flatMap Node.songs).Nodup := by
  rw [nodup_flatMap]
  refine ⟨fun d hd => List.Nodup.of_map _ (h.tidy d hd).songNames, ?_⟩
  refine h.nodup_nodes.imp_of_mem fun {d d'} hd hd' hne => ?_
  refine disjoint_left.mpr fun s hs hs' => ?_
  have hparent := ((h.tidy d hd).song_parent s hs).symm.trans ((h.tidy d' hd').song_parent s hs')
  have hderef := h.deref_address hd
  rw [Option.some.inj hparent, h.deref_address hd'] at hderef
  exact hne (Option.some.inj hderef).symm

/-- **Everything in the tree is found**: a directory by its path, and a song by its URI. No two
directories have the same path, and no two songs the same URI. -/
theorem finds_everything : (∀ d ∈ root.nodes, root.lookupDirectory d.path = some d) ∧
      (∀ d ∈ root.nodes, ∀ s ∈ d.songs, root.lookupSong (root.songGetUri s) = some s) ∧
      (root.nodes.map Node.path).Nodup ∧
      ((root.nodes.flatMap Node.songs).map root.songGetUri).Nodup := by
  refine ⟨fun d hd => h.lookupDirectory_path hd, fun d hd s hs => h.lookupSong_uri hd hs, ?_, ?_⟩
  · refine List.Nodup.map_on (fun d hd d' hd' heq => ?_) h.nodup_nodes
    have hlookup := h.lookupDirectory_path hd
    rw [heq, h.lookupDirectory_path hd'] at hlookup
    exact (Option.some.inj hlookup).symm
  · refine List.Nodup.map_on (fun s hs s' hs' heq => ?_) h.nodup_songs
    obtain ⟨d, hd, hs⟩ := mem_flatMap.mp hs
    obtain ⟨d', hd', hs'⟩ := mem_flatMap.mp hs'
    have hlookup := h.lookupSong_uri hd hs
    rw [heq, h.lookupSong_uri hd' hs'] at hlookup
    exact (Option.some.inj hlookup).symm

end WellFormed

instance (d : Node) : Decidable d.Tidy :=
  decidable_of_iff ((d.children.map Node.name).Nodup ∧ (d.songs.map Song.uri).Nodup ∧
      (∀ c ∈ d.children, (c.name ≠ [] ∧ '/' ∉ c.name) ∧ c.path = d.childPath c.name ∧
        c.parent = some d.address) ∧
      ∀ s ∈ d.songs, (s.uri ≠ [] ∧ '/' ∉ s.uri) ∧ s.parent = some d.address)
    ⟨fun ⟨h₁, h₂, h₃, h₄⟩ => ⟨h₁, h₂, fun c hc => (h₃ c hc).1, fun c hc => (h₃ c hc).2.1,
        fun c hc => (h₃ c hc).2.2, fun s hs => (h₄ s hs).1, fun s hs => (h₄ s hs).2⟩,
      fun h => ⟨h.names, h.songNames,
        fun c hc => ⟨h.child_name c hc, h.child_path c hc, h.child_parent c hc⟩,
        fun s hs => ⟨h.song_name s hs, h.song_parent s hs⟩⟩⟩

def sample : Node :=
  ⟨0, [], none, 0, [⟨1, "a".toList, some 0, 7,
      [⟨2, "a/b".toList, some 1, 8, [], [⟨"s".toList, some 2, none, 9, 0, 0⟩], []⟩], [], []⟩],
    [⟨"s".toList, some 0, none, 5, 0, 0⟩], []⟩

theorem wellFormed_sample : sample.WellFormed where
  path := rfl
  parent := rfl
  tidy := by decide
  addresses := by decide

theorem finds_everything_sample : sample.lookupDirectory "a/b".toList ≠ none ∧
      (sample.nodes.map Node.path).Nodup ∧
      ((sample.nodes.flatMap Node.songs).map sample.songGetUri).Nodup := by
  obtain ⟨hdirectory, -, hpaths, huris⟩ := wellFormed_sample.finds_everything
  refine ⟨fun hnone => ?_, hpaths, huris⟩
  have hfound : ∃ d ∈ sample.nodes, d.path = "a/b".toList := by decide
  obtain ⟨d, hd, hpath⟩ := hfound
  have hsome := hdirectory d hd
  rw [hpath, hnone] at hsome
  cases hsome

end Node

end Mpd
