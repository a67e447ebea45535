import Mpd.Database.SimpleDb

/-!
# What loading a database preserves

Whatever lines `simple_db_directory_load` reads, as long as the names in them are not empty and have
no slash, it returns, and the tree is well formed: names are different in each directory, pointers
lead to the directories that list things, and paths are made of names. A nested load that fails
makes every enclosing one fail with the same error, and only directories that have been loaded
completely remain (`directoryLoad_sound`).

The invariant is `Sound`. What one line preserves is said by `Grows`, which is transitive; what the
loop preserves follows by induction on its rounds, as does what a nested load preserves.
-/

namespace Mpd

open List

namespace SimpleDb

open Node

/-- The names in the line are those of directory entries. -/
def NamesOk (line : Text) : Prop :=
  ∀ label ∈ [directoryDir, songBegin], ∀ name ∈ Text.behind label line, name ≠ [] ∧ '/' ∉ name
  deriving Decidable

def Returned (error : Option DbError) (returns : List Return) : Prop :=
  ∃ early late, returns = early ++ late ∧ (∀ r ∈ early, r.error = none) ∧
    ∀ r ∈ late, r.error = error

theorem Returned.append {error : Option DbError} {returns : List Return}
    (h : Returned error returns) {r : Return} (hr : r.error = error) :
    Returned error (returns ++ [r]) := by
  obtain ⟨early, late, rfl, hearly, hlate⟩ := h
  refine ⟨early, late ++ [r], append_assoc _ _ _, hearly, ?_⟩
  rw [forall_mem_append]
  exact ⟨hlate, forall_mem_singleton.mpr hr⟩

theorem Returned.of_none {returns : List Return} (h : Returned none returns)
    (error : Option DbError) : Returned error returns := by
  obtain ⟨early, late, rfl, hearly, hlate⟩ := h
  refine ⟨early ++ late, [], (append_nil _).symm, ?_, fun _ hr => nomatch hr⟩
  rw [forall_mem_append]
  exact ⟨hearly, hlate⟩

theorem Returned.pairwise {error : Option DbError} {returns : List Return}
    (h : Returned error returns) :
    returns.Pairwise fun a b => a.error ≠ none → b.error = a.error := by
  obtain ⟨early, late, rfl, hearly, hlate⟩ := h
  rw [pairwise_append]
  refine ⟨?_, ?_, fun a ha b _ hne => absurd (hearly a ha) hne⟩
  · exact pairwise_of_forall_mem_list fun a ha _ _ hne => absurd (hearly a ha) hne
  · exact pairwise_of_forall_mem_list fun a ha b hb _ => (hlate b hb).trans (hlate a ha).symm

/-- The directory `d` while it is being loaded. -/
structure Sound (d : Node) (st : Loading) : Prop where
  tidy : d.Tidy
  below : ∀ n ∈ nodesOf d.children, n.Tidy
  addresses : (d.nodes.map Node.address).Nodup
  fresh : ∀ n ∈ d.nodes, n.address < st.next
  /-- what is below the directory has been loaded completely -/
  complete : ∀ n ∈ nodesOf d.children, .load n.address none ∈ st.returns

/-- What loading does to a directory. -/
structure Grows (d : Node) (st : Loading) (error : Option DbError) (d' : Node) (st' : Loading) :
    Prop where
  address : d'.address = d.address
  path : d'.path = d.path
  parent : d'.parent = d.parent
  sound : Sound d' st'
  next : st.next ≤ st'.next
  lines : st'.lines <:+ st.lines
  returns : st.returns <+: st'.returns
  returned : Returned error st'.returns
  new : ∀ n ∈ nodesOf d'.children, n ∈ nodesOf d.children ∨ st.next ≤ n.address

variable {d d' d'' child : Node} {st st' st'' : Loading} {error : Option DbError} {name : Text}

theorem Grows.trans (h : Grows d st none d' st') (h' : Grows d' st' error d'' st'') :
    Grows d st error d'' st'' where
  address := h'.address.trans h.address
  path := h'.path.trans h.path
  parent := h'.parent.trans h.parent
  sound := h'.sound
  next := h.next.trans h'.next
  lines := h'.lines.trans h.lines
  returns := h.returns.trans h'.returns
  returned := h'.returned
  new n hn := (h'.new n hn).elim (h.new n) fun hle => .inr (h.next.trans hle)

theorem Sound.grows (h : Sound d st) (hret : Returned none st.returns) (error : Option DbError)
    {lines : List Text} (hlines : lines <:+ st.lines) {next : Address} (hnext : st.next ≤ next) :
    Grows d st error d { st with lines := lines, next := next } where
  address := rfl
  path := rfl
  parent := rfl
  sound := ⟨h.tidy, h.below, h.addresses, fun n hn => (h.fresh n hn).trans_le hnext, h.complete⟩
  next := hnext
  lines := hlines
  returns := prefix_rfl
  returned := hret.of_none error
  new _ hn := .inl hn

theorem Grows.logged (h : Grows d st error d' st') {r : Return} (hr : r.error = error) :
    Grows d st error d' (st'.returned r) where
  address := h.address
  path := h.path
  parent := h.parent
  sound := ⟨h.sound.tidy, h.sound.below, h.sound.addresses, h.sound.fresh, fun n hn =>
    mem_append_left _ (h.sound.complete n hn)⟩
  next := h.next
  lines := h.lines
  returns := h.returns.trans (prefix_append _ _)
  returned := h.returned.append hr
  new := h.new

/-! ### Songs and playlists -/

section Songs

theorem playlistLoad_suffix (mtime : Int64) (lines : List Text) :
    (playlistLoad mtime lines).2 <:+ lines := by
  induction lines generalizing mtime with
  | nil => exact suffix_rfl
  | cons line lines ih =>
    rw [playlistLoad]
    split
    · exact suffix_cons _ _
    · split
      · split
        · exact (ih _).trans (suffix_cons _ _)
        · exact suffix_cons _ _
      · exact suffix_cons _ _

theorem headRead_eq (child : Node) (lines : List Text) : (headRead child lines).2 <:+ lines ∧
      ∀ child', (headRead child lines).1 = .ok child' →
        ∃ mtime, child' = { child with mtime := mtime } := by
  have hbegin : ∀ child lines, (beginRead child lines).2 <:+ lines ∧
      ∀ child', (beginRead child lines).1 = .ok child' → child' = child := by
    intro child lines
    cases lines with
    | nil => exact ⟨suffix_rfl, fun _ h => nomatch h⟩
    | cons line lines =>
      rw [beginRead]
      split
      · exact ⟨suffix_cons _ _, fun _ h => (Except.ok.inj h).symm⟩
      · exact ⟨suffix_cons _ _, fun _ h => nomatch h⟩
  cases lines with
  | nil => exact ⟨suffix_rfl, fun _ h => nomatch h⟩
  | cons line lines =>
    rw [headRead]
    split
    · exact ⟨(hbegin _ lines).1.trans (suffix_cons _ _),
        fun child' h => ⟨_, (hbegin _ lines).2 child' h⟩⟩
    · refine ⟨(hbegin _ _).1, fun child' h => ⟨child.mtime, ?_⟩⟩
      rw [(hbegin _ _).2 child' h]
      cases child
      rfl

variable [Utf8] {config : DbConfig} {song song' : Song}

theorem songSet_eq {key value : Text} (h : songSet config song key value = some song') :
    song'.uri = song.uri ∧ song'.parent = song.parent := by
  rw [songSet] at h
  split at h
  · cases h
    exact ⟨rfl, rfl⟩
  · split_ifs at h
    · cases h
      exact ⟨rfl, rfl⟩
    · cases h
      exact ⟨rfl, rfl⟩
    · cases h
      exact ⟨rfl, rfl⟩
    · split at h
      · cases h
        exact ⟨rfl, rfl⟩
      · cases h
        exact ⟨rfl, rfl⟩

theorem songLoad_eq (config : DbConfig) (song : Song) (lines : List Text) :
    (songLoad config song lines).2 <:+ lines ∧
      ∀ song' ∈ (songLoad config song lines).1,
        song'.uri = song.uri ∧ song'.parent = song.parent := by
  induction lines generalizing song with
  | nil =>
    refine ⟨suffix_rfl, fun song' h => ?_⟩
    cases h
    exact ⟨rfl, rfl⟩
  | cons line lines ih =>
    rw [songLoad]
    split
    · refine ⟨suffix_cons _ _, fun song' h => ?_⟩
      cases h
      exact ⟨rfl, rfl⟩
    · split
      · next song₁ hset =>
        obtain ⟨⟨key, value⟩, -, hset⟩ := Option.bind_eq_some_iff.mp hset
        obtain ⟨huri, hparent⟩ := songSet_eq hset
        refine ⟨(ih song₁).1.trans (suffix_cons _ _), fun song' h => ?_⟩
        obtain ⟨huri', hparent'⟩ := (ih song₁).2 song' h
        exact ⟨huri'.trans huri, hparent'.trans hparent⟩
      · exact ⟨suffix_cons _ _, fun _ h => nomatch h⟩

end Songs

/-! ### Changes of a directory -/

theorem tidy_addSong (h : d.Tidy) {song : Song} (hnew : d.getSong song.uri = none)
    (hname : song.uri ≠ [] ∧ '/' ∉ song.uri) (hparent : song.parent = some d.address) :
    (d.addSong song).Tidy where
  names := h.names
  songNames := by
    rw [Node.getSong, find?_eq_none] at hnew
    rw [addSong, map_append, map_singleton]
    refine h.songNames.append (nodup_singleton _) ?_
    rw [disjoint_singleton, mem_map]
    rintro ⟨s, hs, heq⟩
    exact hnew s hs (decide_eq_true heq)
  child_name := h.child_name
  child_path := h.child_path
  child_parent := h.child_parent
  song_name := by
    rw [addSong, forall_mem_append, forall_mem_singleton]
    exact ⟨h.song_name, hname⟩
  song_parent := by
    rw [addSong, forall_mem_append, forall_mem_singleton]
    exact ⟨h.song_parent, hparent⟩

theorem tidy_addChild (h : d.Tidy) (hnew : d.getChild child.name = none)
    (hname : child.name ≠ [] ∧ '/' ∉ child.name) (hpath : child.path = d.childPath child.name)
    (hparent : child.parent = some d.address) : (d.addChild child).Tidy where
  names := by
    rw [Node.getChild, find?_eq_none] at hnew
    rw [addChild, map_append, map_singleton]
    refine h.names.append (nodup_singleton _) ?_
    rw [disjoint_singleton, mem_map]
    rintro ⟨c, hc, heq⟩
    exact hnew c hc (decide_eq_true heq)
  songNames := h.songNames
  child_name := by
    rw [addChild, forall_mem_append, forall_mem_singleton]
    exact ⟨h.child_name, hname⟩
  child_path := by
    rw [addChild, forall_mem_append, forall_mem_singleton]
    exact ⟨h.child_path, hpath⟩
  child_parent := by
    rw [addChild, forall_mem_append, forall_mem_singleton]
    exact ⟨h.child_parent, hparent⟩
  song_name := h.song_name
  song_parent := h.song_parent

theorem Grows.of_children (h : Grows d st error d' st') (hchildren : d''.children = d'.children)
    (haddress : d''.address = d'.address) (hpath : d''.path = d'.path)
    (hparent : d''.parent = d'.parent) (htidy : d''.Tidy) : Grows d st error d'' st' where
  address := haddress.trans h.address
  path := hpath.trans h.path
  parent := hparent.trans h.parent
  sound := by
    refine ⟨htidy, ?_, ?_, ?_, ?_⟩
    · rw [hchildren]
      exact h.sound.below
    · rw [nodes_eq, hchildren, map_cons, haddress]
      have haddresses := h.sound.addresses
      rwa [nodes_eq, map_cons] at haddresses
    · rw [nodes_eq, hchildren, forall_mem_cons, haddress]
      have hfresh := h.sound.fresh
      rwa [nodes_eq, forall_mem_cons] at hfresh
    · rw [hchildren]
      exact h.sound.complete
  next := h.next
  lines := h.lines
  returns := h.returns
  returned := h.returned
  new := by
    rw [hchildren]
    exact h.new

theorem delete_addChild (h : ∀ c ∈ d.children, c.address ≠ child.address) :
    (d.addChild child).delete child = d := by
  have hfilter : (d.children ++ [child]).filter (fun c => decide (c.address ≠ child.address)) =
      d.children := by
    rw [filter_append, filter_eq_self.mpr fun c hc => decide_eq_true (h c hc)]
    simp
  rw [delete, addChild]
  rw [hfilter]
  cases d
  rfl

theorem update_addChild (h : ∀ c ∈ d.children, c.address ≠ child.address) {child' : Node}
    (haddress : child'.address = child.address) :
    (d.addChild child).update child' = d.addChild child' := by
  have hmap : (d.children ++ [child]).map
      (fun c => if c.address = child'.address then child' else c) = d.children ++ [child'] := by
    rw [map_append, map_singleton, if_pos haddress.symm, haddress]
    congr 1
    conv_rhs => rw [← map_id d.children]
    exact map_congr_left fun c hc => if_neg (h c hc)
  rw [update, addChild]
  rw [hmap]
  rfl

theorem Sound.mono (h : Sound d st) (hnext : st.next ≤ st'.next)
    (hreturns : st.returns <+: st'.returns) : Sound d st' where
  tidy := h.tidy
  below := h.below
  addresses := h.addresses
  fresh n hn := (h.fresh n hn).trans_le hnext
  complete n hn := hreturns.subset (h.complete n hn)

theorem sound_of_empty (hchildren : d.children = []) (hsongs : d.songs = [])
    (hfresh : d.address < st.next) : Sound d st := by
  have hnone : nodesOf d.children = [] := by rw [hchildren, nodesOf_nil]
  have hnodes : d.nodes = [d] := by rw [nodes_eq, hnone]
  refine ⟨?_, ?_, ?_, ?_, ?_⟩
  · constructor <;> simp [hchildren, hsongs]
  · simp [hnone]
  · simp [hnodes]
  · simpa [hnodes] using hfresh
  · simp [hnone]

/-- **A subdirectory has been loaded.** -/
theorem Sound.addChild (h : Sound d st) (hnext : st.next ≤ st'.next)
    (hreturns : st.returns <+: st'.returns) (hchild : Sound child st')
    (haddress : ∀ n ∈ child.nodes, st.next ≤ n.address) (htidy : (d.addChild child).Tidy)
    (hload : .load child.address none ∈ st'.returns) : Sound (d.addChild child) st' := by
  have hnodes : nodesOf (d.addChild child).children = nodesOf d.children ++ child.nodes := by
    rw [Node.addChild, nodesOf_append, nodesOf_cons, nodesOf_nil, append_nil]
  have hall : (d.addChild child).nodes.map Node.address =
      d.nodes.map Node.address ++ child.nodes.map Node.address := by
    rw [nodes_eq, hnodes, nodes_eq d, map_cons, map_cons, map_append, cons_append]
    rfl
  have hmono := h.mono hnext hreturns
  refine ⟨htidy, ?_, ?_, ?_, ?_⟩
  · rw [hnodes, forall_mem_append]
    refine ⟨h.below, ?_⟩
    rw [nodes_eq, forall_mem_cons]
    exact ⟨hchild.tidy, hchild.below⟩
  · rw [hall]
    refine h.addresses.append hchild.addresses ?_
    intro a ha ha'
    obtain ⟨n, hn, rfl⟩ := mem_map.mp ha
    obtain ⟨m, hm, heq⟩ := mem_map.mp ha'
    exact absurd (heq ▸ haddress m hm) (h.fresh n hn).not_ge
  · intro n hn
    have hmem : n.address ∈ (d.addChild child).nodes.map Node.address := mem_map_of_mem hn
    rw [hall, mem_append, mem_map, mem_map] at hmem
    obtain ⟨m, hm, heq⟩ | ⟨m, hm, heq⟩ := hmem
    · exact heq ▸ hmono.fresh m hm
    · exact heq ▸ hchild.fresh m hm
  · rw [hnodes, forall_mem_append]
    refine ⟨hmono.complete, ?_⟩
    rw [nodes_eq, forall_mem_cons]
    exact ⟨hload, hchild.complete⟩

/-! ### Loading -/

def Loads (rounds : ℕ) (load : Load) : Prop :=
  ∀ d st, Sound d st → Returned none st.returns → (∀ line ∈ st.lines, NamesOk line) →
    st.lines.length < rounds →
    (load d st).Succeeds fun r => Grows d st r.1 r.2.1 r.2.2

def LoadsLogged (rounds : ℕ) (load : Load) : Prop :=
  ∀ d st, Sound d st → Returned none st.returns → (∀ line ∈ st.lines, NamesOk line) →
    st.lines.length < rounds →
    (load d st).Succeeds fun r => Grows d st r.1 r.2.1 r.2.2 ∧
      r.2.2.returns.getLast? = some (.load d.address r.1)

theorem Loads.logged {rounds : ℕ} {load : Load} (h : Loads rounds load) :
    LoadsLogged rounds (logged load) := by
  intro d st hd hret hnames hrounds
  refine (h d st hd hret hnames hrounds).bind fun r hr => .ok ?_
  refine ⟨hr.logged rfl, ?_⟩
  rw [Loading.returned, hr.address]
  exact getLast?_concat

theorem directoryLoadSubdir_succeeds {rounds : ℕ} {load : Load} (hload : LoadsLogged rounds load)
    (h : Sound d st) (hret : Returned none st.returns) (hnames : ∀ line ∈ st.lines, NamesOk line)
    (hrounds : st.lines.length < rounds) (hname : name ≠ [] ∧ '/' ∉ name) :
    (directoryLoadSubdir load d name st).Succeeds fun r => Grows d st r.1 r.2.1 r.2.2 := by
  refine .ite (fun _ => .ok ?_) (fun hnew => ?_)
  · exact h.grows hret _ suffix_rfl le_rfl
  refine .ite (fun hempty => absurd hempty hname.1) (fun _ => ?_)
  have hothers : ∀ c ∈ d.children, c.address ≠ (d.newChild st.next name).address := fun c hc =>
    (h.fresh c (mem_nodes.mpr (.inr ⟨c, hc, c.self_mem_nodes⟩))).ne
  obtain ⟨hsuffix, hhead⟩ := headRead_eq (d.newChild st.next name) st.lines
  dsimp only
  split
  · next e lines hread =>
    rw [hread] at hsuffix
    rw [delete_addChild hothers]
    exact .ok (h.grows hret _ hsuffix (Nat.le_succ _))
  · next child lines hread =>
    rw [hread] at hsuffix hhead
    obtain ⟨mtime, rfl⟩ := hhead child rfl
    have hlines : ∀ line ∈ lines, NamesOk line := fun line hl => hnames line (hsuffix.subset hl)
    have hchild : Sound { d.newChild st.next name with mtime := mtime }
        { st with lines := lines, next := st.next + 1 } :=
      sound_of_empty rfl rfl (Nat.lt_succ_self st.next)
    refine (hload _ _ hchild hret hlines (hsuffix.length_le.trans_lt hrounds)).bind fun r hr => ?_
    obtain ⟨error, child', st'⟩ := r
    obtain ⟨hgrows, hlast⟩ := hr
    have hnext : st.next ≤ st'.next := (Nat.le_succ _).trans hgrows.next
    refine .ok ?_
    rw [update_addChild hothers hgrows.address]
    cases error with
    | some e =>
      have hothers' : ∀ c ∈ d.children, c.address ≠ child'.address := by
        rw [hgrows.address]
        exact hothers
      rw [Option.isSome_some, if_pos rfl, delete_addChild hothers']
      exact ⟨rfl, rfl, rfl, h.mono hnext hgrows.returns, hnext, hgrows.lines.trans hsuffix,
        hgrows.returns, hgrows.returned, fun _ hn => .inl hn⟩
    | none =>
      rw [Option.isSome_none, if_neg Bool.false_ne_true]
      have hpath : child'.path = d.childPath name := hgrows.path
      have hname' : child'.name = name := name_eq hname.2 hpath
      have htidy : (d.addChild child').Tidy := by
        refine tidy_addChild h.tidy ?_ (hname'.symm ▸ hname) (hname'.symm ▸ hpath) hgrows.parent
        rw [hname', ← Option.not_isSome_iff_eq_none]
        exact hnew
      have haddress : ∀ n ∈ child'.nodes, st.next ≤ n.address := by
        rw [nodes_eq, forall_mem_cons]
        refine ⟨hgrows.address.ge, fun n hn => ?_⟩
        obtain hold | hle := hgrows.new n hn
        · rw [newChild, nodesOf_nil] at hold
          cases hold
        · exact (Nat.le_succ _).trans hle
      have hloaded : .load child'.address none ∈ st'.returns := by
        rw [hgrows.address]
        exact mem_of_getLast? hlast
      refine ⟨rfl, rfl, rfl, h.addChild hnext hgrows.returns hgrows.sound haddress htidy hloaded,
        hnext, hgrows.lines.trans hsuffix, hgrows.returns, hgrows.returned, fun n hn => ?_⟩
      rw [Node.addChild, nodesOf_append, nodesOf_cons, nodesOf_nil, append_nil, mem_append] at hn
      exact hn.imp_right (haddress n)

section Loop

theorem loadPlaylist_grows (h : Sound d st) (hret : Returned none st.returns) (name : Text) :
    Grows d st (loadPlaylist d name st).1 (loadPlaylist d name st).2.1
      (loadPlaylist d name st).2.2 := by
  have hsuffix := playlistLoad_suffix 0 st.lines
  rw [loadPlaylist]
  cases hload : playlistLoad 0 st.lines with
  | mk result lines =>
    rw [hload] at hsuffix
    have hgrows := fun error => h.grows hret error hsuffix le_rfl
    cases result with
    | none => exact hgrows _
    | some mtime =>
      refine (hgrows none).of_children rfl rfl rfl rfl ?_
      exact ⟨h.tidy.names, h.tidy.songNames, h.tidy.child_name, h.tidy.child_path,
        h.tidy.child_parent, h.tidy.song_name, h.tidy.song_parent⟩

variable [Utf8] {config : DbConfig}

theorem loadSong_succeeds (h : Sound d st) (hret : Returned none st.returns)
    (hname : name ≠ [] ∧ '/' ∉ name) :
    (loadSong config d name st).Succeeds fun r => Grows d st r.1 r.2.1 r.2.2 := by
  refine .ite (fun _ => .ok ?_) (fun hnew => ?_)
  · exact h.grows hret _ suffix_rfl le_rfl
  refine .ite (fun hbad => ?_) (fun _ => ?_)
  · refine hbad.elim (fun hempty => absurd hempty hname.1) fun hslash => ?_
    exact absurd (mem_of_mem_head? hslash) hname.2
  obtain ⟨hsuffix, hsong⟩ := songLoad_eq config (songNew name d.address) st.lines
  cases hload : songLoad config (songNew name d.address) st.lines with
  | mk result lines =>
    rw [hload] at hsuffix hsong
    have hgrows := fun error => h.grows hret error hsuffix le_rfl
    cases result with
    | none => exact .ok (hgrows _)
    | some song =>
      obtain ⟨huri, hparent⟩ := hsong song rfl
      refine .ok ((hgrows none).of_children rfl rfl rfl rfl ?_)
      refine tidy_addSong h.tidy ?_ (huri.symm ▸ hname) hparent
      rw [huri, ← Option.not_isSome_iff_eq_none]
      exact hnew

theorem loadEntry_succeeds {rounds : ℕ} {load : Load} (hload : LoadsLogged rounds load)
    (h : Sound d st) (hret : Returned none st.returns) (hnames : ∀ line ∈ st.lines, NamesOk line)
    (hrounds : st.lines.length < rounds) {line : Text} (hline : NamesOk line) :
    (loadEntry config load d line st).Succeeds fun r => Grows d st r.1 r.2.1 r.2.2 := by
  rw [loadEntry]
  split
  · next name hname =>
    have hok := hline directoryDir (by simp) name hname
    refine (directoryLoadSubdir_succeeds hload h hret hnames hrounds hok).bind fun r hr => ?_
    exact .ok (hr.logged rfl)
  · split
    · next name hname => exact loadSong_succeeds h hret (hline songBegin (by simp) name hname)
    · split
      · next name hname => exact .ok (loadPlaylist_grows h hret name)
      · exact .ok (h.grows hret _ suffix_rfl le_rfl)

/-- **The loop**: by induction on the rounds, which also count the lines for the nested loads. -/
theorem loadLoop_loads (rounds : ℕ) : Loads rounds (loadLoop config rounds) := by
  induction rounds with
  | zero => exact fun d st _ _ _ hrounds => absurd hrounds (Nat.not_lt_zero _)
  | succ rounds ih =>
    intro d st h hret hnames hrounds
    rw [loadLoop]
    split
    · exact .ok (h.grows hret _ suffix_rfl le_rfl)
    · next line lines hlines =>
      rw [hlines, forall_mem_cons] at hnames
      rw [hlines, length_cons] at hrounds
      have hread : Grows d st none d { st with lines := lines } :=
        h.grows hret none (hlines ▸ suffix_cons _ _) le_rfl
      refine .branch (.ok hread) ?_
      refine (loadEntry_succeeds ih.logged hread.sound hret hnames.2
        (Nat.lt_of_succ_lt_succ hrounds) hnames.1).bind fun r hr => ?_
      obtain ⟨error, d', st'⟩ := r
      have hgrows := hread.trans hr
      cases error with
      | some e => exact .ok hgrows
      | none =>
        have hlines' : st'.lines <:+ lines := hr.lines
        refine (ih d' st' hgrows.sound hgrows.returned ?_ ?_).mono fun r' hr' => hgrows.trans hr'
        · exact fun line hl => hnames.2 line (hlines'.subset hl)
        · exact hlines'.length_le.trans_lt (Nat.lt_of_succ_lt_succ hrounds)

/-- **Loading into an empty root directory** returns, whatever the lines are, and leaves a
well-formed tree. Once a nested load has returned an error, all that return after it, which are
those that enclose it, return that error, up to the root directory's. Every directory that remains
below the root directory has been loaded with success. -/
theorem directoryLoad_sound (config : DbConfig) {lines : List Text}
    (hnames : ∀ line ∈ lines, NamesOk line) {address next : Address} (hnext : address < next) :
    (directoryLoad config (newRoot address) ⟨lines, next, []⟩).Succeeds fun r =>
      r.2.1.WellFormed ∧
        (r.2.2.returns.Pairwise fun a b => a.error ≠ none → b.error = a.error) ∧
        r.2.2.returns.getLast? = some (.load r.2.1.address r.1) ∧
        ∀ n ∈ nodesOf r.2.1.children, .load n.address none ∈ r.2.2.returns := by
  have hempty : Returned none ([] : List Return) :=
    ⟨[], [], rfl, (fun _ h => nomatch h), fun _ h => nomatch h⟩
  refine ((loadLoop_loads (lines.length + 1)).logged (newRoot address) ⟨lines, next, []⟩
    (sound_of_empty rfl rfl hnext) hempty hnames (Nat.lt_succ_self _)).mono fun r hr => ?_
  obtain ⟨hgrows, hlast⟩ := hr
  refine ⟨⟨hgrows.path, hgrows.parent, ?_, hgrows.sound.addresses⟩, hgrows.returned.pairwise, ?_,
    hgrows.sound.complete⟩
  · rw [nodes_eq, forall_mem_cons]
    exact ⟨hgrows.sound.tidy, hgrows.sound.below⟩
  · rw [hgrows.address]
    exact hlast

end Loop

def plainConfig : DbConfig where
  version := "0.17".toList
  charset := none
  ignored _ := false

theorem directoryLoad_sound_malformed : (directoryLoad plainConfig (newRoot 0)
      ⟨["directory: a".toList, "begin: a".toList, "end: a".toList, "directory: b".toList,
        "begin: b".toList, "directory: c".toList, "begin: b/c".toList, "song_begin: s".toList,
        "nonsense".toList], 1, []⟩).Succeeds fun r =>
      (r.1 = some .malform ∧ r.2.1.children.map Node.path = ["a".toList] ∧
        r.2.2.returns.length = 7) ∧
      r.2.1.WellFormed ∧
        (r.2.2.returns.Pairwise fun a b => a.error ≠ none → b.error = a.error) ∧
        r.2.2.returns.getLast? = some (.load r.2.1.address r.1) ∧
        ∀ n ∈ nodesOf r.2.1.children, .load n.address none ∈ r.2.2.returns := by
  refine Except.Succeeds.and_yields ?_
    (directoryLoad_sound plainConfig (by decide) Nat.zero_lt_one).yields
  decide

end SimpleDb

end Mpd
