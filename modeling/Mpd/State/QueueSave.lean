import Mpd.State.TextFile
import Mpd.General.Number
import Mpd.Database.Locate
import Mpd.Queue.Contents
import Mpd.Queue.Run

/-!
# Saving and loading the queue

`playqueue_save.c` writes the queue into the state file, one line for each song and one more for its
priority if it has one, and reads the songs back, and `playlist_state_load` of `playlist_state.c`
reads them one after the other up to the line `playlist_end`.

What is read back is what was written, without the songs that are gone
(`playlistStateLoad_queueSave`).
-/

namespace Mpd

open List Nat

variable {σ : Type}

/-- Where songs come from when a queue is loaded. -/
structure SongSource (data : SongData σ) where
  /-- the database, if there is one -/
  database : Option (Database data.uri)
  /-- `song_remote_new`: a new song for each position of the queue -/
  remoteNew : ℕ → Text → σ
  uri_remoteNew : ∀ position uri, uri ≠ [] → '\x00' ∉ uri →
    data.uri (remoteNew position uri) = uri

namespace Queue

open Text (strtol strtoul)

variable {data : SongData σ} (src : SongSource data)

/-! ### Saving -/

def prioLabel : Text := "Prio: ".toList

def saveSong (data : SongData σ) (idx : ℕ) (song : σ) : Text :=
  Nat.toDigits 10 idx ++ ':' :: data.uri song ++ ['\n']

def saveItem (data : SongData σ) (i : ℕ) (item : QueueItem σ) : Text :=
  (if item.priority ≠ 0 then prioLabel ++ Nat.toDigits 10 item.priority ++ ['\n'] else []) ++
    saveSong data i item.song

def saveFrom (data : SongData σ) (q : Queue σ) : ℕ → ℕ → Text
  | _, 0 => []
  | i, n + 1 => saveItem data i (q.items i) ++ saveFrom data q (i + 1) n

def save (data : SongData σ) (q : Queue σ) : Text :=
  saveFrom data q 0 q.length

/-! ### Loading -/

def getSong (q : Queue σ) (uri : Text) : Option σ :=
  if uriHasScheme uri then some (src.remoteNew q.length uri) else Database.getSong src.database uri

def songLine (line : Text) : Option Text :=
  let (ret, rest) := strtol line
  match rest with
  | ':' :: uri => if ret < 0 ∨ uri = [] then none else some uri
  | _ => none

def loadEntry (q : Queue σ) (line : Text) (priority : ℕ) : Except Fault (Queue σ) :=
  match (songLine line).bind (q.getSong src) with
  | none => .ok q
  | some song => do
    let (q, _) ← q.append song priority
    pure q

variable [StringAllocator]

def loadSong (q : Queue σ) (r : Reader) (line : Text) : Except Fault (Queue σ × Reader) :=
  if q.isFull then .ok (q, r)
  else if prioLabel.isPrefixOf line then
    let priority := (strtoul (line.drop prioLabel.length)).1 % 256
    match r.readLine with
    | (none, r) => .ok (q, r)
    | (some line, r) => do
      let q ← q.loadEntry src line priority
      pure (q, r)
  else do
    let q ← q.loadEntry src line 0
    pure (q, r)

def playlistEnd : Text := "playlist_end".toList

def loadLoop : ℕ → Queue σ → Reader → Text → Except Fault (Queue σ × Reader)
  | 0, q, r, _ => .ok (q, r)
  | rounds + 1, q, r, line =>
    if playlistEnd.isPrefixOf line then .ok (q, r)
    else do
      let (q, r) ← q.loadSong src r line
      match r.readLine with
      | (none, r) => pure (q, r)
      | (some line, r) => loadLoop rounds q r line

def playlistStateLoad (q : Queue σ) (r : Reader) : Except Fault (Queue σ × Reader) :=
  match r.readLine with
  | (none, r) => .ok (q, r)
  | (some line, r') => do
    -- there are no more rounds than lines
    let (q, r) ← loadLoop src r.file.length q r' line
    pure (q.incrementVersion, r)

/-! ### What is read back -/

def entriesFrom (data : SongData σ) (q : Queue σ) (i n : ℕ) : List (Text × ℕ) :=
  (range' i n).map fun i => (data.uri (q.items i).song, (q.items i).priority)

def entries (data : SongData σ) (q : Queue σ) : List (Text × ℕ) :=
  entriesFrom data q 0 q.length

end Queue

/-- A URI that the state file can hold. -/
structure Storable (uri : Text) : Prop where
  newline : '\n' ∉ uri
  cr : uri.getLast? ≠ some '\r'
  length : uri.length < 500 * 1024

instance (uri : Text) : Decidable (Storable uri) :=
  decidable_of_iff ('\n' ∉ uri ∧ uri.getLast? ≠ some '\r' ∧ uri.length < 500 * 1024)
    ⟨fun h => ⟨h.1, h.2.1, h.2.2⟩, fun h => ⟨h.newline, h.cr, h.length⟩⟩

namespace SongSource

variable {data : SongData σ} (src : SongSource data)

def resolves (uri : Text) : Bool :=
  uriHasScheme uri || (Database.getSong src.database uri).isSome

def resolve (uri : Text) : Option Text :=
  if uriHasScheme uri then some uri else (Database.getSong src.database uri).map data.uri

def reload (entry : Text × ℕ) : Option (Text × ℕ) :=
  (src.resolve entry.1).map fun uri => (uri, entry.2)

theorem isSome_resolve (uri : Text) : (src.resolve uri).isSome = src.resolves uri := by
  rw [resolve, resolves]
  cases uriHasScheme uri <;> simp

theorem reload_eq {entry : Text × ℕ} (hslash : entry.1.head? ≠ some '/') :
    src.reload entry = if src.resolves entry.1 then some entry else none := by
  rw [reload, resolve, resolves]
  split
  · next hscheme => simp [hscheme]
  · next hscheme =>
    rw [Bool.eq_false_of_not_eq_true hscheme, Bool.false_or]
    cases hsong : Database.getSong src.database entry.1 with
    | none => rfl
    | some song => simp [Database.uri_of_getSong hslash hsong]

end SongSource

namespace Queue

open Text (strtol strtoul notMem_toDigits strtol_toDigits strtoul_toDigits)
open Arrangement (Draws)

variable {data : SongData σ} {src : SongSource data} {q q' : Queue σ} {i n : ℕ} {uri : Text}

variable (data) in
@[simp]
theorem length_entries : (q.entries data).length = q.length := by
  simp [entries, entriesFrom]

variable (data) in
theorem mem_entries {p : ℕ} (hp : p < q.length) :
    (data.uri (q.items p).song, (q.items p).priority) ∈ q.entries data :=
  mem_map.mpr ⟨p, mem_range'_1.mpr (by omega), rfl⟩

theorem entries_congr (h : q'.contents = q.contents) : q'.entries data = q.entries data := by
  have hmap : ∀ q : Queue σ, q.entries data =
      q.contents.map fun item => (data.uri item.song, item.priority) := by
    intro q
    rw [entries, entriesFrom, contents, map_map, ← range_eq_range']
    rfl
  rw [hmap, hmap, h]

theorem entries_appended (song : σ) (priority id : ℕ) : (q.appended song priority id).entries data =
      q.entries data ++ [(data.uri song, priority)] := by
  have hold : ∀ p ∈ range' 0 q.length, (q.appended song priority id).items p = q.items p := by
    intro p hp
    exact Function.update_of_ne (by simp at hp; omega) _ _
  have hnew : (q.appended song priority id).items q.length = ⟨song, id, q.version, priority⟩ :=
    Function.update_self _ _ _
  rw [entries, entriesFrom, show (q.appended song priority id).length = q.length + 1 from rfl,
    range'_1_concat, map_append, zero_add, map_singleton, hnew]
  congr 1
  exact map_congr_left fun p hp => by rw [hold p hp]

theorem order_appended (song : σ) (priority id : ℕ) (h : ∀ p < q.length, q.order p = p) :
    ∀ p < q.length + 1, (q.appended song priority id).order p = p := by
  intro p hp
  rcases Nat.lt_succ_iff_lt_or_eq.mp hp with hlt | rfl
  · exact (Function.update_of_ne hlt.ne _ _).trans (h p hlt)
  · exact Function.update_self _ _ _

/-- `q'` is `q` with those of `entries` appended for which a song is found. -/
structure Extends (src : SongSource data) (q q' : Queue σ) (entries : List (Text × ℕ)) : Prop where
  inv : q'.Inv
  settings_eq : q'.settings = q.settings
  order_eq : (∀ p < q.length, q.order p = p) → ∀ p < q'.length, q'.order p = p
  entries_eq : q'.entries data = q.entries data ++ entries.filterMap src.reload

theorem Extends.trans {q'' : Queue σ} {es es' : List (Text × ℕ)} (h : Extends src q q' es)
    (h' : Extends src q' q'' es') : Extends src q q'' (es ++ es') :=
  ⟨h'.inv, h'.settings_eq.trans h.settings_eq, h'.order_eq ∘ h.order_eq, by
      rw [h'.entries_eq, h.entries_eq, filterMap_append, append_assoc]⟩

theorem Extends.length_le {es : List (Text × ℕ)} (h : Extends src q q' es) :
    q'.length ≤ q.length + es.length := by
  have hlen := congrArg List.length h.entries_eq
  rw [length_append, length_entries data, length_entries data] at hlen
  rw [hlen]
  exact Nat.add_le_add_left (length_filterMap_le _ _) _

theorem map_snd_entries : (q.entries data).map Prod.snd = (range q.length).map q.priorityAt := by
  rw [entries, entriesFrom, map_map, range_eq_range']
  rfl

theorem Extends.priorities {q₀ : Queue σ} (h : Extends src q q' (q₀.entries data))
    (hempty : q.length = 0) (hfound : ∀ e ∈ q₀.entries data, src.resolves e.1 = true) :
    q'.length = q₀.length ∧ ∀ p < q₀.length, q'.priorityAt p = q₀.priorityAt p := by
  have hreload : ∀ es : List (Text × ℕ), (∀ e ∈ es, src.resolves e.1 = true) →
      (es.filterMap src.reload).map Prod.snd = es.map Prod.snd := by
    intro es hes
    induction es with
    | nil => rfl
    | cons e es ih =>
      have he := hes e mem_cons_self
      rw [← src.isSome_resolve] at he
      obtain ⟨uri, huri⟩ := Option.isSome_iff_exists.mp he
      have hentry : src.reload e = some (uri, e.2) := by rw [SongSource.reload, huri]; rfl
      rw [filterMap_cons_some hentry, map_cons, map_cons,
        ih fun e he => hes e (mem_cons_of_mem _ he)]
  have heq := congrArg (map Prod.snd) h.entries_eq
  rw [map_append, hreload _ hfound, map_snd_entries, map_snd_entries, map_snd_entries,
    hempty] at heq
  have hlen : q'.length = q₀.length := by simpa using congrArg List.length heq
  refine ⟨hlen, fun p hp => ?_⟩
  have hget := congrArg (fun l => l[p]?) heq
  simpa [hp, hlen] using hget

theorem Extends.incrementVersion {es : List (Text × ℕ)} (h : Extends src q q' es) :
    Extends src q q'.incrementVersion es where
  inv := h.inv.incrementVersion
  settings_eq := q'.incrementVersion_settings.trans h.settings_eq
  order_eq := by
    rw [incrementVersion_length, incrementVersion_order]
    exact h.order_eq
  entries_eq := (entries_congr q'.incrementVersion_contents).trans h.entries_eq

/-! ### One song -/

theorem songLine_eq (hi : i ≤ Text.longMax) (hne : uri ≠ []) :
    songLine (Nat.toDigits 10 i ++ ':' :: uri) = some uri := by
  have hnumber : strtol (Nat.toDigits 10 i ++ ':' :: uri) = (↑i, ':' :: uri) :=
    strtol_toDigits hi (by rintro ch ⟨⟩; rfl)
  have hgood : ¬ ((i : ℤ) < 0 ∨ uri = []) := by simp [hne]
  simp only [songLine, hnumber, if_neg hgood]

variable (src) in
theorem getSong_uri (hne : uri ≠ []) (hnul : '\x00' ∉ uri) :
    (q.getSong src uri).map data.uri = src.resolve uri := by
  rw [getSong, SongSource.resolve]
  split
  · exact congrArg some (src.uri_remoteNew _ uri hne hnul)
  · rfl

variable (src) in
theorem Inv.loadEntry_succeeds (hq : q.Inv) (hroom : q.length < q.maxLength)
    (hi : i ≤ Text.longMax) (hne : uri ≠ []) (hnul : '\x00' ∉ uri) (priority : ℕ) :
    (q.loadEntry src (Nat.toDigits 10 i ++ ':' :: uri) priority).Succeeds fun q' =>
      Extends src q q' [(uri, priority)] := by
  have huri := getSong_uri src (q := q) hne hnul
  rw [loadEntry, songLine_eq hi hne, Option.bind_some]
  cases hsong : q.getSong src uri with
  | none =>
    rw [hsong, Option.map_none] at huri
    exact .ok ⟨hq, rfl, id, by simp [SongSource.reload, ← huri]⟩
  | some song =>
    rw [hsong, Option.map_some] at huri
    refine (hq.append_succeeds hroom song priority).bind fun r hr => ?_
    refine .ok ⟨hr.2, by rw [hr.1]; rfl, ?_, ?_⟩
    · rw [hr.1]
      exact order_appended song priority _
    · rw [hr.1, entries_appended]
      simp [SongSource.reload, ← huri]

theorem readable_songLine (hi : i < 4294967296) (hne : uri ≠ []) (hnul : '\x00' ∉ uri)
    (huri : Storable uri) : Reader.Readable (Nat.toDigits 10 i ++ ':' :: uri) where
  newline := by simp [notMem_toDigits (show ('\n').isDigit = false from rfl), huri.newline]
  nul := by simp [notMem_toDigits (show ('\x00').isDigit = false from rfl), hnul]
  cr := by
    rw [getLast?_append_of_ne_nil _ (cons_ne_nil _ _),
      ← singleton_append, getLast?_append_of_ne_nil _ hne]
    exact huri.cr
  length := by
    have hdigits : (Nat.toDigits 10 i).length ≤ 10 :=
      (length_toDigits_le_iff (by decide) (by decide)).mpr (by omega)
    have hlen := huri.length
    simp only [length_append, length_cons, LineBuffer.step, LineBuffer.maxLength]
    omega

theorem readable_prioLine {priority : ℕ} (hpriority : priority < 256) :
    Reader.Readable (prioLabel ++ Nat.toDigits 10 priority) where
  newline := by
    simp [(by decide : '\n' ∉ prioLabel), notMem_toDigits (show ('\n').isDigit = false from rfl)]
  nul := by
    simp [(by decide : '\x00' ∉ prioLabel),
      notMem_toDigits (show ('\x00').isDigit = false from rfl)]
  cr := by
    rw [getLast?_append_of_ne_nil _ toDigits_ne_nil]
    exact fun h => notMem_toDigits rfl priority (mem_of_getLast? h)
  length := by
    have hdigits : (Nat.toDigits 10 priority).length ≤ 3 :=
      (length_toDigits_le_iff (by decide) (by decide)).mpr (by omega)
    have hlabel : prioLabel.length = 6 := by decide
    simp only [length_append, hlabel, LineBuffer.step, LineBuffer.maxLength]
    omega

theorem isPrefixOf_toDigits_append {label rest : Text} (n : ℕ)
    (hlabel : ∃ ch ∈ label.head?, ch.isDigit = false) :
    label.isPrefixOf (Nat.toDigits 10 n ++ rest) = false := by
  obtain ⟨ch, hch, hdigit⟩ := hlabel
  obtain ⟨l, rfl⟩ := head?_eq_some_iff.mp hch
  obtain ⟨d, ds, hds⟩ := exists_cons_of_ne_nil (toDigits_ne_nil)
  have hne : ch ≠ d := by
    rintro rfl
    exact notMem_toDigits hdigit n (hds ▸ mem_cons_self)
  simp [hds, isPrefixOf, hne]

/-- An item that can be stored in the state file. Priorities are bytes. -/
structure Saveable (data : SongData σ) (item : QueueItem σ) : Prop where
  priority_lt : item.priority < 256
  uri : Storable (data.uri item.song)

/-! ### The random generator is not used -/

def withDraws (q : Queue σ) (d : Draws) : Queue σ :=
  { q with rand := d }

variable {d : Draws}

theorem generateIdFrom_withDraws (fuel cur : ℕ) :
    (q.withDraws d).generateIdFrom fuel cur = q.generateIdFrom fuel cur := by
  induction fuel generalizing cur with
  | zero => rfl
  | succ fuel ih =>
    simp only [generateIdFrom, ih]
    rfl

theorem append_withDraws (song : σ) (priority : ℕ) : (q.withDraws d).append song priority =
      (q.append song priority).map fun p => (p.1.withDraws d, p.2) := by
  rw [append, append, generateId, generateIdFrom_withDraws]
  change (q.generateId >>= _) = Except.map _ (q.generateId >>= _)
  cases q.generateId with
  | error e => rfl
  | ok id =>
    simp only [Except.ok_bind]
    split
    · next hfull => rw [if_pos (show q.isFull = true from hfull)]; rfl
    · next hfull => rw [if_neg (show ¬ q.isFull = true from hfull)]; rfl

theorem loadEntry_withDraws (line : Text) (priority : ℕ) :
    (q.withDraws d).loadEntry src line priority =
      (q.loadEntry src line priority).map (withDraws · d) := by
  rw [loadEntry, loadEntry, show (q.withDraws d).getSong src = q.getSong src from rfl]
  split
  · rfl
  · rw [append_withDraws]
    cases q.append _ priority <;> rfl

theorem incrementVersion_withDraws :
    (q.withDraws d).incrementVersion = q.incrementVersion.withDraws d := by
  by_cases h : maxVersion ≤ q.version + 1
  · rw [incrementVersion, incrementVersion, if_pos h,
      if_pos (show maxVersion ≤ (q.withDraws d).version + 1 from h)]
    rfl
  · rw [incrementVersion, incrementVersion, if_neg h,
      if_neg (show ¬ maxVersion ≤ (q.withDraws d).version + 1 from h)]
    rfl

section Reading

theorem le_length_saveFrom : ∀ i, n ≤ (saveFrom data q i n).length := by
  induction n with
  | zero => exact fun _ => zero_le _
  | succ n ih =>
    intro i
    simp only [saveFrom, saveItem, saveSong, length_append, length_cons]
    exact (succ_le_succ (ih (i + 1))).trans (by omega)

variable [StringAllocator] {item : QueueItem σ} {r : Reader} {more rest : Text}

variable (src) in
/-- **One song**: its lines are read, and append the song that is found. -/
theorem Inv.loadSong_saveItem (hq : q.Inv) (hroom : q.length < q.maxLength) (hi : i < 4294967296)
    (hitem : Saveable data item) (hr : r.Ready) (hfile : r.file = saveItem data i item ++ more) :
    ∃ line r', r.readLine = (some line, r') ∧ playlistEnd.isPrefixOf line = false ∧
      (q.loadSong src r' line).Succeeds fun p =>
        Extends src q p.1 [(data.uri item.song, item.priority)] ∧ p.2.file = more ∧ p.2.Ready := by
  have hne := data.uri_ne_nil item.song
  have hnul := data.nul_notMem_uri item.song
  have hfull : q.isFull = false := by
    rw [isFull, decide_eq_false_iff_not]
    omega
  have hsong := readable_songLine hi hne hnul hitem.uri
  have hentry := hq.loadEntry_succeeds src hroom
    (hi.le.trans (by decide : 4294967296 ≤ Text.longMax)) hne hnul item.priority
  by_cases hp : item.priority = 0
  · have hfile' : r.file = (Nat.toDigits 10 i ++ ':' :: data.uri item.song) ++ '\n' :: more := by
      simp [hfile, saveItem, saveSong, hp]
    obtain ⟨b, hread, hb⟩ := Reader.readLine_eq hr hsong hfile'
    refine ⟨_, _, hread, isPrefixOf_toDigits_append i ⟨'p', rfl, rfl⟩, ?_⟩
    rw [loadSong, hfull, if_neg Bool.false_ne_true,
      isPrefixOf_toDigits_append i ⟨'P', rfl, rfl⟩, if_neg Bool.false_ne_true]
    rw [hp] at hentry ⊢
    exact hentry.bind fun q' h => .ok ⟨h, rfl, hb⟩
  · -- the priority has a line of its own, and the line of the song is read by the loader
    have hfile' : r.file = (prioLabel ++ Nat.toDigits 10 item.priority) ++ '\n' ::
        ((Nat.toDigits 10 i ++ ':' :: data.uri item.song) ++ '\n' :: more) := by
      simp [hfile, saveItem, saveSong, hp]
    obtain ⟨b, hread, hb⟩ := Reader.readLine_eq hr (readable_prioLine hitem.priority_lt) hfile'
    obtain ⟨b', hread', hb'⟩ := Reader.readLine_eq hb hsong rfl
    have hlabel : prioLabel.isPrefixOf (prioLabel ++ Nat.toDigits 10 item.priority) = true :=
      isPrefixOf_iff_prefix.mpr (prefix_append _ _)
    have hnumber : (strtoul (Nat.toDigits 10 item.priority)).1 % 256 = item.priority := by
      have h : strtoul (Nat.toDigits 10 item.priority ++ []) = (item.priority, []) :=
        strtoul_toDigits (hitem.priority_lt.le.trans (by decide)) (by rintro ch ⟨⟩)
      rw [append_nil] at h
      rw [h, mod_eq_of_lt hitem.priority_lt]
    refine ⟨_, _, hread, rfl, ?_⟩
    rw [loadSong, hfull, if_neg Bool.false_ne_true, hlabel, if_pos rfl, hread', drop_left, hnumber]
    exact hentry.bind fun q' h => .ok ⟨h, rfl, hb'⟩

variable (src) in
/-- **All songs**: what is left to be read is `n` songs from position `i` on, and the end. -/
theorem Inv.loadLoop_saveFrom (hi : i + n ≤ 4294967296)
    (hsave : ∀ p, i ≤ p → p < i + n → Saveable data (q'.items p)) (hq : q.Inv)
    (hroom : q.length + n ≤ q.maxLength) (hr : r.Ready)
    (hfile : r.file = saveFrom data q' i n ++ (playlistEnd ++ '\n' :: rest)) :
    ∃ line r', r.readLine = (some line, r') ∧ ∀ fuel > n,
      (loadLoop src fuel q r' line).Succeeds fun p =>
        Extends src q p.1 (entriesFrom data q' i n) ∧ p.2.file = rest ∧ p.2.Ready := by
  induction n generalizing i q r with
  | zero =>
    obtain ⟨b, hread, hb⟩ := Reader.readLine_eq hr
      ⟨by decide, by decide, by decide, by decide⟩ hfile
    refine ⟨_, _, hread, fun fuel hfuel => ?_⟩
    obtain ⟨fuel, rfl⟩ := exists_eq_succ_of_ne_zero hfuel.ne'
    exact .ok ⟨⟨hq, rfl, id, by simp [entriesFrom]⟩, rfl, hb⟩
  | succ n ih =>
    rw [saveFrom, append_assoc] at hfile
    obtain ⟨line, r', hread, hend, hload⟩ := hq.loadSong_saveItem src (i := i)
      (by omega) (by omega) (hsave i le_rfl (by omega)) hr hfile
    refine ⟨line, r', hread, fun fuel hfuel => ?_⟩
    obtain ⟨fuel, rfl⟩ := Nat.exists_eq_succ_of_ne_zero (Nat.ne_zero_of_lt hfuel)
    rw [loadLoop, hend, if_neg Bool.false_ne_true]
    refine hload.bind ?_
    rintro ⟨q₁, r₁⟩ ⟨h₁, hmore, hr₁⟩
    have hlen : q₁.length ≤ q.length + 1 := h₁.length_le
    have hmax : q₁.maxLength = q.maxLength := maxLength_eq h₁.settings_eq
    obtain ⟨line', r₂, hread', hrest⟩ := ih (q := q₁) (by omega)
      (fun p hp hp' => hsave p (by omega) (by omega)) h₁.inv (by omega) hr₁ hmore
    simp only [hread']
    refine (hrest fuel (lt_of_succ_lt_succ hfuel)).mono fun p hp => ⟨?_, hp.2⟩
    exact h₁.trans hp.1

variable (src) in
theorem Inv.playlistStateLoad_save (hq' : q'.Inv) (hbyte : ∀ entry ∈ q'.entries data, entry.2 < 256)
    (huri : ∀ entry ∈ q'.entries data, Storable entry.1) (hq : q.Inv)
    (hroom : q.length + q'.length ≤ q.maxLength) (hr : r.Ready)
    (hfile : r.file = q'.save data ++ (playlistEnd ++ '\n' :: rest)) :
    (q.playlistStateLoad src r).Succeeds fun p =>
      Extends src q p.1 (q'.entries data) ∧ p.2.file = rest ∧ p.2.Ready := by
  have hlen := hq'.length_lt
  have hsave : ∀ p, 0 ≤ p → p < 0 + q'.length → Saveable data (q'.items p) := by
    intro p _ hp
    have hmem := mem_entries data (q := q') (p := p) (by omega)
    exact ⟨hbyte _ hmem, huri _ hmem⟩
  obtain ⟨line, r', hread, hloop⟩ := Inv.loadLoop_saveFrom src (i := 0) (n := q'.length)
    (by omega) hsave hq hroom hr hfile
  have hrounds : q'.length < r.file.length := by
    rw [hfile, length_append]
    refine Nat.lt_of_le_of_lt (le_length_saveFrom 0) (Nat.lt_add_of_pos_right ?_)
    exact length_pos_iff.mpr (by simp)
  rw [playlistStateLoad, hread]
  exact (hloop _ hrounds).bind fun p hp => .ok ⟨hp.1.incrementVersion, hp.2⟩

/-- **Saving and loading.** The songs that are still there come back with their priorities, and
the file is read just behind its line `playlist_end`. The line read before was `playlist_begin`. -/
theorem playlistStateLoad_queueSave (hq' : q'.Inv)
    (hbyte : ∀ entry ∈ q'.entries data, entry.2 < 256)
    (huri : ∀ entry ∈ q'.entries data, Storable entry.1)
    (hslash : ∀ entry ∈ q'.entries data, entry.1.head? ≠ some '/') (hq : q.Inv)
    (hempty : q.length = 0) (hmax : q.maxLength = q'.maxLength) (allocated : ℕ) (rest : Text) :
    (q.playlistStateLoad src ⟨⟨"playlist_begin".length, allocated⟩,
        q'.save data ++ ("playlist_end\n".toList ++ rest)⟩).Succeeds fun p =>
      p.1.entries data = (q'.entries data).filter (fun entry => src.resolves entry.1) ∧
        p.2.file = rest := by
  have hroom : q.length + q'.length ≤ q.maxLength := by
    rw [hempty, hmax, zero_add]
    exact hq'.length_le
  refine (hq'.playlistStateLoad_save src hbyte huri hq hroom ?_ rfl).mono fun p hp => ⟨?_, hp.2.1⟩
  · exact (by decide : 14 < LineBuffer.maxLength)
  · have hnil : q.entries data = [] := by rw [entries, hempty]; rfl
    rw [hp.1.entries_eq, hnil, nil_append, ← filterMap_eq_filter]
    exact filterMap_congr fun entry hentry => src.reload_eq (hslash entry hentry)

theorem loadSong_withDraws (line : Text) : (q.withDraws d).loadSong src r line =
      (q.loadSong src r line).map fun p => (p.1.withDraws d, p.2) := by
  rw [loadSong, loadSong, show (q.withDraws d).isFull = q.isFull from rfl]
  split
  · rfl
  · split
    · dsimp only
      split
      · rfl
      · rw [loadEntry_withDraws]
        cases q.loadEntry src _ _ <;> rfl
    · rw [loadEntry_withDraws]
      cases q.loadEntry src line 0 <;> rfl

theorem loadLoop_withDraws (fuel : ℕ) (line : Text) : loadLoop src fuel (q.withDraws d) r line =
      (loadLoop src fuel q r line).map fun p => (p.1.withDraws d, p.2) := by
  induction fuel generalizing q r line with
  | zero => rfl
  | succ fuel ih =>
    rw [loadLoop, loadLoop, loadSong_withDraws]
    split
    · rfl
    · cases q.loadSong src r line with
      | error e => rfl
      | ok p =>
        obtain ⟨q₁, r₁⟩ := p
        simp only [Except.map, Except.ok_bind]
        rcases r₁.readLine with ⟨_ | line, r₂⟩
        · rfl
        · exact ih line

variable (src) in
theorem playlistStateLoad_withDraws : (q.withDraws d).playlistStateLoad src r =
      (q.playlistStateLoad src r).map fun p => (p.1.withDraws d, p.2) := by
  rw [playlistStateLoad, playlistStateLoad]
  rcases r.readLine with ⟨_ | line, r'⟩
  · rfl
  · simp only [loadLoop_withDraws]
    cases loadLoop src r.file.length q r' line with
    | error e => rfl
    | ok p =>
      simp only [Except.map, Except.ok_bind, incrementVersion_withDraws]
      rfl

end Reading

theorem Inv.exists_entries_eq (hq : q.Inv) (data : SongData σ) (l : List (σ × ℕ))
    (hroom : q.length + l.length ≤ q.maxLength) :
    ∃ q' : Queue σ, q'.Inv ∧ q'.settings = q.settings ∧
      q'.entries data = q.entries data ++ l.map fun e => (data.uri e.1, e.2) := by
  induction l generalizing q with
  | nil => exact ⟨q, hq, rfl, (append_nil _).symm⟩
  | cons e l ih =>
    rw [length_cons] at hroom
    obtain ⟨r, -, heq, hq₁⟩ := hq.append_succeeds (by omega) e.1 e.2
    rw [heq] at hq₁
    obtain ⟨q', hq', hset, hentries⟩ := ih hq₁ (show q.length + 1 + l.length ≤ q.maxLength by omega)
    refine ⟨q', hq', hset.trans rfl, ?_⟩
    rw [hentries, entries_appended, append_assoc]
    rfl

end Queue

/-! ### Songs that are named -/

abbrev NamedSong : Type := {uri : Text // uri ≠ [] ∧ '\x00' ∉ uri}

def namedData : SongData NamedSong where
  uri := Subtype.val
  uri_ne_nil song := song.2.1
  nul_notMem_uri song := song.2.2
  tag _ := none
  strayRead := false

def Database.flat (songs : List NamedSong) : Database namedData.uri where
  root := .mk [] (songs.map fun song => (song.1, song)) []
  uri_eq := by
    intro path d h
    cases h with
    | root =>
      intro entry hentry
      obtain ⟨song, -, rfl⟩ := mem_map.mp hentry
      rfl
    | child h hchild =>
      have hroot : ∀ {root d : Directory NamedSong} {path}, root.children = [] →
          root.At path d → d.children = [] := by
        intro root d path hroot h
        induction h with
        | root => exact hroot
        | child h hchild ih => simp [ih] at hchild
      simp [hroot rfl h] at hchild

def SongSource.named (songs : List NamedSong) : SongSource namedData where
  database := some (Database.flat songs)
  remoteNew _ uri :=
    if h : uri ≠ [] ∧ '\x00' ∉ uri then ⟨uri, h⟩ else ⟨['?'], by decide, by decide⟩
  uri_remoteNew _ uri hne hnul := by rw [dif_pos ⟨hne, hnul⟩]; rfl

def Queue.noneNamed : Queue NamedSong :=
  Queue.init 4 (fun _ => ⟨⟨['?'], by decide, by decide⟩, 0, 0, 0⟩) id (fun _ => 0) 0

theorem playlistStateLoad_queueSave_three : ∃ q' : Queue NamedSong, q'.Inv ∧
    q'.entries namedData = [("http://x".toList, 5), ("gone".toList, 3), ("here".toList, 0)] ∧
    (Queue.noneNamed.playlistStateLoad (SongSource.named [⟨"here".toList, by decide, by decide⟩])
      ⟨⟨"playlist_begin".length, 1024⟩,
        q'.save namedData ++ ("playlist_end\n".toList ++ [])⟩).Succeeds fun p =>
      p.1.entries namedData = [("http://x".toList, 5), ("here".toList, 0)] ∧ p.2.file = [] := by
  have hinit : Queue.noneNamed.Inv := Queue.inv_init (by decide) _ _ _ _
  obtain ⟨q', hq', hset, hentries⟩ := hinit.exists_entries_eq namedData
    [(⟨"http://x".toList, by decide, by decide⟩, 5), (⟨"gone".toList, by decide, by decide⟩, 3),
      (⟨"here".toList, by decide, by decide⟩, 0)] (by decide)
  have hsaved : q'.entries namedData =
      [("http://x".toList, 5), ("gone".toList, 3), ("here".toList, 0)] := hentries
  have hbyte : ∀ entry ∈ q'.entries namedData, entry.2 < 256 := by
    rw [hsaved]
    decide
  have huri : ∀ entry ∈ q'.entries namedData, Storable entry.1 := by
    rw [hsaved]
    decide
  refine ⟨q', hq', hsaved, ?_⟩
  have hslash : ∀ entry ∈ q'.entries namedData, entry.1.head? ≠ some '/' := by
    rw [hsaved]
    decide
  refine (Queue.playlistStateLoad_queueSave hq' hbyte huri hslash hinit rfl
    (Queue.maxLength_eq hset).symm 1024 []).mono fun p hp => ⟨?_, hp.2⟩
  rw [hp.1, hsaved]
  decide

end Mpd
