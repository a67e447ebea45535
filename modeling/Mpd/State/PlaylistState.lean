import Mpd.State.QueueSave
import Mpd.General.Rank
import Mpd.Playlist.CurrentSong

/-!
# Saving and restoring the playlist

`playlist_state.c` writes the playlist to the state file, and reads it back when the daemon is
started again. `current` is an order number, but it is saved as a position, since the order is not
saved: in random mode a new one is drawn. `restoresCurrent_iff` says when the current song is found
again.

What the player is told along the way, apart from what the playlist sends it, is recorded in
`PlayerOrders`.
-/

namespace Mpd

open List Except Arrangement
open Queue (playlistEnd)

variable {σ : Type}

/-! ### The lines of the state file -/

inductive StateKey
  | time
  | repeat_
  | single
  | consume
  | crossfade
  | mixrampdb
  | mixrampdelay
  | random
  | current
  deriving DecidableEq, Repr

namespace StateKey

def all : List StateKey :=
  [time, repeat_, single, consume, crossfade, mixrampdb, mixrampdelay, random, current]

def label : StateKey → Text
  | time => "time: ".toList
  | repeat_ => "repeat: ".toList
  | single => "single: ".toList
  | consume => "consume: ".toList
  | crossfade => "crossfade: ".toList
  | mixrampdb => "mixrampdb: ".toList
  | mixrampdelay => "mixrampdelay: ".toList
  | random => "random: ".toList
  | current => "current: ".toList

def ofLine (line : Text) : Option StateKey :=
  all.find? fun key => key.label.isPrefixOf line

theorem ofLine_label (key : StateKey) (value : Text) : ofLine (key.label ++ value) = some key := by
  cases key <;> rfl

end StateKey

def stateLabel : Text := "state: ".toList

def playlistBegin : Text := "playlist_begin".toList

/-- What `%i` and `%f` can print. -/
structure Printed (text : Text) : Prop where
  chars : ∀ ch ∈ text, ch.isDigit = true ∨ ch ∈ ['-', '.', 'n', 'a', 'i', 'f']
  length_le : text.length ≤ 320

theorem Printed.of_all {text : Text}
    (h : text.all (fun ch => ch.isDigit || ['-', '.', 'n', 'a', 'i', 'f'].contains ch) = true)
    (hlen : text.length ≤ 320) : Printed text where
  chars ch hch := by
    have := all_eq_true.mp h ch hch
    rwa [Bool.or_eq_true, contains_iff_mem] at this
  length_le := hlen

abbrev FloatText : Type := { text : Text // Printed text }

def boolText (flag : Bool) : Text :=
  if flag then ['1'] else ['0']

/-! ### Saving -/

/-- What the player says of itself. -/
structure PlayerStatus where
  state : PlayerState
  elapsedTime : Int32
  crossFade : Int32
  mixrampDb : FloatText
  mixrampDelay : FloatText

def saveFields (fields : List (StateKey × Text)) : Text :=
  fields.flatMap fun field => field.1.label ++ field.2 ++ ['\n']

namespace Playlist

def stateName (pl : Playlist σ) (status : PlayerStatus) : Text :=
  if pl.playing then
    match status.state with
    | .pause => "pause".toList
    | _ => "play".toList
  else "stop".toList

def currentFields (pl : Playlist σ) (status : PlayerStatus) :
    Except Fault (List (StateKey × Text)) :=
  if pl.playing then do
    let position ← pl.queue.orderToPosition (unsigned pl.current)
    pure [(.current, Text.intText position), (.time, Text.intText status.elapsedTime.toInt)]
  else if 0 ≤ pl.current then do
    let position ← pl.queue.orderToPosition (unsigned pl.current)
    pure [(.current, Text.intText position)]
  else .ok []

def modeFields (pl : Playlist σ) (status : PlayerStatus) : List (StateKey × Text) :=
  [(.random, boolText pl.queue.random), (.repeat_, boolText pl.queue.repeat_),
    (.single, boolText pl.queue.single), (.consume, boolText pl.queue.consume),
    (.crossfade, Text.intText status.crossFade.toInt), (.mixrampdb, status.mixrampDb),
    (.mixrampdelay, status.mixrampDelay)]

def stateSave (data : SongData σ) (pl : Playlist σ) (status : PlayerStatus) :
    Except Fault Text := do
  let fields ← pl.currentFields status
  pure (stateLabel ++ pl.stateName status ++ '\n' :: (saveFields (fields ++ pl.modeFields status) ++
      (playlistBegin ++ '\n' :: (pl.queue.save data ++ (playlistEnd ++ ['\n'])))))

end Playlist

/-! ### Restoring -/

/-- What the player is told while the state is restored, apart from what the playlist sends. -/
structure PlayerOrders where
  /-- `pc_set_cross_fade` -/
  crossFade : Option ℤ
  /-- `pc_set_mixramp_db`, with the text of the number -/
  mixrampDb : Option Text
  /-- `pc_set_mixramp_delay`, with the text of the number -/
  mixrampDelay : Option Text
  /-- `pc_update_audio` -/
  updateAudio : Bool
  /-- `pc_pause` -/
  pause : Bool

/-- The variables of `playlist_state_restore`. -/
structure Restoring (σ : Type) where
  playlist : Playlist σ
  player : PlayerOrders
  current : ℤ
  seekTime : ℤ
  randomMode : Bool

def Restoring.start (pl : Playlist σ) : Restoring σ where
  playlist := pl
  player := ⟨none, none, none, false, false⟩
  current := -1
  seekTime := 0
  randomMode := false

def stateOfName (name : Text) : PlayerState :=
  if name = "play".toList then .play else if name = "pause".toList then .pause else .stop

section Restore

variable [Qsort] [DecidableEq σ]

namespace Restoring

def set (s : Restoring σ) (value : Text) : StateKey → Except Fault (Restoring σ)
  | .time => .ok { s with seekTime := Text.atoi value }
  | .repeat_ => do
    let pl ← s.playlist.setRepeat (value == ['1'])
    pure { s with playlist := pl }
  | .single => do
    let pl ← s.playlist.setSingle (value == ['1'])
    pure { s with playlist := pl }
  | .consume => .ok { s with playlist := s.playlist.setConsume (value == ['1']) }
  | .crossfade => .ok { s with player := { s.player with crossFade := some (Text.atoi value) } }
  | .mixrampdb => .ok { s with player := { s.player with mixrampDb := some value } }
  | .mixrampdelay => .ok { s with player := { s.player with mixrampDelay := some value } }
  | .random => .ok { s with randomMode := value == ['1'] }
  | .current => .ok { s with current := Text.atoi value }

variable [StringAllocator] {data : SongData σ} (src : SongSource data)

def readLine (s : Restoring σ) (r : Reader) (line : Text) : Except Fault (Restoring σ × Reader) :=
  match StateKey.ofLine line with
  | some key => do
    let s ← s.set (line.drop key.label.length) key
    pure (s, r)
  | none =>
    if playlistBegin.isPrefixOf line then do
      let (queue, r) ← s.playlist.queue.playlistStateLoad src r
      pure ({ s with playlist := { s.playlist with queue := queue } }, r)
    else .ok (s, r)

def readLines : ℕ → Restoring σ → Reader → Except Fault (Restoring σ)
  | 0, s, _ => .ok s
  | rounds + 1, s, r =>
    match r.readLine with
    | (none, _) => .ok s
    | (some line, r) => do
      let (s, r) ← s.readLine src r line
      readLines rounds s r

end Restoring

namespace Playlist

def resumeAt (pl : Playlist σ) (state : PlayerState) (current seekTime : ℤ) :
    Except Fault (Playlist σ) :=
  if state = .stop then .ok { pl with current := current }
  else if seekTime = 0 then do
    let (pl, _) ← pl.play current
    pure pl
  else do
    let (pl, _) ← pl.seekSong (unsigned current)
    pure pl

end Playlist

def Restoring.finish (restorePaused : Bool) (state : PlayerState) (s : Restoring σ) :
    Except Fault (Playlist σ × PlayerOrders) := do
  let pl ← s.playlist.setRandom s.randomMode
  if pl.queue.isEmpty then pure (pl, s.player)
  else
    let current := if pl.queue.validPosition (unsigned s.current) then s.current else 0
    let state := if state = .play ∧ restorePaused then .pause else state
    let pl ← pl.resumeAt state current s.seekTime
    pure (pl, { s.player with updateAudio := state ≠ .stop, pause := state = .pause })

variable [StringAllocator] {data : SongData σ} (src : SongSource data)

def Playlist.stateRestore (restorePaused : Bool) (pl : Playlist σ) (line : Text) (r : Reader) :
    Except Fault (Bool × Playlist σ × PlayerOrders) :=
  if stateLabel.isPrefixOf line then do
    -- there are no more rounds than lines
    let s ← Restoring.readLines src (r.file.length + 1) (.start pl) r
    let p ← s.finish restorePaused (stateOfName (line.drop stateLabel.length))
    pure (true, p)
  else .ok (false, pl, (Restoring.start pl).player)

end Restore

/-! ### Reading the lines -/

theorem Printed.notMem {text : Text} (h : Printed text) {ch : Char} (hdigit : ch.isDigit = false)
    (hother : ch ∉ ['-', '.', 'n', 'a', 'i', 'f']) : ch ∉ text := by
  intro hmem
  rcases h.chars ch hmem with hd | ho
  · exact absurd hd (by simp [hdigit])
  · exact hother ho

theorem printed_boolText (flag : Bool) : Printed (boolText flag) := by
  cases flag <;> exact .of_all (by decide) (by decide)

theorem printed_toDigits {n : ℕ} (hn : n ≤ 2 ^ 31) : Printed (Nat.toDigits 10 n) where
  chars ch hmem := .inl (Nat.isDigit_of_mem_toDigits (by decide) (by decide) hmem)
  length_le := by
    have h : (Nat.toDigits 10 n).length ≤ 10 :=
      (Nat.length_toDigits_le_iff (by decide) (by decide)).mpr (by omega)
    omega

theorem printed_intText {n : ℤ} (h₁ : -2 ^ 31 ≤ n) (h₂ : n < 2 ^ 31) :
    Printed (Text.intText n) := by
  cases n with
  | ofNat n => exact printed_toDigits (by simp at h₂; omega)
  | negSucc n =>
    have hp := printed_toDigits (n := n + 1) (by omega)
    refine ⟨fun ch hmem => ?_, ?_⟩
    · rcases mem_cons.mp hmem with rfl | hmem
      · exact .inr (by decide)
      · exact hp.chars ch hmem
    · have h : (Nat.toDigits 10 (n + 1)).length ≤ 10 :=
        (Nat.length_toDigits_le_iff (by decide) (by decide)).mpr (by omega)
      rw [Text.intText, length_cons]
      omega

theorem StateKey.readable (key : StateKey) {value : Text} (h : Printed value) :
    Reader.Readable (key.label ++ value) := by
  have hlabel : ∀ ch ∈ ['\n', '\x00', '\r'], ch ∉ key.label := by
    simp only [forall_mem_cons, not_mem_nil, false_implies, implies_true, and_true]
    cases key <;> decide
  have hvalue : ∀ ch ∈ ['\n', '\x00', '\r'], ch ∉ value := by
    intro ch hch
    simp only [mem_cons, not_mem_nil, or_false] at hch
    rcases hch with rfl | rfl | rfl <;> exact h.notMem (by decide) (by decide)
  have hnot : ∀ ch ∈ ['\n', '\x00', '\r'], ch ∉ key.label ++ value := fun ch hch hmem =>
    (mem_append.mp hmem).elim (hlabel ch hch) (hvalue ch hch)
  refine ⟨hnot _ (by decide), hnot _ (by decide), fun hlast => ?_, ?_⟩
  · exact hnot '\r' (by decide) (mem_of_getLast? hlast)
  · have hlen : key.label.length ≤ 14 := by cases key <;> decide
    have := h.length_le
    simp only [length_append, LineBuffer.step, LineBuffer.maxLength]
    omega

theorem length_le_saveFields (fields : List (StateKey × Text)) :
    fields.length ≤ (saveFields fields).length := by
  induction fields with
  | nil => exact Nat.zero_le _
  | cons field fields ih =>
    simp only [saveFields, flatMap_cons, length_append, length_cons] at ih ⊢
    omega

namespace Restoring

variable [Qsort] [DecidableEq σ] [StringAllocator] {data : SongData σ} {src : SongSource data}
  {s : Restoring σ} {r : Reader} {rest : Text}

theorem readLine_field (key : StateKey) (value : Text) :
    s.readLine src r (key.label ++ value) = (s.set value key).map fun s => (s, r) := by
  simp only [readLine, StateKey.ofLine_label, drop_left]
  cases s.set value key <;> rfl

theorem readLine_playlistBegin :
    s.readLine src r playlistBegin = (s.playlist.queue.playlistStateLoad src r).map fun p =>
      ({ s with playlist := { s.playlist with queue := p.1 } }, p.2) := by
  have hkey : StateKey.ofLine playlistBegin = none := by decide
  have hbegin : playlistBegin.isPrefixOf playlistBegin = true := by decide
  rw [readLine, hkey, hbegin, if_pos rfl]
  cases s.playlist.queue.playlistStateLoad src r <;> rfl

variable (src) in
theorem readLines_fields {fields : List (StateKey × Text)} (hfields : ∀ f ∈ fields, Printed f.2)
    (hr : r.Ready) (hfile : r.file = saveFields fields ++ rest) :
    ∃ b, Reader.Ready ⟨b, rest⟩ ∧ ∀ (fuel : ℕ) (s : Restoring σ),
      readLines src (fuel + fields.length) s r =
        fields.foldlM (fun s field => s.set field.2 field.1) s >>= fun s =>
          readLines src fuel s ⟨b, rest⟩ := by
  induction fields generalizing r with
  | nil =>
    obtain ⟨b, file⟩ := r
    obtain rfl : file = rest := hfile
    exact ⟨b, hr, fun fuel s => rfl⟩
  | cons field fields ih =>
    have hfile' : r.file =
        (field.1.label ++ field.2) ++ '\n' :: (saveFields fields ++ rest) := by
      rw [hfile]
      simp [saveFields]
    obtain ⟨b, hread, hb⟩ := Reader.readLine_eq hr
      (field.1.readable (hfields field mem_cons_self)) hfile'
    obtain ⟨b', hb', hrest⟩ := ih (fun f hf => hfields f (mem_cons_of_mem _ hf)) hb rfl
    refine ⟨b', hb', fun fuel s => ?_⟩
    rw [length_cons, ← Nat.add_assoc, readLines, hread, foldlM_cons]
    simp only [readLine_field]
    cases s.set field.2 field.1 with
    | error e => rfl
    | ok s => exact hrest fuel s

end Restoring

/-! ### A playlist that is not playing -/

namespace Playlist

variable {pl pl₀ : Playlist σ}

/-- The playlist is not playing, and has no current song. -/
structure Idle (pl : Playlist σ) : Prop where
  inv : pl.Inv
  playing : pl.playing = false
  current : pl.current = -1

theorem modeChanged_of_stopped [Qsort] [DecidableEq σ] (hplay : pl.playing = false) :
    pl.modeChanged = .ok (pl.send (.setBorderPause (pl.queue.single && !pl.queue.repeat_))) := by
  simp [modeChanged, getQueuedSong, updateQueuedSong, Playlist.send, hplay]

theorem Idle.withDraws (h : pl.Idle) (d : Draws) : (pl.withDraws d).Idle :=
  ⟨h.inv.withDraws d, h.playing, h.current⟩

theorem idle_of_empty (h : pl.Inv) (hempty : pl.queue.length = 0) : pl.Idle := by
  have h₁ := h.current_ge
  have h₂ := h.current_lt
  have hcurrent : pl.current = -1 := by omega
  refine ⟨h, ?_, hcurrent⟩
  by_contra hplay
  have := h.playing (by simpa using hplay)
  omega

/-- What the lines with labels do to an idle playlist. -/
structure Settled (pl pl' : Playlist σ) : Prop where
  idle : pl'.Idle
  length : pl'.queue.length = pl.queue.length
  maxLength : pl'.queue.maxLength = pl.queue.maxLength
  random : pl'.queue.random = pl.queue.random

theorem Idle.settled_self (h : pl.Idle) : Settled pl pl :=
  ⟨h, rfl, rfl, rfl⟩

theorem Settled.trans {pl' pl'' : Playlist σ} (h : Settled pl pl') (h' : Settled pl' pl'') :
    Settled pl pl'' :=
  ⟨h'.idle, h'.length.trans h.length, h'.maxLength.trans h.maxLength, h'.random.trans h.random⟩

theorem Idle.setMode_eq [Qsort] [DecidableEq σ] (h : pl.Idle) {c : Prop} [Decidable c]
    (repeat_ single : Bool) : ∃ pl', (∀ d, (if c then .ok (pl.withDraws d) else
      modeChanged { pl with queue := { pl.queue with repeat_, single, rand := d } }) =
        .ok (pl'.withDraws d)) ∧ Settled pl pl' := by
  by_cases hsame : c
  · exact ⟨pl, fun d => if_pos hsame, h.settled_self⟩
  · have hinv := (h.inv.withModes repeat_ single pl.queue.consume pl.queue.rand).send
      (.setBorderPause (single && !repeat_))
    refine ⟨_, fun d => ?_, ⟨hinv, h.playing, h.current⟩, rfl, rfl, rfl⟩
    rw [if_neg hsame]
    exact modeChanged_of_stopped h.playing

theorem Idle.setRepeat_eq [Qsort] [DecidableEq σ] (h : pl.Idle) (status : Bool) :
    ∃ pl', (∀ d, (pl.withDraws d).setRepeat status = .ok (pl'.withDraws d)) ∧ Settled pl pl' :=
  h.setMode_eq (c := status = pl.queue.repeat_) status pl.queue.single

theorem Idle.setSingle_eq [Qsort] [DecidableEq σ] (h : pl.Idle) (status : Bool) :
    ∃ pl', (∀ d, (pl.withDraws d).setSingle status = .ok (pl'.withDraws d)) ∧ Settled pl pl' :=
  h.setMode_eq (c := status = pl.queue.single) pl.queue.repeat_ status

theorem Idle.setConsume (h : pl.Idle) (status : Bool) : Settled pl (pl.setConsume status) :=
  ⟨⟨h.inv.setConsume status, h.playing, h.current⟩, rfl, rfl, rfl⟩

end Playlist

namespace Restoring

open Playlist (Settled)

variable {s : Restoring σ}

def withDraws (s : Restoring σ) (d : Draws) : Restoring σ :=
  { s with playlist := s.playlist.withDraws d }

def nextCurrent (current : ℤ) (field : StateKey × Text) : ℤ :=
  if field.1 = .current then Text.atoi field.2 else current

def nextRandomMode (randomMode : Bool) (field : StateKey × Text) : Bool :=
  if field.1 = .random then field.2 == ['1'] else randomMode

theorem set_idle [Qsort] [DecidableEq σ] (h : s.playlist.Idle) (field : StateKey × Text) :
    ∃ s' : Restoring σ, (∀ d, (s.withDraws d).set field.2 field.1 = .ok (s'.withDraws d)) ∧
      Settled s.playlist s'.playlist ∧ s'.current = nextCurrent s.current field ∧
      s'.randomMode = nextRandomMode s.randomMode field := by
  obtain ⟨key, value⟩ := field
  cases key with
  | repeat_ =>
    obtain ⟨pl', hset, hpl'⟩ := h.setRepeat_eq (value == ['1'])
    exact ⟨{ s with playlist := pl' }, fun d => congrArg (· >>= _) (hset d), hpl', rfl, rfl⟩
  | single =>
    obtain ⟨pl', hset, hpl'⟩ := h.setSingle_eq (value == ['1'])
    exact ⟨{ s with playlist := pl' }, fun d => congrArg (· >>= _) (hset d), hpl', rfl, rfl⟩
  | consume =>
    exact ⟨{ s with playlist := s.playlist.setConsume (value == ['1']) }, fun d => rfl,
      h.setConsume (value == ['1']), rfl, rfl⟩
  | time =>
    exact ⟨{ s with seekTime := Text.atoi value }, fun d => rfl, h.settled_self, rfl, rfl⟩
  | crossfade =>
    exact ⟨{ s with player := { s.player with crossFade := some (Text.atoi value) } },
      fun d => rfl, h.settled_self, rfl, rfl⟩
  | mixrampdb =>
    exact ⟨{ s with player := { s.player with mixrampDb := some value } },
      fun d => rfl, h.settled_self, rfl, rfl⟩
  | mixrampdelay =>
    exact ⟨{ s with player := { s.player with mixrampDelay := some value } },
      fun d => rfl, h.settled_self, rfl, rfl⟩
  | random =>
    exact ⟨{ s with randomMode := value == ['1'] }, fun d => rfl, h.settled_self, rfl, rfl⟩
  | current =>
    exact ⟨{ s with current := Text.atoi value }, fun d => rfl, h.settled_self, rfl, rfl⟩

theorem foldlM_set_idle [Qsort] [DecidableEq σ] (h : s.playlist.Idle)
    (fields : List (StateKey × Text)) :
    ∃ s' : Restoring σ, (∀ d, fields.foldlM (fun s field => s.set field.2 field.1) (s.withDraws d) =
        .ok (s'.withDraws d)) ∧
      Settled s.playlist s'.playlist ∧ s'.current = fields.foldl nextCurrent s.current ∧
      s'.randomMode = fields.foldl nextRandomMode s.randomMode := by
  induction fields generalizing s with
  | nil => exact ⟨s, fun d => rfl, h.settled_self, rfl, rfl⟩
  | cons field fields ih =>
    obtain ⟨s₁, hset, h₁, hcurrent, hrandom⟩ := set_idle h field
    obtain ⟨s', hfold, h', hcurrent', hrandom'⟩ := ih h₁.idle
    refine ⟨s', fun d => ?_, h₁.trans h', ?_, ?_⟩
    · rw [foldlM_cons, hset, ok_bind, hfold]
    · rw [hcurrent', hcurrent, foldl_cons]
    · rw [hrandom', hrandom, foldl_cons]

theorem foldl_modeFields (pl : Playlist σ) (status : PlayerStatus) (current : ℤ)
    (randomMode : Bool) : (pl.modeFields status).foldl nextCurrent current = current ∧
      (pl.modeFields status).foldl nextRandomMode randomMode = pl.queue.random := by
  refine ⟨rfl, ?_⟩
  show (boolText pl.queue.random == ['1']) = pl.queue.random
  cases pl.queue.random <;> rfl

theorem printed_modeFields (pl : Playlist σ) (status : PlayerStatus) :
    ∀ f ∈ pl.modeFields status, Printed f.2 := by
  simp only [Playlist.modeFields, forall_mem_cons]
  exact ⟨printed_boolText _, printed_boolText _, printed_boolText _, printed_boolText _,
    printed_intText status.crossFade.le_toInt status.crossFade.toInt_lt, status.mixrampDb.2,
    status.mixrampDelay.2, fun _ h => nomatch h⟩

theorem currentFields_eq {pl : Playlist σ} (h : pl.Inv) (h0 : 0 ≤ pl.current)
    (status : PlayerStatus) :
    ∃ fields, pl.currentFields status = .ok fields ∧ (∀ f ∈ fields, Printed f.2) ∧
      fields.foldl nextCurrent (-1) = (pl.queue.order pl.current.toNat : ℤ) ∧
      fields.foldl nextRandomMode false = false := by
  have hlt := h.current_lt
  have hn := h.queue.length_lt
  have hpos : pl.queue.order pl.current.toNat < pl.queue.length := h.queue.order_lt (by omega)
  have hget : pl.queue.orderToPosition (unsigned pl.current) =
      .ok (pl.queue.order pl.current.toNat) := by
    rw [h.unsigned_current h0, Queue.orderToPosition_eq (by omega)]
  have hprinted : Printed (Text.intText (pl.queue.order pl.current.toNat : ℤ)) :=
    printed_toDigits (by omega)
  have hread : Text.atoi (Text.intText (pl.queue.order pl.current.toNat : ℤ)) =
      pl.queue.order pl.current.toNat := Text.atoi_toDigits (by omega)
  by_cases hplay : pl.playing = true
  · rw [Playlist.currentFields, if_pos hplay, hget]
    refine ⟨_, rfl, ?_, hread, rfl⟩
    simp only [forall_mem_cons]
    exact ⟨hprinted, printed_intText status.elapsedTime.le_toInt status.elapsedTime.toInt_lt,
      fun _ h => nomatch h⟩
  · rw [Playlist.currentFields, if_neg hplay, if_pos h0, hget]
    refine ⟨_, rfl, ?_, hread, rfl⟩
    simp only [forall_mem_cons]
    exact ⟨hprinted, fun _ h => nomatch h⟩

/-- The variables of `playlist_state_restore` behind a file with the playlist `pl`. -/
structure Loaded (pl pl₀ : Playlist σ) (position : ℕ) (s : Restoring σ) : Prop where
  idle : s.playlist.Idle
  length : s.playlist.queue.length = pl.queue.length
  order : ∀ p < pl.queue.length, s.playlist.queue.order p = p
  priority : ∀ p < pl.queue.length, s.playlist.queue.priorityAt p = pl.queue.priorityAt p
  random : s.playlist.queue.random = pl₀.queue.random
  current : s.current = position
  randomMode : s.randomMode = pl.queue.random

section

variable [Qsort] [DecidableEq σ] [StringAllocator] {data : SongData σ} {src : SongSource data}
  {pl pl₀ : Playlist σ} {r : Reader} {position : ℕ} {fields : List (StateKey × Text)}

variable (src) in
theorem readLines_queue (h : pl.Inv) (hbyte : ∀ entry ∈ pl.queue.entries data, entry.2 < 256)
    (huri : ∀ entry ∈ pl.queue.entries data, Storable entry.1)
    (hroom : s.playlist.queue.length + pl.queue.length ≤ s.playlist.queue.maxLength)
    (hs : s.playlist.Idle) (hr : r.Ready)
    (hfile : r.file = playlistBegin ++ '\n' :: (pl.queue.save data ++ (playlistEnd ++ ['\n']))) :
    ∃ q, s.playlist.queue.Extends src q (pl.queue.entries data) ∧ ∀ fuel d,
      readLines src (fuel + 2) (s.withDraws d) r =
        .ok (withDraws { s with playlist := { s.playlist with queue := q } } d) := by
  obtain ⟨b, hread, hb⟩ := Reader.readLine_eq hr ⟨by decide, by decide, by decide, by decide⟩ hfile
  obtain ⟨⟨q, r'⟩, hload, hq, hnil, hr'⟩ := h.queue.playlistStateLoad_save src hbyte huri
    hs.inv.queue hroom hb rfl
  obtain ⟨r'', hend⟩ := Reader.readLine_of_nil hr' hnil
  refine ⟨q, hq, fun fuel d => ?_⟩
  have hload' := Queue.playlistStateLoad_withDraws src (q := s.playlist.queue) (d := d)
    (r := ⟨b, pl.queue.save data ++ (playlistEnd ++ ['\n'])⟩)
  rw [hload] at hload'
  rw [readLines, hread]
  simp only [readLine_playlistBegin]
  rw [show (s.withDraws d).playlist.queue = s.playlist.queue.withDraws d from rfl, hload']
  simp only [Except.map, ok_bind, readLines, hend]
  rfl

variable (src) in
/-- **All lines** behind the first one are read. -/
theorem readLines_save (h : pl.Inv) (hbyte : ∀ entry ∈ pl.queue.entries data, entry.2 < 256)
    (huri : ∀ entry ∈ pl.queue.entries data, Storable entry.1)
    (hfound : ∀ entry ∈ pl.queue.entries data, src.resolves entry.1 = true) (h₀ : pl₀.Inv)
    (hempty : pl₀.queue.length = 0) (hroom : pl.queue.length ≤ pl₀.queue.maxLength)
    (hfields : ∀ f ∈ fields, Printed f.2) (hcurrent : fields.foldl nextCurrent (-1) = position)
    (hrandom : fields.foldl nextRandomMode false = pl.queue.random) (hr : r.Ready)
    (hfile : r.file = saveFields fields ++
      (playlistBegin ++ '\n' :: (pl.queue.save data ++ (playlistEnd ++ ['\n'])))) :
    ∃ s : Restoring σ, Loaded pl pl₀ position s ∧ ∀ d,
      readLines src (r.file.length + 1) (start (pl₀.withDraws d)) r = .ok (s.withDraws d) := by
  obtain ⟨b, hb, hhead⟩ := readLines_fields src hfields hr hfile
  obtain ⟨s, hset, hsettled, hcurrent', hrandom'⟩ :=
    foldlM_set_idle (s := start pl₀) (Playlist.idle_of_empty h₀ hempty) fields
  have hempty' : s.playlist.queue.length = 0 := hsettled.length.trans hempty
  have hmax : s.playlist.queue.maxLength = pl₀.queue.maxLength := hsettled.maxLength
  obtain ⟨q, hq, hqueue⟩ :=
    readLines_queue src h hbyte huri (by omega) hsettled.idle hb rfl
  obtain ⟨hlen, hpriority⟩ := hq.priorities hempty' hfound
  refine ⟨{ s with playlist := { s.playlist with queue := q } }, ⟨⟨?_, hsettled.idle.playing,
    hsettled.idle.current⟩, hlen, ?_, hpriority, ?_, ?_, ?_⟩, fun d => ?_⟩
  · have hcur := hsettled.idle.current
    refine .of_stopped ⟨hq.inv, ?_, ?_, hsettled.idle.inv.updates⟩ hsettled.idle.playing
      (hsettled.idle.inv.stopped hsettled.idle.playing)
    · exact hcur.ge
    · show s.playlist.current < q.length
      omega
  · exact fun p hp => hq.order_eq (fun p hp => absurd hp (by omega)) p (hlen ▸ hp)
  · exact (Queue.random_eq hq.settings_eq).trans hsettled.random
  · exact hcurrent'.trans hcurrent
  · exact hrandom'.trans hrandom
  · have hrounds : fields.length + 1 ≤ r.file.length := by
      rw [hfile, length_append]
      exact Nat.add_le_add (length_le_saveFields fields) (length_pos_iff.mpr (by simp))
    obtain ⟨fuel, hfuel⟩ : ∃ fuel, r.file.length + 1 = fuel + 2 + fields.length :=
      ⟨r.file.length - 1 - fields.length, by omega⟩
    rw [hfuel, hhead]
    refine (congrArg (· >>= _) (hset d)).trans ?_
    exact hqueue fuel d

end

end Restoring

/-! ### Back to the current song -/

namespace Playlist

variable {pl : Playlist σ} {position : ℕ}

theorem Inv.play_designated (h : pl.Inv) (hplay : pl.playing = false)
    (hp : position < pl.queue.length) :
    (pl.play position).Succeeds fun r => r.1.designated = some position := by
  have hn := h.queue.length_lt
  have hunsigned : unsigned (position : ℤ) = position := unsigned_natCast (by omega)
  have hvalid : (pl.send .clearError).queue.validPosition (unsigned (position : ℤ)) = true := by
    rw [hunsigned]
    exact decide_eq_true hp
  rw [play, if_neg (by omega), if_pos hvalid, hunsigned]
  refine .ite (fun hrandom => ?_) fun hrandom => ?_
  · -- the song changes places with the first one in the order
    have horder : ((pl.send .clearError).songOrder position position).Succeeds fun o =>
        o < pl.queue.length ∧ pl.queue.order o = position := by
      rw [songOrder, if_pos (Int.natCast_nonneg _), hunsigned]
      exact h.queue.positionToOrder_succeeds hp
    refine horder.bind fun o ho => ?_
    have hcurrent : (if (pl.send .clearError).playing then (pl.send .clearError).current else 0) =
        ((0 : ℕ) : ℤ) := if_neg (by simp [Playlist.send, hplay])
    simp only [hcurrent, unsigned_natCast (show 0 < 4294967296 by decide)]
    refine (startAt_succeeds
      { pl.send .clearError with current := (0 : ℕ), queue := pl.queue.swapOrder o 0 }
      (h.queue.swapOrder hrandom ho.1 (by omega)) h.updates
      (show 0 < pl.queue.length by omega)).mono fun r hr => hr.2.trans ?_
    show some (swapAt pl.queue.order o 0 0) = some position
    rw [swapAt_eq_comp, Function.comp_apply, Equiv.swap_apply_right, ho.2]
  · refine (startAt_succeeds (pl.send .clearError) h.queue h.updates hp).mono fun r hr => ?_
    have hnormal : pl.queue.random = false := Bool.eq_false_of_not_eq_true hrandom
    exact hr.2.trans (congrArg some (h.queue.order_eq hnormal position hp))

variable [Qsort] [DecidableEq σ]

theorem Inv.resumeAt_designated (h : pl.Inv) (hplay : pl.playing = false)
    (hp : position < pl.queue.length) {state : PlayerState} (hstate : state ≠ .stop)
    (seekTime : ℤ) :
    (pl.resumeAt state position seekTime).Succeeds fun pl' => pl'.designated = some position := by
  have hn := h.queue.length_lt
  rw [resumeAt, if_neg hstate]
  refine .branch ?_ ?_
  · exact (h.play_designated hplay hp).bind fun r hr => .ok hr
  · rw [unsigned_natCast (by omega)]
    exact (h.seekSong_succeeds position).bind fun r hr => .ok (hr.2 hp)

theorem Idle.setRandom_false (h : pl.Idle) (hrandom : pl.queue.random = true) : pl.setRandom false =
      .ok { pl with current := -1, queue := { pl.queue with random := false }.restoreOrder } := by
  simp [setRandom, hrandom, getQueuedSong, applyRandom, restoreOrder, getCurrentSong, h.playing,
    h.current, updateQueuedSong]

theorem Idle.setRandom_true (h : pl.Idle) (hrandom : pl.queue.random = false) :
    pl.setRandom true = { pl.queue with random := true }.shuffleOrder.map fun q =>
      { pl with queue := q, current := -1 } := by
  simp only [setRandom, hrandom, getQueuedSong, applyRandom, startRandom, h.playing,
    Queue.rememberPosition]
  cases { pl.queue with random := true }.shuffleOrder with
  | error e => rfl
  | ok q => simp [currentFirst, updateQueuedSong, Except.map]

theorem Idle.setRandom_succeeds (h : pl.Idle) (status : Bool) :
    (pl.setRandom status).Succeeds fun pl' =>
      pl'.Idle ∧ pl'.queue.length = pl.queue.length ∧
      (status = false ∨ pl.queue.random = true → (∀ p < pl.queue.length, pl.queue.order p = p) →
        ∀ p < pl.queue.length, pl'.queue.order p = p) := by
  obtain ⟨pl', hset, hinv, -⟩ := h.inv.setRandom_succeeds status
  refine ⟨pl', hset, ?_⟩
  by_cases hsame : status = pl.queue.random
  · rw [setRandom, if_pos hsame] at hset
    obtain rfl := ok.inj hset
    exact ⟨h, rfl, fun _ horder => horder⟩
  · cases hrandom : pl.queue.random with
    | true =>
      obtain rfl : status = false := by simpa [hrandom] using hsame
      rw [h.setRandom_false hrandom] at hset
      obtain rfl := ok.inj hset
      exact ⟨⟨hinv, h.playing, rfl⟩, rfl, fun _ _ p hp => if_pos hp⟩
    | false =>
      obtain rfl : status = true := by simpa [hrandom] using hsame
      obtain ⟨q, hq, hsongs, -⟩ := { pl.queue with random := true }.shuffleOrder_succeeds
      rw [h.setRandom_true hrandom, hq] at hset
      obtain rfl := ok.inj hset
      refine ⟨⟨hinv, h.playing, rfl⟩, ?_, by simp⟩
      rw [hsongs]
      rfl

end Playlist

/-- No other song has its priority, and its place in the order is its position. -/
def Queue.Ranked (q : Queue σ) (position : ℕ) : Prop :=
  (∀ p < q.length, p ≠ position → q.priorityAt p ≠ q.priorityAt position) ∧
    above q.priorityAt q.length (q.priorityAt position) = position

theorem Queue.ranked_congr {q q' : Queue σ} {position : ℕ} (hlen : q'.length = q.length)
    (hp : position < q.length) (h : ∀ p < q.length, q'.priorityAt p = q.priorityAt p) :
    q'.Ranked position ↔ q.Ranked position := by
  have habove : above q'.priorityAt q.length (q.priorityAt position) =
      above q.priorityAt q.length (q.priorityAt position) := by
    rw [above, above]
    congr 1
    exact Finset.filter_congr fun p hp => by rw [h p (Finset.mem_range.mp hp)]
  rw [Ranked, Ranked, hlen, h position hp, habove]
  refine and_congr_left fun _ => forall₂_congr fun p hp' => ?_
  rw [h p hp']

namespace Restoring

variable [Qsort] [DecidableEq σ] {s : Restoring σ} {pl pl₀ : Playlist σ} {position : ℕ}

theorem finish_succeeds_iff {restorePaused : Bool} {state : PlayerState} {P : Playlist σ → Prop}
    {pl : Playlist σ} (hset : s.playlist.setRandom s.randomMode = .ok pl)
    (hcurrent : s.current = position) (hn : pl.queue.length < 4294967296)
    (hp : position < pl.queue.length) :
    ((s.finish restorePaused state).Succeeds fun r => P r.1) ↔
      (pl.resumeAt (if state = .play ∧ restorePaused then .pause else state) position
        s.seekTime).Succeeds P := by
  have hempty : ¬ pl.queue.isEmpty = true := by
    rw [Queue.isEmpty, beq_iff_eq]
    omega
  have hvalid : pl.queue.validPosition (unsigned (position : ℤ)) = true := by
    rw [unsigned_natCast (by omega)]
    exact decide_eq_true hp
  rw [finish, hset, ok_bind, if_neg hempty]
  simp only [hcurrent, hvalid, if_true]
  generalize (if state = .play ∧ restorePaused = true then PlayerState.pause else state) = state'
  cases pl.resumeAt state' position s.seekTime with
  | error e => exact iff_of_false not_succeeds_error not_succeeds_error
  | ok pl' => exact succeeds_ok.trans succeeds_ok.symm

variable {restorePaused : Bool} {state : PlayerState}

section

variable (h : Loaded pl pl₀ position s) (hp : position < pl.queue.length)
include h hp

theorem Loaded.finish_designated_iff (d : Draws) :
    ∃ pl', (s.playlist.withDraws d).setRandom s.randomMode = .ok pl' ∧ pl'.Idle ∧
      position < pl'.queue.length ∧
      ((((s.withDraws d).finish restorePaused state).Succeeds fun r =>
        r.1.designated = some position) ↔
        (pl'.resumeAt (if state = .play ∧ restorePaused then .pause else state) position
          s.seekTime).Succeeds fun pl => pl.designated = some position) := by
  obtain ⟨pl', hset, hidle, hlen, -⟩ := (h.idle.withDraws d).setRandom_succeeds s.randomMode
  have hlen' : pl'.queue.length = pl.queue.length := hlen.trans h.length
  have hn := hidle.inv.queue.length_lt
  have hp' : position < pl'.queue.length := hlen'.symm ▸ hp
  exact ⟨pl', hset, hidle, hp', finish_succeeds_iff (s := s.withDraws d)
    (P := fun pl => pl.designated = some position) hset h.current (by omega) hp'⟩

theorem Loaded.finish_designated (hstate : state ≠ .stop) (d : Draws) :
    ((s.withDraws d).finish restorePaused state).Succeeds fun r =>
      r.1.designated = some position := by
  obtain ⟨pl', -, hidle, hp', hiff⟩ := h.finish_designated_iff hp d
  refine hiff.mpr ?_
  refine hidle.inv.resumeAt_designated hidle.playing hp' ?_ s.seekTime
  split
  · exact fun hstop => nomatch hstop
  · exact hstate

theorem Loaded.finish_stop_iff (d : Draws) :
    (((s.withDraws d).finish restorePaused .stop).Succeeds fun r =>
      r.1.designated = some position) ↔
      ((s.playlist.withDraws d).setRandom pl.queue.random).Succeeds fun pl' =>
        pl'.queue.order position = position := by
  obtain ⟨pl', hset, -, hp', hiff⟩ := h.finish_designated_iff hp d
  refine hiff.trans ?_
  have hdes : Playlist.designated { pl' with current := (position : ℤ) } =
      some (pl'.queue.order position) := Playlist.designated_natCast rfl hp'
  rw [← h.randomMode, hset, if_neg (by simp), Playlist.resumeAt, if_pos rfl, succeeds_ok,
    succeeds_ok, hdes, Option.some.injEq]

theorem Loaded.forall_order_iff :
    (∀ d, ((s.playlist.withDraws d).setRandom pl.queue.random).Succeeds fun pl' =>
      pl'.queue.order position = position) ↔
      pl.queue.random = false ∨ pl₀.queue.random = true ∨ pl.queue.Ranked position := by
  have hps : position < s.playlist.queue.length := h.length.symm ▸ hp
  by_cases hstays : pl.queue.random = false ∨ s.playlist.queue.random = true
  · -- nothing is shuffled
    refine iff_of_true (fun d => ?_) (by rw [← h.random, ← or_assoc]; exact .inl hstays)
    refine ((h.idle.withDraws d).setRandom_succeeds pl.queue.random).mono fun pl' hpl' => ?_
    exact hpl'.2.2 hstays (fun p hp => h.order p (h.length ▸ hp)) position hps
  · simp only [not_or, Bool.not_eq_false, Bool.not_eq_true] at hstays
    obtain ⟨hrandom, hnormal⟩ := hstays
    let q : Queue σ := { s.playlist.queue with random := true }
    have hshuffle : (∀ d, ((s.playlist.withDraws d).setRandom pl.queue.random).Succeeds fun pl' =>
        pl'.queue.order position = position) ↔
          ∀ d q', Queue.shuffleOrder { q with rand := d } = .ok q' →
            q'.order position = position := by
      refine forall_congr' fun d => ?_
      obtain ⟨q', hq', -⟩ := Queue.shuffleOrder_succeeds { q with rand := d }
      have hset : (s.playlist.withDraws d).setRandom true =
          .ok { s.playlist with queue := q', current := -1 } :=
        ((h.idle.withDraws d).setRandom_true hnormal).trans (congrArg (Except.map _) hq')
      rw [hrandom, hset, hq', succeeds_ok]
      exact ⟨fun ho q'' hq'' => ok.inj hq'' ▸ ho, fun hall => hall q' rfl⟩
    rw [hshuffle, q.forall_shuffleOrder_iff (P := fun b => b position = position),
      forall_place_iff h.idle.inv.queue.order_bijOn q.exists_descending hps hps, ← h.random,
      hnormal, hrandom, ← Queue.ranked_congr h.length hp h.priority]
    simp only [Bool.true_eq_false, Bool.false_eq_true, false_or]
    rfl

end

end Restoring

/-! ### Saving and restoring -/

theorem Playlist.readable_stateName (pl : Playlist σ) (status : PlayerStatus) :
    Reader.Readable (stateLabel ++ pl.stateName status) := by
  rw [stateName]
  split
  · split <;> exact ⟨by decide, by decide, by decide, by decide⟩
  · exact ⟨by decide, by decide, by decide, by decide⟩

theorem Playlist.stateOfName_eq_stop_iff (pl : Playlist σ) (status : PlayerStatus) :
    stateOfName (pl.stateName status) = .stop ↔ pl.playing = false := by
  rw [stateName]
  split
  · next hplay =>
    rw [hplay]
    split <;> decide
  · next hplay => exact iff_of_true (by decide) (Bool.eq_false_of_not_eq_true hplay)

section

variable [Qsort] [DecidableEq σ] [StringAllocator] {data : SongData σ} {src : SongSource data}
  {pl pl₀ : Playlist σ} {status : PlayerStatus} {restorePaused : Bool}

def Playlist.readStateFile (src : SongSource data) (restorePaused : Bool) (pl : Playlist σ)
    (r : Reader) : Except Fault (Bool × Playlist σ × PlayerOrders) :=
  match r.readLine with
  | (none, _) => .ok (false, pl, (Restoring.start pl).player)
  | (some line, r) => pl.stateRestore src restorePaused line r

def saveAndRestore (src : SongSource data) (restorePaused : Bool) (status : PlayerStatus)
    (pl pl₀ : Playlist σ) (allocated : ℕ) : Except Fault (Playlist σ) := do
  let file ← pl.stateSave data status
  let (_, pl, _) ← pl₀.readStateFile src restorePaused ⟨⟨0, allocated⟩, file⟩
  pure pl

/-- **What restoring should do**: whatever the random generator produces, `current` designates the
position it did when the playlist was saved. -/
def RestoresCurrent (src : SongSource data) (restorePaused : Bool) (status : PlayerStatus)
    (pl pl₀ : Playlist σ) (allocated : ℕ) : Prop :=
  ∀ d, (saveAndRestore src restorePaused status pl (pl₀.withDraws d) allocated).Succeeds fun pl' =>
    pl'.designated = pl.designated

/-- **When the current song is restored**: in a playlist that was stopped in random mode, only if
nothing is shuffled, or the priorities leave no choice. -/
theorem restoresCurrent_iff (h : pl.Inv) (h0 : 0 ≤ pl.current)
    (hbyte : ∀ entry ∈ pl.queue.entries data, entry.2 < 256)
    (huri : ∀ entry ∈ pl.queue.entries data, Storable entry.1)
    (hfound : ∀ entry ∈ pl.queue.entries data, src.resolves entry.1 = true) (h₀ : pl₀.Inv)
    (hempty : pl₀.queue.length = 0) (hroom : pl.queue.length ≤ pl₀.queue.maxLength)
    (restorePaused : Bool) (status : PlayerStatus) (allocated : ℕ) :
    RestoresCurrent src restorePaused status pl pl₀ allocated ↔
      pl.playing = true ∨ pl.queue.random = false ∨ pl₀.queue.random = true ∨
        pl.queue.Ranked (pl.queue.order pl.current.toNat) := by
  have hlt := h.current_lt
  have hp : pl.queue.order pl.current.toNat < pl.queue.length := h.queue.order_lt (by omega)
  obtain ⟨fields, hfields, hprinted, hcurrent, hrandom⟩ :=
    Restoring.currentFields_eq h h0 status
  obtain ⟨hcurrent', hrandom'⟩ := Restoring.foldl_modeFields pl status
    (fields.foldl Restoring.nextCurrent (-1)) (fields.foldl Restoring.nextRandomMode false)
  have hall : ∀ f ∈ fields ++ pl.modeFields status, Printed f.2 := fun f hf =>
    (mem_append.mp hf).elim (hprinted f) (Restoring.printed_modeFields pl status f)
  obtain ⟨b, hread, hb⟩ := Reader.readLine_eq (r := ⟨⟨0, allocated⟩, _⟩)
    (by decide : 0 < LineBuffer.maxLength) (pl.readable_stateName status) rfl
  obtain ⟨s, hs, hlines⟩ := Restoring.readLines_save src h hbyte huri hfound h₀ hempty
    hroom hall ((foldl_append ..).trans (hcurrent'.trans hcurrent))
    ((foldl_append ..).trans hrandom') hb rfl
  have hrun : RestoresCurrent src restorePaused status pl pl₀ allocated ↔
      ∀ d, ((s.withDraws d).finish restorePaused (stateOfName (pl.stateName status))).Succeeds
        fun r => r.1.designated = some (pl.queue.order pl.current.toNat) := by
    have hlabel : stateLabel.isPrefixOf (stateLabel ++ pl.stateName status) = true :=
      isPrefixOf_iff_prefix.mpr (prefix_append _ _)
    have hsave : pl.stateSave data status = .ok (stateLabel ++ pl.stateName status ++ '\n' ::
        (saveFields (fields ++ pl.modeFields status) ++
          (playlistBegin ++ '\n' :: (pl.queue.save data ++ (playlistEnd ++ ['\n']))))) := by
      rw [Playlist.stateSave, hfields]
      rfl
    refine forall_congr' fun d => ?_
    rw [saveAndRestore, hsave, ok_bind, Playlist.readStateFile, hread, h.designated_eq h0]
    simp only [Playlist.stateRestore, hlabel, if_true, hlines, ok_bind, drop_left]
    cases (s.withDraws d).finish restorePaused (stateOfName (pl.stateName status)) with
    | error e => exact iff_of_false not_succeeds_error not_succeeds_error
    | ok r =>
      rw [succeeds_ok]
      exact succeeds_pure
  rw [hrun]
  cases hplay : pl.playing with
  | true =>
    have hstate : stateOfName (pl.stateName status) ≠ .stop := fun hstop => by
      rw [pl.stateOfName_eq_stop_iff, hplay] at hstop
      exact nomatch hstop
    exact iff_of_true (fun d => hs.finish_designated hp hstate d) (.inl rfl)
  | false =>
    rw [(pl.stateOfName_eq_stop_iff status).mpr hplay]
    simp only [hs.finish_stop_iff hp, hs.forall_order_iff hp, Bool.false_eq_true, false_or]

end

/-! ### Two songs -/

open Playlist (Op)

instance : SongRef NamedSong := ⟨fun song => !uriHasScheme song.1⟩

def Playlist.noneNamed : Playlist NamedSong :=
  .init Queue.noneNamed ⟨fun _ => ⟨.play, none, .noError⟩, []⟩

theorem Playlist.inv_noneNamed : Playlist.noneNamed.Inv :=
  inv_init (Queue.inv_init (by decide) _ _ _ _) _

def PlayerStatus.begun : PlayerStatus where
  state := .play
  elapsedTime := 0
  crossFade := 0
  mixrampDb := ⟨"0.000000".toList, .of_all (by decide) (by decide)⟩
  mixrampDelay := ⟨"nan".toList, .of_all (by decide) (by decide)⟩

def twoSongs : List NamedSong :=
  [⟨"a".toList, by decide, by decide⟩, ⟨"b".toList, by decide, by decide⟩]

theorem restoresCurrent_playing : ∃ pl : Playlist NamedSong,
    Reaches Op.run Op.Safe Playlist.noneNamed pl ∧ pl.playing = true ∧
      pl.queue.random = true ∧ pl.designated = some 1 ∧
      RestoresCurrent (SongSource.named twoSongs) false .begun pl .noneNamed 1024 := by
  obtain ⟨pl, hpl, hplay, hrandom, hdes, hentries⟩ := exists_reaches Op.run Op.Safe
    Playlist.noneNamed (twoSongs.map Op.appendSong ++ [.setRandom true, .play 1])
    (P := fun pl => pl.playing = true ∧ pl.queue.random = true ∧ pl.designated = some 1 ∧
      pl.queue.entries namedData = twoSongs.map (fun song => (song.1, 0))) (by decide)
  have hinv := Playlist.inv_noneNamed.reaches hpl
  have hlen : pl.queue.length = 2 := by
    rw [← Queue.length_entries namedData, hentries]
    rfl
  refine ⟨pl, hpl, hplay, hrandom, hdes, ?_⟩
  refine (restoresCurrent_iff hinv (hinv.playing hplay) ?_ ?_ ?_ Playlist.inv_noneNamed rfl ?_
    false .begun 1024).mpr (.inl hplay)
  · rw [hentries]
    decide
  · rw [hentries]
    decide
  · rw [hentries]
    decide
  · rw [hlen]
    decide

theorem not_restoresCurrent_stopped : ∃ pl : Playlist NamedSong,
    Reaches Op.run Op.Safe Playlist.noneNamed pl ∧ pl.playing = false ∧
      pl.queue.random = true ∧ pl.designated = some 1 ∧
      pl.queue.entries namedData = twoSongs.map (fun song => (song.1, 0)) ∧
      ¬ RestoresCurrent (SongSource.named twoSongs) false .begun pl .noneNamed 1024 := by
  obtain ⟨pl, hpl, hplay, hrandom, hdes, hentries, r, hr, hzero⟩ :=
    exists_reaches Op.run Op.Safe Playlist.noneNamed
      (twoSongs.map Op.appendSong ++ [.setRandom true, .play 1, .stop])
      (P := fun pl => pl.playing = false ∧ pl.queue.random = true ∧ pl.designated = some 1 ∧
        pl.queue.entries namedData = twoSongs.map (fun song => (song.1, 0)) ∧
        (saveAndRestore (SongSource.named twoSongs) false .begun pl
          (Playlist.noneNamed.withDraws fun _ => 1) 1024).Succeeds fun pl' =>
            pl'.designated = some 0) (by decide +kernel)
  refine ⟨pl, hpl, hplay, hrandom, hdes, hentries, fun hall => ?_⟩
  obtain ⟨r', hr', hone⟩ := hall fun _ => 1
  rw [hr] at hr'
  rw [← ok.inj hr', hzero, hdes] at hone
  exact nomatch hone

end Mpd
