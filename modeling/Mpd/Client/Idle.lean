import Mathlib.Data.Fintype.OfMap
import Mpd.Client.Process
import Mpd.Database.Locate

/-!
# Idle events

`idle.c` and `client_idle.c`. An event is raised by `idle_add`, in any thread: it is put into the
global `idle_flags`, a queue in which equal events fall together. The main thread takes the whole
queue (`idle_event_emitted` in `main.c`) and hands it to every client, where it is pending until
the client is answered. A client is answered at once if it waits for one of its pending events,
and otherwise as soon as it sends "idle" with a mask that contains one.

Two history variables say what a client may expect. `owed` collects the events that have been
raised since the client connected and have not been reported to it; each response is recorded with
what was owed when it was sent. A response is *complete* if it reports every event owed that its
mask contains.

`client_idle_notify` forgets all pending events but reports those of the mask only, so that
responses are not complete in general; they are as long as nothing but events of the mask is
pending when a response is sent (`reaches_complete`).
-/

namespace Mpd

open List

namespace Idle

/-! ### Subsystems and their flags -/

inductive Subsystem
  | database | storedPlaylist | playlist | player | mixer | output | options | sticker | update
  | subscription | message
  deriving DecidableEq, Repr

def idleNames : List (Subsystem × String) :=
  [(.database, "database"), (.storedPlaylist, "stored_playlist"), (.playlist, "playlist"),
    (.player, "player"), (.mixer, "mixer"), (.output, "output"), (.options, "options"),
    (.sticker, "sticker"), (.update, "update"), (.subscription, "subscription"),
    (.message, "message")]

instance : Fintype Subsystem :=
  .ofList (idleNames.map Prod.fst) fun i => by cases i <;> decide

abbrev Flags := BitVec 32

namespace Subsystem

def index : Subsystem → ℕ
  | database => 0
  | storedPlaylist => 1
  | playlist => 2
  | player => 3
  | mixer => 4
  | output => 5
  | options => 6
  | sticker => 7
  | update => 8
  | subscription => 9
  | message => 10

def flag (i : Subsystem) : Flags :=
  1#32 <<< i.index

theorem index_lt (i : Subsystem) : i.index < 32 := by
  cases i <;> decide

example : idleNames.map (fun p => p.1.index) = range idleNames.length := by
  decide

end Subsystem

def Has (flags : Flags) (i : Subsystem) : Prop :=
  flags.getLsbD i.index = true
  deriving Decidable

def Within (flags flags' : Flags) : Prop :=
  ∀ i, Has flags i → Has flags' i
  deriving Decidable

variable {flags flags' subscriptions queued : Flags} {i : Subsystem}

@[simp]
theorem has_or : Has (flags ||| flags') i ↔ Has flags i ∨ Has flags' i := by
  simp [Has]

@[simp]
theorem not_has_zero : ¬ Has 0 i := by
  simp [Has]

theorem has_and_not : Has (flags &&& ~~~flags') i ↔ Has flags i ∧ ¬ Has flags' i := by
  simp [Has, i.index_lt]

@[simp]
theorem has_and : Has (flags &&& flags') i ↔ Has flags i ∧ Has flags' i := by
  simp [Has]

theorem and_flag_ne_zero : flags &&& i.flag ≠ 0 ↔ Has flags i := by
  rw [Subsystem.flag, ← BitVec.twoPow_eq, BitVec.and_twoPow, Has]
  have hpos : BitVec.twoPow 32 i.index ≠ 0#32 := by
    intro h
    have := congrArg (fun b => b.getLsbD i.index) h
    simp [i.index_lt] at this
  cases flags.getLsbD i.index <;> simp [hpos]

theorem not_has_of_and_eq_zero (h : flags &&& subscriptions = 0) (hi : Has subscriptions i) :
    ¬ Has flags i := by
  intro hflags
  have hboth : Has (flags &&& subscriptions) i := has_and.mpr ⟨hflags, hi⟩
  rw [h] at hboth
  exact not_has_zero hboth

/-! ### Clients -/

inductive Fault
  /-- `assert(flags != 0)` -/
  | noFlags
  /-- `assert(client->idle_waiting)` -/
  | notWaiting
  /-- `assert(client->idle_flags != 0)` -/
  | nothingPending
  /-- `assert(!client->idle_waiting)` -/
  | waiting
  deriving DecidableEq, Repr

def changed (name : String) : Text :=
  "changed: ".toList ++ name.toList ++ ['\n']

def changedLines (flags subscriptions : Flags) : List Text :=
  (idleNames.filter fun p => flags &&& p.1.flag &&& subscriptions ≠ 0).map fun p => changed p.2

/-- A response to "idle". -/
structure Response where
  /-- the mask of the client -/
  subscriptions : Flags
  /-- history variable: what was owed to the client when the response was sent -/
  owed : Flags
  /-- what was sent -/
  lines : List Text

namespace Response

def Reports (r : Response) (i : Subsystem) : Prop :=
  ∃ p ∈ idleNames, p.1 = i ∧ changed p.2 ∈ r.lines
  deriving Decidable

/-- Whatever was owed to the client, and it asked for, is reported. -/
def Complete (r : Response) : Prop :=
  ∀ i, Has r.owed i → Has r.subscriptions i → r.Reports i
  deriving Decidable

end Response

/-- The fields of `struct client` that concern idle mode. -/
structure Client where
  /-- `client_is_expired`: the connection has been given up; a client that has been closed stays
  expired for ever -/
  expired : Bool
  /-- is this client waiting for an "idle" response? -/
  idleWaiting : Bool
  /-- idle flags pending on this client, to be sent as soon as the client enters "idle" -/
  idleFlags : Flags
  /-- idle flags that the client wants to receive -/
  idleSubscriptions : Flags
  /-- history variable: the events raised since the client connected and not reported to it -/
  owed : Flags
  /-- history variable: the responses that have been sent -/
  responses : List Response

inductive Line
  | noidle
  | idle (args : List Text)
  | other
  deriving DecidableEq, Repr

def subscribed (args : List Text) : Flags :=
  let flags := args.foldl (fun flags arg => idleNames.foldl (fun flags p =>
    if equalsIgnoringCase arg p.2.toList then flags ||| p.1.flag else flags) flags) 0
  -- no argument means that the client wants to receive everything
  if flags = 0 then ~~~0 else flags

namespace Client

def new : Client where
  expired := false
  idleWaiting := false
  idleFlags := 0
  idleSubscriptions := 0
  owed := 0
  responses := []

def owe (c : Client) (flags : Flags) : Client :=
  if c.expired then c else { c with owed := c.owed ||| flags }

def respond (c : Client) (lines : List Text) : Client :=
  { c with responses := c.responses ++ [⟨c.idleSubscriptions, c.owed, lines⟩] }

def idleNotify (c : Client) : Except Fault Client :=
  if c.idleWaiting = false then .error .notWaiting
  else if c.idleFlags = 0 then .error .nothingPending
  else
    let flags := c.idleFlags
    let c := c.respond (changedLines flags c.idleSubscriptions ++ [Mpd.Client.okText])
    .ok { c with
      idleFlags := 0
      idleWaiting := false
      owed := c.owed &&& ~~~(flags &&& c.idleSubscriptions) }

def idleAdd (c : Client) (flags : Flags) : Except Fault Client :=
  if c.expired then .ok c
  else
    let c := { c with idleFlags := c.idleFlags ||| flags }
    if c.idleWaiting ∧ c.idleFlags &&& c.idleSubscriptions ≠ 0 then c.idleNotify else .ok c

def idleWait (c : Client) (flags : Flags) : Except Fault (Bool × Client) :=
  if c.idleWaiting then .error .waiting
  else
    let c := { c with idleWaiting := true, idleSubscriptions := flags }
    if c.idleFlags &&& c.idleSubscriptions ≠ 0 then do
      let c ← c.idleNotify
      .ok (true, c)
    else .ok (false, c)

def handleIdle (c : Client) (args : List Text) : Except Fault Client := do
  let (_, c) ← c.idleWait (subscribed args)
  .ok c

def processLine (c : Client) : Line → Except Fault Client
  | .noidle =>
    -- send empty idle response and leave idle mode
    if c.idleWaiting then .ok ({ c with idleWaiting := false }.respond [Mpd.Client.okText])
    else .ok c
  | .idle args => if c.idleWaiting then .ok { c with expired := true } else c.handleIdle args
  | .other => if c.idleWaiting then .ok { c with expired := true } else .ok c

end Client

/-! ### The server -/

/-- The queue of events and the clients, those that have expired included. -/
structure Server where
  /-- the global `idle_flags` -/
  idleFlags : Flags
  clients : List Client

inductive Step
  /-- `idle_add`, in any thread -/
  | idleAdd (flags : Flags)
  /-- `idle_event_emitted`, called by the main loop -/
  | idleEventEmitted
  /-- a client connects -/
  | connect
  /-- a line of a client is processed -/
  | receive (k : ℕ) (line : Line)
  /-- `client_push_message`, when the client had no message -/
  | pushMessage (k : ℕ)
  /-- `client_set_expired` -/
  | expire (k : ℕ)
  deriving DecidableEq, Repr

namespace Server

def init : Server where
  idleFlags := 0
  clients := []

def idleAdd (s : Server) (flags : Flags) : Except Fault Server :=
  if flags = 0 then .error .noFlags else .ok { s with idleFlags := s.idleFlags ||| flags }

def idleGet (s : Server) : Flags × Server :=
  (s.idleFlags, { s with idleFlags := 0 })

def managerIdleAdd (s : Server) (flags : Flags) : Except Fault Server :=
  if flags = 0 then .error .noFlags
  else do
    let clients ← s.clients.mapM (·.idleAdd flags)
    .ok { s with clients := clients }

def idleEventEmitted (s : Server) : Except Fault Server :=
  let (flags, s) := s.idleGet
  if flags ≠ 0 then s.managerIdleAdd flags else .ok s

def onClient (s : Server) (k : ℕ) (f : Client → Except Fault Client) : Except Fault Server :=
  match s.clients[k]? with
  | none => .ok s
  | some c =>
    if c.expired then .ok s
    else do
      let c ← f c
      .ok { s with clients := s.clients.set k c }

end Server

def Step.run : Step → Server → Except Fault Server
  | .idleAdd flags, s => Server.idleAdd { s with clients := s.clients.map (·.owe flags) } flags
  | .idleEventEmitted, s => s.idleEventEmitted
  | .connect, s => .ok { s with clients := s.clients ++ [Client.new] }
  | .receive k line, s => s.onClient k (·.processLine line)
  | .pushMessage k, s =>
    s.onClient k fun c => (c.owe Subsystem.message.flag).idleAdd Subsystem.message.flag
  | .expire k, s => s.onClient k fun c => .ok { c with expired := true }

/-! ### Steps that lose nothing -/

namespace Client

def Settled (c : Client) (queued : Flags) : Prop :=
  c.idleFlags &&& c.idleSubscriptions ≠ 0 →
    Within c.idleFlags c.idleSubscriptions ∧ queued &&& c.idleSubscriptions = 0
  deriving Decidable

def SettledAfter (c : Client) (flags queued : Flags) : Prop :=
  c.expired = false → c.idleWaiting = true →
    { c with idleFlags := c.idleFlags ||| flags }.Settled queued
  deriving Decidable

def SettledOn (c : Client) (queued : Flags) : Line → Prop
  | .noidle => c.idleWaiting = true → queued &&& c.idleSubscriptions = 0
  | .idle args => c.idleWaiting = false →
    { c with idleSubscriptions := subscribed args }.Settled queued
  | .other => True

instance (c : Client) (queued : Flags) (line : Line) : Decidable (c.SettledOn queued line) := by
  rcases line <;> dsimp only [Client.SettledOn] <;> infer_instance

end Client

/-- No answer leaves out what is owed. -/
def Step.Lossless : Step → Server → Prop
  | .idleEventEmitted, s => ∀ c ∈ s.clients, c.SettledAfter s.idleFlags 0
  | .receive k line, s => ∀ c ∈ s.clients[k]?, c.SettledOn s.idleFlags line
  | .pushMessage k, s => ∀ c ∈ s.clients[k]?, c.SettledAfter Subsystem.message.flag s.idleFlags
  | _, _ => True

instance (a : Step) (s : Server) : Decidable (a.Lossless s) := by
  rcases a <;> dsimp only [Step.Lossless] <;> infer_instance

/-! ### What a client is owed -/

theorem reports_changedLines {lines : List Text} (hflags : Has flags i)
    (hsub : Has subscriptions i) :
    Response.Reports ⟨subscriptions, flags', changedLines flags subscriptions ++ lines⟩ i := by
  have hnamed : ∃ p ∈ idleNames, p.1 = i := by
    cases i <;> decide
  obtain ⟨p, hp, rfl⟩ := hnamed
  refine ⟨p, hp, rfl, mem_append_left _ (mem_map.mpr ⟨p, ?_, rfl⟩)⟩
  rw [mem_filter, BitVec.and_assoc, BitVec.and_comm p.1.flag, ← BitVec.and_assoc]
  exact ⟨hp, decide_eq_true (and_flag_ne_zero.mpr (has_and.mpr ⟨hflags, hsub⟩))⟩

namespace Client

variable {c : Client}

/-- What a client is owed is pending or queued; a waiting client has nothing pending that it waits
for; and its responses were complete. -/
structure Sound (queued : Flags) (c : Client) : Prop where
  kept : c.expired = false → Within c.owed (c.idleFlags ||| queued)
  silent : c.expired = false → c.idleWaiting = true → c.idleFlags &&& c.idleSubscriptions = 0
  complete : ∀ r ∈ c.responses, r.Complete

theorem sound_new : Sound queued new := by
  constructor
  · intro _ i h
    exact absurd h not_has_zero
  · intro _ h
    cases h
  · intro r h
    cases h

theorem Sound.expire (h : c.Sound queued) : { c with expired := true }.Sound queued := by
  constructor
  · intro hexpired
    cases hexpired
  · intro hexpired
    cases hexpired
  · exact h.complete

theorem Sound.owe (h : c.Sound queued) (flags : Flags) :
    (c.owe flags).Sound (queued ||| flags) := by
  rw [Client.owe]
  split
  · next hexpired =>
    constructor
    · intro hlive
      rw [hexpired] at hlive
      cases hlive
    · exact h.silent
    · exact h.complete
  · constructor
    · intro hlive i hi
      rcases has_or.mp hi with hi | hi
      · rcases has_or.mp (h.kept hlive i hi) with hi | hi
        · exact has_or.mpr (.inl hi)
        · exact has_or.mpr (.inr (has_or.mpr (.inl hi)))
      · exact has_or.mpr (.inr (has_or.mpr (.inr hi)))
    · exact h.silent
    · exact h.complete

theorem idleNotify_sound (hkept : Within c.owed (c.idleFlags ||| queued))
    (hcomplete : ∀ r ∈ c.responses, r.Complete) (hwaiting : c.idleWaiting = true)
    (hpending : c.idleFlags &&& c.idleSubscriptions ≠ 0) (hsettled : c.Settled queued) :
    c.idleNotify.Succeeds (Sound queued) := by
  have hflags : c.idleFlags ≠ 0 := by
    intro h
    rw [h] at hpending
    exact hpending BitVec.zero_and
  obtain ⟨hwithin, hqueued⟩ := hsettled hpending
  rw [idleNotify, if_neg (by rw [hwaiting]; decide), if_neg hflags, Except.succeeds_ok]
  constructor
  · -- what remains owed was not pending, so it is queued
    intro _ i hi
    obtain ⟨howed, hnot⟩ := has_and_not.mp hi
    rcases has_or.mp (hkept i howed) with hi | hi
    · exact absurd (has_and.mpr ⟨hi, hwithin i hi⟩) hnot
    · exact has_or.mpr (.inr hi)
  · intro _ h
    cases h
  · intro r hr
    rcases mem_append.mp hr with hr | hr
    · exact hcomplete r hr
    · obtain rfl := mem_singleton.mp hr
      intro i howed hsub
      rcases has_or.mp (hkept i howed) with hi | hi
      · exact reports_changedLines hi hsub
      · exact absurd hi (not_has_of_and_eq_zero hqueued hsub)

theorem idleAdd_sound (hkept : c.expired = false → Within c.owed (c.idleFlags ||| flags ||| queued))
    (hcomplete : ∀ r ∈ c.responses, r.Complete) (hsettled : c.SettledAfter flags queued) :
    (c.idleAdd flags).Succeeds (Sound queued) := by
  refine .ite (fun hexpired => ?_) (fun hlive => ?_)
  · rw [Except.succeeds_ok]
    constructor
    · intro h
      rw [hexpired] at h
      cases h
    · intro h
      rw [hexpired] at h
      cases h
    · exact hcomplete
  · rw [Bool.not_eq_true] at hlive
    refine .ite (fun hnotify => ?_) (fun hnotify => ?_)
    · exact idleNotify_sound (hkept hlive) hcomplete hnotify.1 hnotify.2 (hsettled hlive hnotify.1)
    · rw [Except.succeeds_ok]
      constructor
      · exact hkept
      · intro _ hwaiting
        by_contra hpending
        exact hnotify ⟨hwaiting, hpending⟩
      · exact hcomplete

theorem handleIdle_sound (h : c.Sound queued) (hlive : c.expired = false)
    (hwaiting : c.idleWaiting = false) {args : List Text}
    (hsettled : { c with idleSubscriptions := subscribed args }.Settled queued) :
    (c.handleIdle args).Succeeds (Sound queued) := by
  rw [handleIdle, idleWait, if_neg (by rw [hwaiting]; decide)]
  dsimp only
  split
  · next hpending =>
    have hnotify := idleNotify_sound
      (c := { c with idleWaiting := true, idleSubscriptions := subscribed args })
      (h.kept hlive) h.complete rfl hpending hsettled
    obtain ⟨c', hc', hsound⟩ := hnotify
    rw [hc']
    exact .ok hsound
  · next hpending =>
    refine .ok ?_
    constructor
    · exact h.kept
    · intro _ _
      exact not_not.mp hpending
    · exact h.complete

theorem processLine_sound (h : c.Sound queued) (hlive : c.expired = false) {line : Line}
    (hsettled : c.SettledOn queued line) : (c.processLine line).Succeeds (Sound queued) := by
  cases line with
  | noidle =>
    refine .ite (fun hwaiting => ?_) (fun _ => .ok h)
    refine .ok ?_
    constructor
    · exact h.kept
    · intro _ h
      cases h
    · -- the empty response is complete: what the client waits for is neither pending nor queued
      intro r hr
      rcases mem_append.mp hr with hr | hr
      · exact h.complete r hr
      · obtain rfl := mem_singleton.mp hr
        intro i howed hsub
        rcases has_or.mp (h.kept hlive i howed) with hi | hi
        · exact absurd hi (not_has_of_and_eq_zero (h.silent hlive hwaiting) hsub)
        · exact absurd hi (not_has_of_and_eq_zero (hsettled hwaiting) hsub)
  | idle args =>
    refine .ite (fun _ => .ok h.expire) (fun hwaiting => ?_)
    rw [Bool.not_eq_true] at hwaiting
    exact handleIdle_sound h hlive hwaiting (hsettled hwaiting)
  | other =>
    exact .branch (.ok h.expire) (.ok h)

end Client

/-! ### Runs -/

namespace Server

variable {s : Server}

def Sound (s : Server) : Prop :=
  ∀ c ∈ s.clients, c.Sound s.idleFlags

theorem Sound.onClient (h : s.Sound) (k : ℕ) {f : Client → Except Fault Client}
    (hf : ∀ c, s.clients[k]? = some c → c.expired = false → c.Sound s.idleFlags →
      (f c).Yields (Client.Sound s.idleFlags)) : (s.onClient k f).Yields Sound := by
  rw [Server.onClient]
  split
  · exact .ok h
  · next c hc =>
    refine .ite (fun _ => .ok h) (fun hlive => ?_)
    rw [Bool.not_eq_true] at hlive
    refine (hf c hc hlive (h c (mem_of_getElem? hc))).bind fun c' hc' => ?_
    refine .ok fun d hd => ?_
    rcases mem_or_eq_of_mem_set hd with hd | rfl
    · exact h d hd
    · exact hc'

end Server

theorem Step.sound_run {a : Step} {s : Server} (h : s.Sound) (hlossless : a.Lossless s) :
    (a.run s).Yields Server.Sound := by
  cases a with
  | idleAdd flags =>
    refine .branch .error (.ok fun c hc => ?_)
    obtain ⟨d, hd, rfl⟩ := mem_map.mp hc
    exact (h d hd).owe flags
  | idleEventEmitted =>
    refine .ite (fun _ => ?_) (fun hnone => ?_)
    · refine .branch .error ?_
      refine (Except.Yields.mapM (R := Client.Sound 0) fun c hc => ?_).bind fun l hl =>
        .ok hl
      refine (Client.idleAdd_sound (fun hlive i hi => ?_) (h c hc).complete (hlossless c hc)).yields
      exact has_or.mpr (.inl ((h c hc).kept hlive i hi))
    · -- the queue was empty
      refine .ok fun c hc => ?_
      have hsound := h c hc
      rwa [not_not.mp hnone] at hsound
  | connect =>
    refine .ok fun c hc => ?_
    rcases mem_append.mp hc with hc | hc
    · exact h c hc
    · rw [mem_singleton.mp hc]
      exact Client.sound_new
  | receive k line =>
    exact h.onClient k fun c hc hlive hsound =>
      (Client.processLine_sound hsound hlive (hlossless c hc)).yields
  | pushMessage k =>
    refine h.onClient k fun c hc hlive hsound => ?_
    have howed := hsound.owe Subsystem.message.flag
    have hsettled := hlossless c hc
    rw [Client.owe, if_neg (by rw [hlive]; decide)] at howed ⊢
    refine (Client.idleAdd_sound (fun hlive i hi => ?_) howed.complete hsettled).yields
    have hi := howed.kept hlive i hi
    simp only [has_or] at hi ⊢
    tauto
  | expire k => exact h.onClient k fun c _ _ hsound => .ok hsound.expire

theorem reaches_sound {s : Server} (h : Reaches Step.run Step.Lossless Server.init s) : s.Sound :=
  h.invariant (fun _ hc => nomatch hc) fun _ _ hlossless hsound => Step.sound_run hsound hlossless

/-- **No event is lost** in a run in which every response is sent with nothing pending outside the
mask of the client, and no event of the mask behind it in the queue: what has been raised while a
client is connected, and not been reported to it, is pending or queued, and every response reports
all of it that its mask contains. -/
theorem reaches_complete {s : Server} (h : Reaches Step.run Step.Lossless Server.init s) :
    ∀ c ∈ s.clients, (c.expired = false → Within c.owed (c.idleFlags ||| s.idleFlags)) ∧
      ∀ r ∈ c.responses, r.Complete := by
  intro c hc
  have hsound := reaches_sound h c hc
  exact ⟨hsound.kept, hsound.complete⟩

theorem reaches_complete_two_events : ∃ s, Reaches Step.run Step.Lossless Server.init s ∧
      (∃ c ∈ s.clients, c.responses.length = 1) ∧
      ∀ c ∈ s.clients, (c.expired = false → Within c.owed (c.idleFlags ||| s.idleFlags)) ∧
        ∀ r ∈ c.responses, r.Complete := by
  obtain ⟨s, hs, hone⟩ := exists_reaches Step.run Step.Lossless Server.init
    [.connect, .idleAdd Subsystem.player.flag, .receive 0 (.idle ["player".toList, "mixer".toList]),
      .idleAdd Subsystem.mixer.flag, .idleEventEmitted]
    (P := fun s => ∃ c ∈ s.clients, c.responses.length = 1) (by decide)
  exact ⟨s, hs, hone, reaches_complete hs⟩

theorem exists_not_complete : ∃ s, Reaches Step.run (fun _ _ => True) Server.init s ∧
      s.idleFlags = 0 ∧ ∃ c ∈ s.clients, c.expired = false ∧
        ¬ Within c.owed (c.idleFlags ||| s.idleFlags) ∧ ∃ r ∈ c.responses, ¬ r.Complete :=
  exists_reaches _ _ _
    [.connect, .idleAdd Subsystem.player.flag, .idleAdd Subsystem.mixer.flag, .idleEventEmitted,
      .receive 0 (.idle ["mixer".toList]), .idleAdd Subsystem.mixer.flag, .idleEventEmitted,
      .receive 0 (.idle ["player".toList, "mixer".toList])] (by decide)

/-! ### Clients that wait -/

/-- Nothing is pending that the client waits for. -/
def Client.Silent (c : Client) : Prop :=
  c.expired = false → c.idleWaiting = true → c.idleFlags &&& c.idleSubscriptions = 0

namespace Client.Silent

variable {c : Client}

theorem of_expired (h : c.expired = true) : c.Silent :=
  fun hlive => absurd (h.symm.trans hlive) (by decide)

theorem idleNotify (c : Client) : c.idleNotify.Yields Silent :=
  .branch .error <| .branch .error <| .ok fun _ h => nomatch h

theorem idleAdd (c : Client) (flags : Flags) : (c.idleAdd flags).Yields Silent := by
  refine .ite (fun h => .ok (of_expired h)) fun _ => .ite (fun _ => idleNotify _) fun hnot => ?_
  refine .ok fun _ hwaiting => ?_
  by_contra hpending
  exact hnot ⟨hwaiting, hpending⟩

theorem processLine (h : c.Silent) (line : Line) : (c.processLine line).Yields Silent := by
  cases line with
  | noidle => exact .branch (.ok fun _ h => nomatch h) <| .ok h
  | idle args =>
    refine .branch (.ok (of_expired rfl)) <| .bind (P := fun r => r.2.Silent) ?_ ?_
    · refine .branch .error <| .ite (fun _ => ?_) fun hnot => ?_
      · exact (idleNotify _).bind fun _ h => .ok h
      · exact .ok fun _ _ => not_not.mp hnot
    · exact fun _ h => .ok h
  | other => exact .branch (.ok (of_expired rfl)) <| .ok h

end Client.Silent

/-- No client waits while there is something to tell it. -/
def Server.Silent (s : Server) : Prop :=
  ∀ c ∈ s.clients, c.Silent

theorem Server.Silent.onClient {s : Server} (h : s.Silent) (k : ℕ)
    {f : Client → Except Fault Client} (hf : ∀ c, c.Silent → (f c).Yields Client.Silent) :
    (s.onClient k f).Yields Silent := by
  rw [Server.onClient]
  split
  · exact .ok h
  · next c hc =>
    refine .branch (.ok h) <| (hf c (h c (mem_of_getElem? hc))).bind fun c' hc' => ?_
    exact .ok fun d hd => (mem_or_eq_of_mem_set hd).elim (h d) fun heq => heq ▸ hc'

theorem Step.run_silent {s : Server} (h : s.Silent) (a : Step) :
    (a.run s).Yields Server.Silent := by
  cases a with
  | idleAdd flags =>
    refine .branch .error <| .ok (forall_mem_map.mpr fun c hc => ?_)
    rw [Client.owe]
    split <;> exact h c hc
  | idleEventEmitted =>
    refine .branch (.branch .error ?_) <| .ok h
    exact (Except.Yields.mapM fun c _ => Client.Silent.idleAdd c _).bind fun _ hl => .ok hl
  | connect => exact .ok (forall_mem_append.mpr ⟨h, by simp [Client.Silent, Client.new]⟩)
  | receive k line => exact h.onClient k fun c hc => hc.processLine line
  | pushMessage k => exact h.onClient k fun c _ => .idleAdd _ _
  | expire k => exact h.onClient k fun c _ => .ok (.of_expired rfl)

/-- **No client waits for an event that is pending**, also where events get lost. -/
theorem reaches_silent {s : Server} (h : Reaches Step.run (fun _ _ => True) Server.init s) :
    s.Silent :=
  h.invariant (fun _ hc => nomatch hc) fun a _ _ ht => Step.run_silent ht a

theorem reaches_silent_idle : ∃ s : Server, s.Silent ∧ ∃ c ∈ s.clients, c.idleWaiting = true := by
  obtain ⟨s, hs, hwaiting⟩ := exists_reaches Step.run (fun _ _ => True) Server.init
    [.connect, .receive 0 (.idle ["player".toList])]
    (P := fun s => ∃ c ∈ s.clients, c.idleWaiting = true) (by decide)
  exact ⟨s, reaches_silent hs, hwaiting⟩

end Idle

end Mpd
