import Mpd.General.History
import Mpd.General.Runs

/-!
# The event pipe

`event_pipe.c`: any thread can ask the main thread to call a function. `event_pipe_emit` sets the
flag of the event and writes a byte to a pipe, which wakes the main thread up; if the flag was set
already, no byte is written. `main_notify_event` reads the pipe, takes all flags and calls the
callback of each event that it has taken.

Flags are set and taken under a mutex, but the pipe is not: a byte is written after the flag has
been set, and read before the flags are taken. A step of the model is a section under the mutex, a
write or a read, and the steps of the main thread and of any number of emitters interleave freely.

`reachable_nothingLost`: while a flag is set, the main thread is awake or will be woken up; an
event is taken by the next copy after the section of its emit; and the callbacks of all events
taken have been called when `main_notify_event` returns.

A write fails only if the pipe is full. What the callbacks do has no counterpart; emits by the main
thread itself are those of another emitter.
-/

namespace Mpd

inductive PipeEvent
  /-- database update was finished -/
  | update
  /-- during database update, a song was deleted -/
  | delete
  /-- an idle event was emitted -/
  | idle
  /-- must call `playlist_sync` -/
  | playlist
  /-- the current song's tag has changed -/
  | tag
  /-- SIGHUP received: reload configuration, roll log file -/
  | reload
  /-- a hardware mixer plugin has detected a change -/
  | mixer
  /-- shutdown requested -/
  | shutdown
  deriving DecidableEq, Repr

def PipeEvent.all : List PipeEvent :=
  [.update, .delete, .idle, .playlist, .tag, .reload, .mixer, .shutdown]

theorem PipeEvent.mem_all (e : PipeEvent) : e ∈ all := by
  cases e <;> decide

namespace EventPipe

universe u

inductive EmitterPc
  /-- not in `event_pipe_emit` -/
  | outside
  /-- the flag has been set, and the byte is not written yet -/
  | writing
  deriving DecidableEq, Repr

inductive MainPc
  /-- not in `main_notify_event` -/
  | waiting
  /-- the pipe has been read, and the flags are not taken yet -/
  | read
  /-- the callbacks of these events are still to be called -/
  | invoking (events : List PipeEvent)
  deriving DecidableEq, Repr

inductive Entry (T : Type u)
  /-- `event_pipe_emit` is called, and has come to its section under the mutex -/
  | emit (t : T) (e : PipeEvent)
  /-- the main thread takes the flags: these were set -/
  | copy (events : List PipeEvent)
  /-- the callback of the event is called -/
  | invoke (e : PipeEvent)
  /-- `main_notify_event` returns -/
  | finish
  deriving DecidableEq, Repr

/-- The pipe and the threads that use it. -/
structure State (T : Type u) where
  /-- how many bytes the pipe holds at most -/
  capacity : ℕ
  /-- the bytes in the pipe -/
  bytes : ℕ
  /-- `pipe_events` -/
  pipeEvents : PipeEvent → Bool
  main : MainPc
  emitters : T → EmitterPc
  /-- history variable: what has happened, the latest first -/
  log : List (Entry T)

inductive Step (T : Type u)
  /-- `event_pipe_emit`: the section under the mutex -/
  | emit (t : T) (e : PipeEvent)
  /-- `event_pipe_emit`: write a byte to the pipe -/
  | write (t : T)
  /-- `main_notify_event`: read from the pipe -/
  | read (bytes : ℕ)
  /-- `main_notify_event`: the section under the mutex -/
  | copy
  /-- `main_notify_event`: a round of the loop -/
  | invoke
  deriving DecidableEq, Repr

def bufferSize : ℕ := 256

section

variable {T : Type u}

namespace State

def init (T : Type u) (capacity : ℕ) : State T where
  capacity := capacity
  bytes := 0
  pipeEvents := fun _ => false
  main := .waiting
  emitters := fun _ => .outside
  log := []

def flagged (s : State T) : List PipeEvent :=
  PipeEvent.all.filter s.pipeEvents

def copy (s : State T) : State T :=
  { s with
    pipeEvents := fun _ => false
    main := .invoking s.flagged
    log := .copy s.flagged :: s.log }

variable [DecidableEq T]

def emit (s : State T) (t : T) (e : PipeEvent) : State T :=
  if s.pipeEvents e then
    -- already set: don't write
    s
  else
    { s with
      pipeEvents := Function.update s.pipeEvents e true
      emitters := Function.update s.emitters t .writing }

def write (s : State T) (t : T) : State T :=
  { s with
    bytes := if s.bytes < s.capacity then s.bytes + 1 else s.bytes
    emitters := Function.update s.emitters t .outside }

end State

def Step.run [DecidableEq T] : Step T → State T → Except Unit (State T)
  | .emit t e, s =>
    if s.emitters t = .outside then .ok ({ s with log := .emit t e :: s.log }.emit t e)
    else .error ()
  | .write t, s => if s.emitters t = .writing then .ok (s.write t) else .error ()
  | .read bytes, s =>
    if s.main = .waiting ∧ bytes ≤ s.bytes ∧ bytes ≤ bufferSize then
      .ok { s with bytes := s.bytes - bytes, main := .read }
    else .error ()
  | .copy, s => if s.main = .read then .ok s.copy else .error ()
  | .invoke, s =>
    match s.main with
    | .invoking (e :: events) => .ok { s with main := .invoking events, log := .invoke e :: s.log }
    | .invoking [] => .ok { s with main := .waiting, log := .finish :: s.log }
    | _ => .error ()

def Reachable [DecidableEq T] (capacity : ℕ) (s : State T) : Prop :=
  Reaches Step.run (fun _ _ => True) (State.init T capacity) s

/-! ### Wake-ups -/

/-- The main thread is going to look at the events. -/
def State.Awake (s : State T) : Prop :=
  (∃ e, s.pipeEvents e = true) →
    0 < s.bytes ∨ (∃ t, s.emitters t = .writing) ∨ s.main = .read

/-! ### What becomes of an event -/

def MainPc.todo : MainPc → List PipeEvent
  | .invoking events => events
  | _ => []

namespace Entry

@[simp]
def Emits (e : PipeEvent) : Entry T → Prop
  | .emit _ e' => e' = e
  | _ => False

@[simp]
def IsCopy : Entry T → Prop
  | .copy _ => True
  | _ => False

@[simp]
def Copies (e : PipeEvent) : Entry T → Prop
  | .copy events => e ∈ events
  | _ => False

@[simp]
def Invokes (e : PipeEvent) : Entry T → Prop
  | .invoke e' => e' = e
  | _ => False

def Sound : Entry T → List (Entry T) → Prop
  | .copy events, before => ∀ e, Unanswered (Emits e) IsCopy before → e ∈ events
  | .finish, before => ∀ e, ¬ Unanswered (Copies e) (Invokes e) before
  | _, _ => True

end Entry

/-- Whatever is in the log is right, given what was there before. -/
def NothingLost (log : List (Entry T)) : Prop :=
  ∀ after x before, log = after ++ x :: before → x.Sound before

theorem nothingLost_nil : NothingLost ([] : List (Entry T)) := by
  intro after x before h
  simp at h

theorem nothingLost_cons {x : Entry T} {log : List (Entry T)} :
    NothingLost (x :: log) ↔ x.Sound log ∧ NothingLost log :=
  forall_entry_cons

/-- An event that no copy has taken since it was emitted has its flag set, and an event that has
been taken and not been passed to its callback is still to be. -/
structure State.Inv (capacity : ℕ) (s : State T) : Prop where
  capacity_eq : s.capacity = capacity
  awake : s.Awake
  flag_of_emit : ∀ e, Unanswered (Entry.Emits e) Entry.IsCopy s.log → s.pipeEvents e = true
  todo_of_copy : ∀ e, Unanswered (Entry.Copies e) (Entry.Invokes e) s.log → e ∈ s.main.todo
  nothingLost : NothingLost s.log

namespace State

variable {s : State T} {t : T} {e : PipeEvent} {events : List PipeEvent} {capacity : ℕ}

theorem inv_init : (init T capacity).Inv capacity where
  capacity_eq := rfl
  awake := by
    rintro ⟨e, he⟩
    cases he
  flag_of_emit e h := absurd h not_unanswered_nil
  todo_of_copy e h := absurd h not_unanswered_nil
  nothingLost := nothingLost_nil

theorem mem_flagged : e ∈ s.flagged ↔ s.pipeEvents e = true := by
  simp [flagged, PipeEvent.mem_all]

variable (h : s.Inv capacity)
include h

theorem Inv.copy (hmain : s.main = .read) : s.copy.Inv capacity := by
  constructor
  · exact h.capacity_eq
  · rintro ⟨e, he⟩
    cases he
  · intro e he
    simp [State.copy, unanswered_cons] at he
  · intro e he
    simp only [State.copy, unanswered_cons, Entry.Copies, Entry.Invokes, not_false_eq_true,
      true_and] at he
    obtain he | he := he
    · exact he
    · have htodo := h.todo_of_copy e he
      rw [hmain] at htodo
      cases htodo
  · refine nothingLost_cons.mpr ⟨fun e he => ?_, h.nothingLost⟩
    exact mem_flagged.mpr (h.flag_of_emit e he)

theorem Inv.awake_of_invoking (hmain : s.main = .invoking events)
    (hflag : ∃ e, s.pipeEvents e = true) :
    0 < s.bytes ∨ ∃ t, s.emitters t = .writing := by
  rcases h.awake hflag with hbytes | hwriting | hread
  · exact .inl hbytes
  · exact .inr hwriting
  · rw [hmain] at hread
    cases hread

theorem Inv.invoke (hmain : s.main = .invoking (e :: events)) :
    { s with main := .invoking events, log := .invoke e :: s.log }.Inv capacity := by
  constructor
  · exact h.capacity_eq
  · exact fun hflag => (h.awake_of_invoking hmain hflag).imp_right .inl
  · intro e' he'
    exact h.flag_of_emit e' (by simpa [unanswered_cons] using he')
  · intro e' he'
    simp only [unanswered_cons, Entry.Copies, Entry.Invokes, false_or] at he'
    have htodo := h.todo_of_copy e' he'.2
    rw [hmain] at htodo
    exact (List.mem_cons.mp htodo).resolve_left (Ne.symm he'.1)
  · exact nothingLost_cons.mpr ⟨trivial, h.nothingLost⟩

theorem Inv.finish (hmain : s.main = .invoking []) :
    { s with main := .waiting, log := .finish :: s.log }.Inv capacity := by
  have htodo : ∀ e, ¬ Unanswered (Entry.Copies e) (Entry.Invokes e) s.log := by
    intro e he
    have hmem := h.todo_of_copy e he
    rw [hmain] at hmem
    cases hmem
  constructor
  · exact h.capacity_eq
  · exact fun hflag => (h.awake_of_invoking hmain hflag).imp_right .inl
  · intro e he
    exact h.flag_of_emit e (by simpa [unanswered_cons] using he)
  · intro e he
    exact absurd (by simpa [unanswered_cons] using he) (htodo e)
  · exact nothingLost_cons.mpr ⟨htodo, h.nothingLost⟩

variable [DecidableEq T]

theorem Inv.emit (t : T) (e : PipeEvent) :
    ({ s with log := .emit t e :: s.log }.emit t e).Inv capacity := by
  rw [State.emit]
  split
  · next hset =>
    -- the event has its flag already, and its byte is on the way
    constructor
    · exact h.capacity_eq
    · exact h.awake
    · intro e' he'
      simp only [unanswered_cons, Entry.Emits, Entry.IsCopy, not_false_eq_true, true_and] at he'
      obtain rfl | he' := he'
      · exact hset
      · exact h.flag_of_emit e' he'
    · intro e' he'
      exact h.todo_of_copy e' (by simpa [unanswered_cons] using he')
    · exact nothingLost_cons.mpr ⟨trivial, h.nothingLost⟩
  · constructor
    · exact h.capacity_eq
    · intro _
      exact .inr (.inl ⟨t, Function.update_self ..⟩)
    · intro e' he'
      simp only [unanswered_cons, Entry.Emits, Entry.IsCopy, not_false_eq_true, true_and] at he'
      obtain rfl | he' := he'
      · exact Function.update_self ..
      · dsimp only
        rw [Function.update_apply, h.flag_of_emit e' he', ite_self]
    · intro e' he'
      exact h.todo_of_copy e' (by simpa [unanswered_cons] using he')
    · exact nothingLost_cons.mpr ⟨trivial, h.nothingLost⟩

theorem Inv.write (hcapacity : 0 < capacity) (t : T) : (s.write t).Inv capacity := by
  constructor
  · exact h.capacity_eq
  · -- there is room for the byte, or there are others in the pipe
    intro _
    refine .inl ?_
    have hcap := h.capacity_eq
    dsimp only [State.write]
    split <;> omega
  · exact h.flag_of_emit
  · exact h.todo_of_copy
  · exact h.nothingLost

end State

variable [DecidableEq T]

theorem Step.run_inv {capacity : ℕ} (hcapacity : 0 < capacity) (a : Step T) {s : State T}
    (h : s.Inv capacity) : (a.run s).Yields (State.Inv capacity) := by
  cases a with
  | emit t e => exact Except.yields_guard.mpr fun _ => h.emit t e
  | write t => exact Except.yields_guard.mpr fun _ => h.write hcapacity t
  | read bytes =>
    refine Except.yields_guard.mpr fun hmain => ?_
    constructor
    · exact h.capacity_eq
    · exact fun _ => .inr (.inr rfl)
    · exact h.flag_of_emit
    · intro e he
      have htodo := h.todo_of_copy e he
      rw [hmain.1] at htodo
      cases htodo
    · exact h.nothingLost
  | copy => exact Except.yields_guard.mpr fun hmain => h.copy hmain
  | invoke =>
    rw [Step.run]
    split
    · next hmain => exact .ok (h.invoke hmain)
    · next hmain => exact .ok (h.finish hmain)
    · exact .error

/-- **No event is lost.** In every state that the threads can reach: if a flag is set, the pipe is
not empty, or an emitter is between setting a flag and writing its byte, or the main thread is
between reading the pipe and copying the flags; every copy has taken all events emitted since the
copy before it; and the callback of each event taken was called before `main_notify_event`
returned. -/
theorem reachable_nothingLost {capacity : ℕ} (hcapacity : 0 < capacity) {s : State T}
    (h : Reachable capacity s) : s.Awake ∧ NothingLost s.log := by
  have hinv : s.Inv capacity :=
    h.invariant State.inv_init fun a _ _ hinv => a.run_inv hcapacity hinv
  exact ⟨hinv.awake, hinv.nothingLost⟩

end

theorem reachable_nothingLost_two_threads :
    ∃ s : State Bool, Reachable 1 s ∧
      s.log = [.finish, .invoke .playlist, .emit false .idle, .invoke .update,
        .copy [.update, .playlist], .emit false .playlist, .emit true .update,
        .emit true .playlist] ∧
      s.Awake ∧ NothingLost s.log := by
  obtain ⟨s, hs, hlog⟩ := exists_reaches Step.run (fun _ _ => True)
    (State.init Bool 1) [.emit true .playlist, .write true, .emit true .update, .read 1,
      .emit false .playlist, .copy, .invoke, .emit false .idle, .invoke, .invoke]
    (P := fun s => s.log = [.finish, .invoke .playlist, .emit false .idle, .invoke .update,
      .copy [.update, .playlist], .emit false .playlist, .emit true .update,
      .emit true .playlist]) (by decide)
  exact ⟨s, hs, hlog, reachable_nothingLost Nat.one_pos hs⟩

end EventPipe

end Mpd
