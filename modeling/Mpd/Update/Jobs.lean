import Mathlib.Algebra.Ring.Nat
import Mathlib.Data.List.Nodup
import Mpd.General.Runs
import Mpd.General.Text

/-!
# Update jobs

`update.c` and `update_queue.c`: a request to update the database is run by a thread of its own if
no job is running, and waits in a queue of bounded length otherwise. The thread tells the main
thread through the event pipe that it has finished; the main thread then starts the next job.

The steps of the main thread are requests and the event; a thread starts, walks the database, sets
`progress` and emits the event. What the walk does has no counterpart.

* A request that is queued is stored with the global `discard`, which belongs to the running job,
  and not with its own flag. The jobs are run as they were requested if the two are the same
  whenever a request is queued (`reaches_asRequested`).
* The id of a queued job is predicted from the id of the running one. The prediction takes the first
  id for all ids that are too large. Ids are right as long as it is at most one too large
  (`reaches_numbered`).
-/

namespace Mpd

open List Nat

namespace Update

/-! ### The state -/

inductive Progress
  | idle
  | running
  | done
  deriving DecidableEq, Repr

/-- What a job is to do; an element of `update_queue`. -/
structure Request where
  path : Text
  discard : Bool
  deriving DecidableEq, Repr

inductive TaskPhase
  /-- the thread has been created -/
  | started
  /-- it has called `update_walk` -/
  | walking
  /-- it has set `progress` -/
  | marked
  /-- it has emitted the event, and returns -/
  | finished
  deriving DecidableEq, Repr

/-- A thread that has not been joined. -/
structure Task where
  path : Text
  phase : TaskPhase
  deriving DecidableEq, Repr

/-- A request, and the id that `update_enqueue` has returned for it. -/
structure Accepted where
  request : Request
  id : ℕ
  deriving DecidableEq, Repr

/-- The variables of `update.c` and `update_queue.c`, and three history variables. -/
structure State where
  progress : Progress
  updateTaskId : ℕ
  discard : Bool
  updateQueue : List Request
  /-- the threads that have not been joined, `update_thr` last -/
  tasks : List Task
  /-- `PIPE_EVENT_UPDATE` is pending -/
  event : Bool
  /-- history: the requests that were accepted -/
  accepted : List Accepted
  /-- history: the calls of `update_walk` -/
  walks : List Request
  /-- history: how many threads have been joined -/
  joined : ℕ
  deriving DecidableEq, Repr

def updateTaskIdMax : ℕ := 2 ^ 15

def updateQueueSize : ℕ := 32

inductive Stop
  /-- the step is not possible now -/
  | blocked
  /-- `assert(progress == UPDATE_PROGRESS_DONE)` -/
  | progress
  deriving DecidableEq, Repr

namespace State

def init : State where
  progress := .idle
  updateTaskId := 0
  discard := false
  updateQueue := []
  tasks := []
  event := false
  accepted := []
  walks := []
  joined := 0

variable (s : State)

def isUpdatingDB : ℕ :=
  if s.progress ≠ .idle then s.updateTaskId else 0

def spawnUpdateTask (path : Text) : State :=
  { s with
    progress := .running
    tasks := s.tasks ++ [⟨path, .started⟩]
    updateTaskId := if s.updateTaskId + 1 > updateTaskIdMax then 1 else s.updateTaskId + 1 }

def updateQueuePush (path : Text) (discard : Bool) (base : ℕ) : ℕ × State :=
  if s.updateQueue.length = updateQueueSize then (0, s)
  else
    let queue := s.updateQueue ++ [⟨path, discard⟩]
    (base + queue.length, { s with updateQueue := queue })

def updateQueueShift : Option Text × State :=
  match s.updateQueue with
  | [] => (none, s)
  | job :: queue => (some job.path, { s with updateQueue := queue, discard := job.discard })

def accept (path : Text) (discard : Bool) (id : ℕ) : State :=
  { s with accepted := s.accepted ++ [⟨⟨path, discard⟩, id⟩] }

def updateEnqueue (path : Option Text) (discard : Bool) : ℕ × State :=
  let path := path.getD []
  if s.progress ≠ .idle then
    -- the source passes the global variable, not its argument
    let (nextTaskId, s) := s.updateQueuePush path s.discard s.updateTaskId
    if nextTaskId = 0 then (0, s)
    else
      let id := if nextTaskId > updateTaskIdMax then 1 else nextTaskId
      (id, s.accept path discard id)
  else
    let s := { s with discard := discard }.spawnUpdateTask path
    (s.updateTaskId, s.accept path discard s.updateTaskId)

def join : Except Stop State :=
  match s.tasks.getLast? with
  | some ⟨_, .finished⟩ => .ok { s with tasks := s.tasks.dropLast, joined := s.joined + 1 }
  | _ => .error .blocked

def updateFinishedEvent : Except Stop State := do
  if s.progress ≠ .done then .error .progress
  else
    let s ← s.join
    match s.updateQueueShift with
    | (some path, s) => .ok (s.spawnUpdateTask path)
    | (none, s) => .ok { s with progress := .idle }

def updateTask (s : State) (i : ℕ) (task : Task) : Except Stop State :=
  match task.phase with
  | .started => .ok { s with
      tasks := s.tasks.set i { task with phase := .walking }
      walks := s.walks ++ [⟨task.path, s.discard⟩] }
  | .walking => .ok { s with
      tasks := s.tasks.set i { task with phase := .marked }
      progress := .done }
  | .marked => .ok { s with
      tasks := s.tasks.set i { task with phase := .finished }
      event := true }
  | .finished => .error .blocked

end State

inductive Step
  /-- `update_enqueue` is called. -/
  | request (path : Option Text) (discard : Bool)
  /-- A thread goes on. -/
  | task (i : ℕ)
  /-- The main thread handles `PIPE_EVENT_UPDATE`. -/
  | event
  deriving DecidableEq, Repr

def Step.run (hasMusicDirectory : Bool) : Step → State → Except Stop State
  | .request path discard, s =>
    .ok (if hasMusicDirectory then (s.updateEnqueue path discard).2 else s)
  | .task i, s =>
    match s.tasks[i]? with
    | some t => s.updateTask i t
    | none => .error .blocked
  | .event, s =>
    if s.event then { s with event := false }.updateFinishedEvent else .error .blocked

/-! ### What can happen -/

namespace State

variable {s t : State}

inductive Shape : Progress → List Task → List Request → Bool → Prop
  | idle : Shape .idle [] [] false
  | started {path : Text} {queue : List Request} : Shape .running [⟨path, .started⟩] queue false
  | walking {path : Text} {queue : List Request} : Shape .running [⟨path, .walking⟩] queue false
  | marked {path : Text} {queue : List Request} : Shape .done [⟨path, .marked⟩] queue false
  | finished {path : Text} {queue : List Request} : Shape .done [⟨path, .finished⟩] queue true

/-- The variables fit together. -/
structure Tidy (s : State) : Prop where
  queue_le : s.updateQueue.length ≤ updateQueueSize
  shape : Shape s.progress s.tasks s.updateQueue s.event

def predictedId (s : State) : ℕ :=
  let next := s.updateTaskId + (s.updateQueue.length + 1)
  if next > updateTaskIdMax then 1 else next

def nextId (s : State) : ℕ :=
  if s.updateTaskId + 1 > updateTaskIdMax then 1 else s.updateTaskId + 1

inductive Happens (s : State) : Step → State → Prop
  /-- A request is not accepted. -/
  | rejected {path : Option Text} {discard : Bool} : Happens s (.request path discard) s
  /-- A request is run at once. -/
  | spawned {path : Option Text} {discard : Bool} : s.progress = .idle → s.tasks = [] →
      s.updateQueue = [] → s.event = false →
      Happens s (.request path discard) { s with
        progress := .running
        discard := discard
        tasks := [⟨path.getD [], .started⟩]
        updateTaskId := s.nextId
        accepted := s.accepted ++ [⟨⟨path.getD [], discard⟩, s.nextId⟩] }
  /-- A request is queued. -/
  | queued {path : Option Text} {discard : Bool} : s.progress ≠ .idle →
      s.updateQueue.length < updateQueueSize →
      Happens s (.request path discard) { s with
        updateQueue := s.updateQueue ++ [⟨path.getD [], s.discard⟩]
        accepted := s.accepted ++ [⟨⟨path.getD [], discard⟩, s.predictedId⟩] }
  /-- The thread calls `update_walk`. -/
  | walks {i : ℕ} {path : Text} : s.progress = .running → s.tasks = [⟨path, .started⟩] →
      s.event = false →
      Happens s (.task i) { s with
        tasks := [⟨path, .walking⟩]
        walks := s.walks ++ [⟨path, s.discard⟩] }
  /-- The thread sets `progress`. -/
  | marks {i : ℕ} {path : Text} : s.progress = .running → s.tasks = [⟨path, .walking⟩] →
      s.event = false →
      Happens s (.task i) { s with tasks := [⟨path, .marked⟩], progress := .done }
  /-- The thread emits the event. -/
  | finishes {i : ℕ} {path : Text} : s.progress = .done → s.tasks = [⟨path, .marked⟩] →
      Happens s (.task i) { s with tasks := [⟨path, .finished⟩], event := true }
  /-- The next job is taken out of the queue and started. -/
  | next {path : Text} {job : Request} {queue : List Request} : s.progress = .done →
      s.tasks = [⟨path, .finished⟩] → s.updateQueue = job :: queue →
      Happens s .event { s with
        progress := .running
        discard := job.discard
        updateQueue := queue
        tasks := [⟨job.path, .started⟩]
        event := false
        updateTaskId := s.nextId
        joined := s.joined + 1 }
  /-- There is nothing left to do. -/
  | rests {path : Text} : s.progress = .done → s.tasks = [⟨path, .finished⟩] →
      s.updateQueue = [] →
      Happens s .event { s with
        progress := .idle
        tasks := []
        event := false
        joined := s.joined + 1 }

theorem updateQueuePush_eq (path : Text) (discard : Bool) (base : ℕ)
    (h : s.updateQueue.length ≠ updateQueueSize) :
    s.updateQueuePush path discard base = (base + (s.updateQueue.length + 1),
      { s with updateQueue := s.updateQueue ++ [⟨path, discard⟩] }) := by
  rw [updateQueuePush, if_neg h]
  dsimp only
  rw [length_append, length_singleton]

theorem Tidy.happens_request (h : s.Tidy) (path : Option Text) (discard : Bool) :
    Happens s (.request path discard) (s.updateEnqueue path discard).2 := by
  rw [updateEnqueue]
  by_cases hidle : s.progress = .idle
  · obtain ⟨progress⟩ := s
    obtain rfl : progress = .idle := hidle
    cases h.shape
    exact .spawned rfl rfl rfl rfl
  · rw [if_pos hidle]
    by_cases hfull : s.updateQueue.length = updateQueueSize
    · rw [updateQueuePush, if_pos hfull]
      exact .rejected
    · rw [updateQueuePush_eq _ _ _ hfull]
      exact .queued hidle (lt_of_le_of_ne h.queue_le hfull)

theorem Tidy.happens_task (h : s.Tidy) {i : ℕ} {task : Task} (htask : s.tasks[i]? = some task) :
    (s.updateTask i task).Yields (Happens s (.task i)) := by
  obtain ⟨_, _, _, _, tasks⟩ := s
  -- there is only one thread
  have hone : ∀ task', tasks = [task'] → i = 0 ∧ task = task' := by
    rintro task' rfl
    obtain ⟨hi, heq⟩ := List.getElem?_eq_some_iff.mp htask
    obtain rfl : i = 0 := lt_one_iff.mp hi
    exact ⟨rfl, heq.symm⟩
  cases h.shape with
  | idle => cases htask
  | started =>
    obtain ⟨rfl, rfl⟩ := hone _ rfl
    exact .ok (.walks rfl rfl rfl)
  | walking =>
    obtain ⟨rfl, rfl⟩ := hone _ rfl
    exact .ok (.marks rfl rfl rfl)
  | marked =>
    obtain ⟨rfl, rfl⟩ := hone _ rfl
    exact .ok (.finishes rfl rfl)
  | finished =>
    obtain ⟨rfl, rfl⟩ := hone _ rfl
    exact .error

theorem Tidy.happens_event (h : s.Tidy) (hevent : s.event = true) :
    ({ s with event := false }.updateFinishedEvent).Yields (Happens s .event) := by
  obtain ⟨_, _, _, queue, _, event⟩ := s
  obtain rfl : event = true := hevent
  cases h.shape
  cases queue with
  | nil => exact .ok (.rests rfl rfl rfl)
  | cons job queue => exact .ok (.next rfl rfl rfl)

/-- **What a step does**, in a tidy state. -/
theorem Tidy.happens (h : s.Tidy) (m : Bool) (a : Step) : (a.run m s).Yields (Happens s a) := by
  cases a with
  | request path discard =>
    refine .ok ?_
    split
    · exact h.happens_request path discard
    · exact .rejected
  | task i =>
    rw [Step.run]
    split
    · next task htask => exact h.happens_task htask
    · exact .error
  | event =>
    exact .ite (fun hevent => h.happens_event hevent) fun _ => .error

theorem tidy_init : init.Tidy :=
  ⟨Nat.zero_le _, .idle⟩

theorem Happens.tidy {a : Step} (hs : s.Tidy) (h : Happens s a t) : t.Tidy := by
  obtain ⟨hle, hshape⟩ := hs
  cases h with
  | rejected => exact ⟨hle, hshape⟩
  | spawned _ _ _ hevent => exact ⟨hle, hevent ▸ .started⟩
  | queued hbusy hroom =>
    refine ⟨?_, ?_⟩
    · rw [length_append]
      exact hroom
    · cases s
      cases hshape with
      | idle => exact absurd rfl hbusy
      | started => exact .started
      | walking => exact .walking
      | marked => exact .marked
      | finished => exact .finished
  | walks hprogress _ hevent => exact ⟨hle, hprogress ▸ hevent ▸ .walking⟩
  | marks _ _ hevent => exact ⟨hle, hevent ▸ .marked⟩
  | finishes hprogress _ => exact ⟨hle, hprogress ▸ .finished⟩
  | next _ _ hqueue =>
    rw [hqueue] at hle
    exact ⟨(le_succ _).trans hle, .started⟩
  | rests _ _ hqueue => exact ⟨hle, hqueue ▸ .idle⟩

/-! ### Which jobs are run -/

def waiting (s : State) : List Request :=
  s.tasks.filterMap fun task => if task.phase = .started then some ⟨task.path, s.discard⟩ else none

/-- The accepted requests are run one at a time, in the order in which they were accepted, each once
and as it was requested. When no job is running, all have been run. -/
structure AsRequested (s : State) : Prop where
  one : s.tasks.length ≤ 1
  order : s.walks ++ s.waiting ++ s.updateQueue = s.accepted.map Accepted.request
  all : s.progress = .idle → s.walks = s.accepted.map Accepted.request

end State

/-- A request that is queued asks for the same as the job that runs. -/
def Step.SameFlag (a : Step) (s : State) : Prop :=
  match a with
  | .request _ discard =>
    s.progress ≠ .idle → s.updateQueue.length < updateQueueSize → discard = s.discard
  | _ => True

instance (a : Step) (s : State) : Decidable (a.SameFlag s) := by
  rcases a <;> dsimp only [Step.SameFlag] <;> infer_instance

namespace State

variable {s t : State}

def Ordered (s : State) : Prop :=
  s.walks ++ s.waiting ++ s.updateQueue = s.accepted.map Accepted.request

theorem Happens.ordered {a : Step} (ha : a.SameFlag s) (hs : s.Ordered) (h : Happens s a t) :
    t.Ordered := by
  rw [Ordered, waiting] at hs ⊢
  cases h with
  | rejected => exact hs
  | spawned hidle htasks hqueue _ =>
    rw [htasks, hqueue] at hs
    rw [hqueue, map_append, ← hs]
    simp
  | queued hbusy hroom =>
    have hflag := ha hbusy hroom
    rw [map_append, ← hs, ← append_assoc, map_singleton, hflag]
  | walks _ htasks _ =>
    rw [htasks] at hs
    rw [← hs]
    simp
  | marks _ htasks _ | finishes _ htasks =>
    rw [htasks] at hs
    exact hs
  | next _ htasks hqueue =>
    rw [htasks, hqueue] at hs
    rw [← hs]
    simp
  | rests _ htasks hqueue =>
    rw [htasks, hqueue] at hs
    rw [← hs, hqueue]
    simp

theorem Tidy.asRequested (h : s.Tidy) (hs : s.Ordered) : s.AsRequested := by
  cases s
  cases h.shape with
  | idle =>
    refine ⟨zero_le _, hs, fun _ => ?_⟩
    rw [Ordered, append_nil, waiting, filterMap_nil, append_nil] at hs
    exact hs
  | started => exact ⟨le_rfl, hs, fun h => nomatch h⟩
  | walking => exact ⟨le_rfl, hs, fun h => nomatch h⟩
  | marked => exact ⟨le_rfl, hs, fun h => nomatch h⟩
  | finished => exact ⟨le_rfl, hs, fun h => nomatch h⟩

end State

/-- **Jobs are run as they were requested**, if each request that is queued has the flag of the job
that is running. -/
theorem reaches_asRequested {m : Bool} {t : State}
    (h : Reaches (Step.run m) Step.SameFlag .init t) : t.AsRequested := by
  have hinv : t.Tidy ∧ t.Ordered :=
    h.invariant (I := fun s => s.Tidy ∧ s.Ordered) ⟨State.tidy_init, rfl⟩
      fun a s ha hs => (hs.1.happens m a).mono fun t ht => ⟨ht.tidy hs.1, ht.ordered ha hs.2⟩
  exact hinv.1.asRequested hinv.2

theorem reaches_asRequested_rescan :
    ∃ t, Reaches (Step.run true) Step.SameFlag .init t ∧ t.AsRequested ∧
      t.walks = [⟨"a".toList, false⟩, ⟨"b".toList, false⟩, ⟨[], true⟩] := by
  obtain ⟨t, ht, hwalks⟩ := exists_reaches (Step.run true) Step.SameFlag .init
    [.request (some "a".toList) false, .task 0, .request (some "b".toList) false, .task 0, .task 0,
      .event, .task 0, .task 0, .task 0, .event, .request none true, .task 0]
    (P := fun s => s.walks = [⟨"a".toList, false⟩, ⟨"b".toList, false⟩, ⟨[], true⟩]) (by decide)
  exact ⟨t, ht, reaches_asRequested ht, hwalks⟩

theorem exists_not_asRequested : ∃ t, Reaches (Step.run true) (fun _ _ => True) .init t ∧
      t.accepted.map Accepted.request = [⟨"a".toList, false⟩, ⟨"b".toList, true⟩] ∧
      t.walks = [⟨"a".toList, false⟩, ⟨"b".toList, false⟩] :=
  exists_reaches _ _ _
    [.request (some "a".toList) false, .request (some "b".toList) true, .task 0, .task 0, .task 0,
      .event, .task 0] (by decide)

/-! ### Which ids they get -/

def jobId (k : ℕ) : ℕ :=
  k % updateTaskIdMax + 1

theorem jobId_le (k : ℕ) : jobId k ≤ updateTaskIdMax :=
  Nat.mod_lt k (by decide)

theorem jobId_add {k n : ℕ} (h : jobId k + n ≤ updateTaskIdMax + 1) :
    jobId (k + n) = if jobId k + n > updateTaskIdMax then 1 else jobId k + n := by
  by_cases hgt : jobId k + n > updateTaskIdMax
  · rw [if_pos hgt]
    simp only [jobId, updateTaskIdMax, Nat.reducePow] at h hgt ⊢
    omega
  · rw [if_neg hgt]
    simp only [jobId, updateTaskIdMax, Nat.reducePow] at hgt ⊢
    omega

theorem jobId_injOn {k k' n : ℕ} (hk : n ≤ k) (hk' : n ≤ k') (hlt : k < n + updateTaskIdMax)
    (hlt' : k' < n + updateTaskIdMax) (h : jobId k = jobId k') : k = k' := by
  simp only [jobId, updateTaskIdMax, Nat.reducePow] at h hlt hlt'
  omega

namespace State

variable {s t : State}

/-- The id that was returned for a job is the one that `isUpdatingDB` reports while it runs, and the
ids of the jobs that have not finished are different from each other. -/
structure Numbered (s : State) : Prop where
  ne_zero : ∀ job ∈ s.accepted, job.id ≠ 0
  job : ∀ task ∈ s.tasks, (s.accepted[s.joined]?).map (·.request.path) = some task.path
  running : s.progress ≠ .idle → (s.accepted[s.joined]?).map Accepted.id = some s.isUpdatingDB
  distinct : ((s.accepted.drop s.joined).map Accepted.id).Nodup

end State

/-- The number of the job does not wrap around. -/
def Step.InRound (a : Step) (s : State) : Prop :=
  match a with
  | .request _ _ => s.progress ≠ .idle → s.updateQueue.length < updateQueueSize →
      s.updateTaskId + s.updateQueue.length ≤ updateTaskIdMax
  | _ => True

instance (a : Step) (s : State) : Decidable (a.InRound s) := by
  rcases a <;> dsimp only [Step.InRound] <;> infer_instance

namespace State

variable {s t : State}

/-- Jobs are counted as they are accepted, started and joined. -/
structure Counted (s : State) : Prop where
  ids : s.accepted.map Accepted.id = (range s.accepted.length).map jobId
  paths : (s.accepted.drop s.joined).map (·.request.path) =
    s.tasks.map Task.path ++ s.updateQueue.map Request.path
  joined_le : s.joined ≤ s.accepted.length
  taskId : s.updateTaskId = if s.joined + s.tasks.length = 0 then 0
    else jobId (s.joined + s.tasks.length - 1)

theorem Counted.length_eq (h : s.Counted) :
    s.joined + s.tasks.length + s.updateQueue.length = s.accepted.length := by
  have hlength := congrArg length h.paths
  rw [length_map, length_drop, length_append, length_map, length_map] at hlength
  have hle := h.joined_le
  omega

theorem counted_init : init.Counted :=
  ⟨rfl, rfl, le_rfl, rfl⟩

theorem Counted.nextId_eq (h : s.Counted) : s.nextId = jobId (s.joined + s.tasks.length) := by
  rw [nextId, h.taskId]
  obtain hzero | hpos := Nat.eq_zero_or_pos (s.joined + s.tasks.length)
  · rw [hzero]
    rfl
  · obtain ⟨k, hk⟩ := exists_eq_succ_of_ne_zero (ne_of_gt hpos)
    rw [hk, if_neg (succ_ne_zero k), succ_sub_one, succ_eq_add_one]
    exact (jobId_add (succ_le_succ (jobId_le k))).symm

theorem Counted.predictedId_eq (h : s.Counted) (hbusy : s.tasks.length = 1)
    (hround : s.updateTaskId + s.updateQueue.length ≤ updateTaskIdMax) :
    s.predictedId = jobId s.accepted.length := by
  have htaskId : s.updateTaskId = jobId s.joined := by
    rw [h.taskId, hbusy, if_neg (Nat.succ_ne_zero _), Nat.add_sub_cancel]
  have hlength : s.accepted.length = s.joined + (s.updateQueue.length + 1) := by
    rw [← h.length_eq, hbusy, add_assoc, add_comm 1]
  rw [predictedId, htaskId, hlength]
  exact (jobId_add (by omega)).symm

theorem Counted.ids_append (h : s.Counted) {job : Accepted}
    (hid : job.id = jobId s.accepted.length) :
    (s.accepted ++ [job]).map Accepted.id =
      (range (s.accepted ++ [job]).length).map jobId := by
  rw [map_append, h.ids, length_append, length_singleton, range_succ,
    map_append, map_singleton, map_singleton, hid]

theorem Tidy.length_tasks (h : s.Tidy) (hbusy : s.progress ≠ .idle) : s.tasks.length = 1 := by
  cases s
  cases h.shape with
  | idle => exact absurd rfl hbusy
  | started => rfl
  | walking => rfl
  | marked => rfl
  | finished => rfl

theorem Happens.counted {a : Step} (ha : a.InRound s) (htidy : s.Tidy) (hs : s.Counted)
    (h : Happens s a t) : t.Counted := by
  have hlength := hs.length_eq
  have hle := hs.joined_le
  cases h with
  | rejected => exact hs
  | spawned hidle htasks hqueue _ =>
    rw [htasks, hqueue] at hlength
    have hnext := hs.nextId_eq
    have hpaths := hs.paths
    rw [htasks] at hnext
    rw [htasks, hqueue] at hpaths
    refine ⟨hs.ids_append (hnext.trans (congrArg jobId hlength)), ?_, ?_, hnext⟩
    · rw [drop_append_of_le_length hle, map_append, hpaths, hqueue]
      rfl
    · rw [length_append]
      exact hle.trans (le_succ _)
  | queued hbusy hroom =>
    have hone := htidy.length_tasks hbusy
    refine ⟨hs.ids_append (hs.predictedId_eq hone (ha hbusy hroom)), ?_, ?_, hs.taskId⟩
    · rw [drop_append_of_le_length hle, map_append, hs.paths, map_append,
        append_assoc]
      rfl
    · rw [length_append]
      exact hle.trans (le_succ _)
  -- the task that runs is the same one
  | walks _ htasks _ | marks _ htasks _ | finishes _ htasks =>
    obtain ⟨hids, hpaths, -, htaskId⟩ := hs
    rw [htasks] at hpaths htaskId
    exact ⟨hids, hpaths, hle, htaskId⟩
  | next _ htasks hqueue =>
    have hnext := hs.nextId_eq
    have hpaths := hs.paths
    rw [htasks] at hlength hnext
    rw [htasks, hqueue] at hpaths
    refine ⟨hs.ids, ?_, ?_, hnext⟩
    · rw [← drop_drop, map_drop, hpaths]
      rfl
    · rw [← hlength]
      exact le_add_right _ _
  | rests _ htasks hqueue =>
    obtain ⟨hids, hpaths, -, htaskId⟩ := hs
    rw [htasks] at hlength htaskId
    rw [htasks, hqueue] at hpaths
    refine ⟨hids, ?_, ?_, htaskId⟩
    · rw [← drop_drop, map_drop, hpaths, hqueue]
      rfl
    · rw [← hlength]
      exact le_add_right _ _

theorem Counted.ids_drop (h : s.Counted) : (s.accepted.drop s.joined).map Accepted.id =
    (range' s.joined (s.tasks.length + s.updateQueue.length)).map jobId := by
  have hlength := h.length_eq
  rw [map_drop, h.ids, ← map_drop, range_eq_range', drop_range', zero_add, mul_one]
  congr 2
  omega

theorem Tidy.tasks_eq (h : s.Tidy) {task : Task} (htask : task ∈ s.tasks) : s.tasks = [task] := by
  cases s
  cases h.shape with
  | idle => cases htask
  | started => rw [mem_singleton.mp htask]
  | walking => rw [mem_singleton.mp htask]
  | marked => rw [mem_singleton.mp htask]
  | finished => rw [mem_singleton.mp htask]

theorem Tidy.length_tasks_le (h : s.Tidy) : s.tasks.length ≤ 1 := by
  by_cases hidle : s.tasks = []
  · rw [hidle]
    exact zero_le _
  · obtain ⟨task, htask⟩ := exists_mem_of_ne_nil _ hidle
    rw [h.tasks_eq htask]
    exact le_rfl

theorem Counted.numbered (h : s.Counted) (htidy : s.Tidy) : s.Numbered := by
  have hids := h.ids_drop
  have hfirst : s.accepted[s.joined]? = (s.accepted.drop s.joined)[0]? := by
    rw [getElem?_drop, add_zero]
  refine ⟨fun job hjob => ?_, fun task htask => ?_, fun hbusy => ?_, ?_⟩
  · have hmem : job.id ∈ s.accepted.map Accepted.id := mem_map_of_mem hjob
    rw [h.ids] at hmem
    obtain ⟨k, -, hk⟩ := mem_map.mp hmem
    rw [← hk]
    exact succ_ne_zero _
  · rw [hfirst, ← getElem?_map, h.paths, htidy.tasks_eq htask]
    rfl
  · have hone := htidy.length_tasks hbusy
    rw [isUpdatingDB, if_pos hbusy, h.taskId, hone, if_neg (succ_ne_zero _),
      Nat.add_sub_cancel, hfirst, ← getElem?_map, hids, hone, Nat.add_comm 1,
      range'_succ]
    rfl
  · have hwindow : s.tasks.length + s.updateQueue.length ≤ updateTaskIdMax :=
      (Nat.add_le_add htidy.length_tasks_le htidy.queue_le).trans (by decide)
    rw [hids]
    refine List.Nodup.map_on (fun k hk k' hk' heq => ?_) (nodup_range' ..)
    rw [mem_range'_1] at hk hk'
    exact jobId_injOn hk.1 hk'.1 (hk.2.trans_le (Nat.add_le_add_left hwindow _))
      (hk'.2.trans_le (Nat.add_le_add_left hwindow _)) heq

end State

/-- **Ids are right**, if the id predicted for a queued request is never more than one too large. -/
theorem reaches_numbered {m : Bool} {t : State} (h : Reaches (Step.run m) Step.InRound .init t) :
    t.Numbered := by
  have hinv : t.Tidy ∧ t.Counted :=
    h.invariant (I := fun s => s.Tidy ∧ s.Counted) ⟨State.tidy_init, State.counted_init⟩
      fun a s ha hs => (hs.1.happens m a).mono fun t ht => ⟨ht.tidy hs.1, ht.counted ha hs.1 hs.2⟩
  exact hinv.2.numbered hinv.1

theorem reaches_numbered_queue : ∃ t, Reaches (Step.run true) Step.InRound .init t ∧ t.Numbered ∧
      t.accepted.map Accepted.id = [1, 2, 3] ∧ t.isUpdatingDB = 2 := by
  obtain ⟨t, ht, hids⟩ := exists_reaches (Step.run true) Step.InRound .init
    [.request none false, .request none true, .request (some "a".toList) false, .task 0, .task 0,
      .task 0, .event]
    (P := fun s => s.accepted.map Accepted.id = [1, 2, 3] ∧ s.isUpdatingDB = 2) (by decide)
  exact ⟨t, ht, reaches_numbered ht, hids⟩

namespace State

/-- No job is running, and the last one had the given id. -/
structure Rests (s : State) (id : ℕ) : Prop where
  progress : s.progress = .idle
  tasks : s.tasks = []
  queue : s.updateQueue = []
  event : s.event = false
  taskId : s.updateTaskId = id
  joined : s.joined = s.accepted.length

theorem exists_rests {id : ℕ} (hid : id ≤ updateTaskIdMax) :
    ∃ s, Reaches (Step.run true) (fun _ _ => True) .init s ∧ s.Rests id := by
  induction id with
  | zero => exact ⟨.init, .refl, rfl, rfl, rfl, rfl, rfl, rfl⟩
  | succ id ih =>
    obtain ⟨s, hs, hrests⟩ := ih (le_of_succ_le hid)
    obtain ⟨progress, updateTaskId, _, queue, tasks, _, accepted, walks, joined⟩ := s
    obtain rfl : progress = .idle := hrests.progress
    obtain rfl : tasks = [] := hrests.tasks
    obtain rfl : queue = [] := hrests.queue
    obtain rfl : updateTaskId = id := hrests.taskId
    obtain rfl : joined = accepted.length := hrests.joined
    let id' : ℕ := if updateTaskId + 1 > updateTaskIdMax then 1 else updateTaskId + 1
    have hrun : Reaches (Step.run true) (fun _ _ => True) .init
        ⟨.idle, id', false, [], [], false, accepted ++ [⟨⟨[], false⟩, id'⟩],
          walks ++ [⟨[], false⟩], accepted.length + 1⟩ :=
      Reaches.of_execute (l := [.request none false, .task 0, .task 0, .task 0, .event]) hs rfl
    refine ⟨_, hrun, rfl, rfl, rfl, rfl, if_neg (not_lt.mpr hid), ?_⟩
    rw [length_append, length_singleton]

end State

theorem exists_not_distinct : ∃ t, Reaches (Step.run true) (fun _ _ => True) .init t ∧
      (t.accepted.drop t.joined).map Accepted.id = [updateTaskIdMax, 1, 1] ∧
      t.isUpdatingDB = updateTaskIdMax := by
  obtain ⟨s, hs, hrests⟩ := State.exists_rests (sub_le updateTaskIdMax 1)
  obtain ⟨progress, updateTaskId, _, queue, tasks, event, accepted, walks, joined⟩ := s
  obtain rfl : progress = .idle := hrests.progress
  obtain rfl : tasks = [] := hrests.tasks
  obtain rfl : queue = [] := hrests.queue
  obtain rfl : updateTaskId = updateTaskIdMax - 1 := hrests.taskId
  obtain rfl : joined = accepted.length := hrests.joined
  have hrun : Reaches (Step.run true) (fun _ _ => True) .init
      ⟨.running, updateTaskIdMax, false, [⟨[], false⟩, ⟨[], false⟩], [⟨[], .started⟩], event,
        accepted ++ [⟨⟨[], false⟩, updateTaskIdMax⟩] ++ [⟨⟨[], false⟩, 1⟩] ++
          [⟨⟨[], false⟩, 1⟩], walks, accepted.length⟩ :=
    Reaches.of_execute (l := [.request none false, .request none false, .request none false]) hs rfl
  refine ⟨_, hrun, ?_, rfl⟩
  rw [append_assoc, append_assoc, drop_left]
  rfl

end Update

end Mpd
