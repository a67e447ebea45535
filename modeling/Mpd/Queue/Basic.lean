import Mpd.General.Outcome
import Mpd.General.Arrangement

/-!
# The play queue: items and positions

`struct queue` of `playqueue.h` with the operations of `playqueue.c` that move songs between
positions. A song in the queue is addressed in three ways: by its *position* (`items`), by its
unique *id* (`idToPosition`) and by its *order* number (`order`), which differs from the
position in random mode only.

The three arrays of the source are functions on `ℕ`. Entries at and beyond `length` are what
the memory happens to hold: nothing assumes anything about them, and a shortened queue leaves
its old last entries behind, as in the source.

* A loop of the source that copies songs between positions is `moveSongs` on the list of its
  `(from, to)` pairs; a loop that changes each entry of an array on its own is written as the
  changed array.
* `Fault` collects the ways to leave the program's defined behaviour that are followed up
  here: an index outside the live part of an array, and the assertions of the playlist layer.
  The remaining assertions of the source do not influence the computation (release builds
  compile all of them out) and are left out.
* Freeing a song that is not in the database has no counterpart.
-/

namespace Mpd

open Function (update)
open Arrangement (Draws)

inductive Fault
  /-- `assert(order < queue->length)`: an order number outside the queue. -/
  | order (order : ℕ)
  /-- `assert(position < queue->length)`: a position outside the queue. -/
  | position (position : ℕ)
  /-- the copy of a block on the stack has `end - start` items, where the difference wraps -/
  | blockSize (size : ℕ)
  /-- `queue_position_to_order` ran past the end of the order array. -/
  | unordered (position : ℕ)
  /-- `queue_generate_id` found no unused id. -/
  | noFreeId
  /-- `assert(priority <= group_priority)` while shuffling by priority. -/
  | priorityGroup
  /-- `assert(!queue_is_empty(&playlist->queue))`. -/
  | emptyQueue
  /-- `assert((playlist->queued < 0) == (prev == NULL))`. -/
  | queuedMismatch
  deriving DecidableEq, Repr

def unsigned (x : ℤ) : ℕ :=
  (x % 4294967296).toNat

theorem unsigned_eq {x : ℤ} (h₀ : 0 ≤ x) (h₁ : x < 4294967296) : unsigned x = x.toNat := by
  rw [unsigned, Int.emod_eq_of_lt h₀ h₁]

@[simp]
theorem unsigned_natCast {n : ℕ} (h : n < 4294967296) : unsigned n = n := by
  rw [unsigned_eq (by omega) (by omega), Int.toNat_natCast]

def queueHashMult : ℕ := 4

/-- `struct queue_item`: a song with what the queue knows about it. -/
structure QueueItem (σ : Type) where
  song : σ
  /-- the unique id of this item in the queue -/
  id : ℕ
  /-- when was this item last changed? -/
  version : ℕ
  /-- in random mode, songs of high priority are played first -/
  priority : ℕ
  deriving DecidableEq

def QueueItem.stamp {σ : Type} (item : QueueItem σ) (v : ℕ) : QueueItem σ :=
  { item with version := v }

/-- `struct queue`, with the static counter of `queue_generate_id`. -/
structure Queue (σ : Type) where
  /-- configured maximum length of the queue -/
  maxLength : ℕ
  /-- number of songs in the queue -/
  length : ℕ
  /-- the current version number -/
  version : ℕ
  /-- all songs in position order -/
  items : ℕ → QueueItem σ
  /-- map order numbers to positions -/
  order : ℕ → ℕ
  /-- map song ids to positions -/
  idToPosition : ℕ → ℤ
  /-- repeat playback when the end of the queue has been reached? -/
  repeat_ : Bool
  /-- play only the current song? -/
  single : Bool
  /-- remove each played song? -/
  consume : Bool
  /-- play back songs in random order? -/
  random : Bool
  /-- what the random number generator will produce -/
  rand : Draws
  /-- the static variable of `queue_generate_id`: the id handed out last -/
  cur : ℕ
  /-- history variable: how often the version number has wrapped (not in the source) -/
  wraps : ℕ

namespace Queue

variable {σ : Type}

def init (maxLength : ℕ) (items : ℕ → QueueItem σ) (order : ℕ → ℕ) (rand : Draws) (cur : ℕ) :
    Queue σ where
  maxLength := maxLength
  length := 0
  version := 1
  items := items
  order := order
  idToPosition := fun _ => -1
  repeat_ := false
  single := false
  consume := false
  random := false
  rand := rand
  cur := cur
  wraps := 0

variable (q : Queue σ)

/-! ### Access -/

def isEmpty : Bool :=
  q.length == 0

def isFull : Bool :=
  q.maxLength ≤ q.length

def validPosition (position : ℕ) : Bool :=
  position < q.length

def idSpace : ℕ :=
  q.maxLength * queueHashMult

def positionOfId (id : ℕ) : ℤ :=
  if q.idSpace ≤ id then -1 else q.idToPosition id

def orderToPosition (order : ℕ) : Except Fault ℕ :=
  if order < q.length then .ok (q.order order) else .error (.order order)

def positionToOrder (position : ℕ) : Except Fault ℕ :=
  match (List.range q.length).find? fun i => q.order i == position with
  | some i => .ok i
  | none => .error (.unordered position)

def orderOf (position : ℕ) : Except Fault ℕ :=
  if q.random then q.positionToOrder position else .ok position

def get (position : ℕ) : Except Fault σ :=
  if position < q.length then .ok (q.items position).song else .error (.position position)

def getOrder (order : ℕ) : Except Fault σ := do
  let position ← q.orderToPosition order
  q.get position

def songNewer (position version : ℕ) : Bool :=
  q.version < version || version ≤ (q.items position).version || (q.items position).version == 0

def nextOrder (order : ℕ) : ℤ :=
  if q.single && q.repeat_ && !q.consume then order
  else if order + 1 < q.length then order + 1
  else if q.repeat_ && (decide (0 < order) || !q.consume) then 0
  else -1

/-! ### Versions -/

def maxVersion : ℕ := 2147483647

def incrementVersion : Queue σ :=
  if maxVersion ≤ q.version + 1 then
    { q with
      items := fun i => if i < q.length then (q.items i).stamp 0 else q.items i
      version := 1
      wraps := q.wraps + 1 }
  else { q with version := q.version + 1 }

def modify (order : ℕ) : Except Fault (Queue σ) := do
  let position ← q.orderToPosition order
  pure (incrementVersion
    { q with items := update q.items position ((q.items position).stamp q.version) })

def modifyAll : Queue σ :=
  incrementVersion
    { q with items := fun i => if i < q.length then (q.items i).stamp q.version else q.items i }

/-! ### Adding songs -/

def generateIdFrom (q : Queue σ) : ℕ → ℕ → Except Fault ℕ
  | 0, _ => .error .noFreeId
  | fuel + 1, cur =>
    let cur := unsigned (cur + 1)
    let cur := if q.idSpace ≤ cur then 0 else cur
    if q.idToPosition cur = -1 then .ok cur else q.generateIdFrom fuel cur

def generateId : Except Fault ℕ :=
  q.generateIdFrom (q.idSpace + 1) q.cur

def append (song : σ) (priority : ℕ) : Except Fault (Queue σ × ℕ) := do
  let id ← q.generateId
  if q.isFull then .error (.position q.length) else
    pure ({ q with
        cur := id
        items := update q.items q.length
          { song := song, id := id, version := q.version, priority := priority }
        order := update q.order q.length q.length
        idToPosition := update q.idToPosition id q.length
        length := q.length + 1 }, id)

/-! ### Moving songs -/

def swap (position₁ position₂ : ℕ) : Queue σ :=
  { q with
    items := update (update q.items position₁ ((q.items position₂).stamp q.version)) position₂
      ((q.items position₁).stamp q.version)
    idToPosition := update (update q.idToPosition (q.items position₁).id position₂)
      (q.items position₂).id position₁ }

def place (item : QueueItem σ) (dst : ℕ) : Queue σ :=
  { q with
    items := update q.items dst (item.stamp q.version)
    idToPosition := update q.idToPosition item.id dst }

def moveSongTo (src dst : ℕ) : Queue σ :=
  q.place (q.items src) dst

def moveSongs (moves : List (ℕ × ℕ)) : Queue σ :=
  moves.foldl (fun q m => q.moveSongTo m.1 m.2) q

def placeAll (items : List (QueueItem σ × ℕ)) : Queue σ :=
  items.foldl (fun q m => q.place m.1 m.2) q

def mapOrder (f : ℕ → ℕ) : Queue σ :=
  { q with order := fun i => if i < q.length then f (q.order i) else q.order i }

def moveOrderEntry (src dst position : ℕ) : ℕ :=
  if src < position ∧ position ≤ dst then position - 1
  else if position < src ∧ dst ≤ position then position + 1
  else if src = position then dst
  else position

def move (src dst : ℕ) : Queue σ :=
  let item := q.items src
  -- move songs to one less in from->to, to one more in to->from
  let q := q.moveSongs ((List.range' src (dst - src)).map fun i => (i + 1, i))
  let q := q.moveSongs ((List.range' (dst + 1) (src - dst)).reverse.map fun i => (i - 1, i))
  let q := q.place item dst
  if q.random then q.mapOrder (moveOrderEntry src dst) else q

def rangeUp (start stop dst : ℕ) : List (ℕ × ℕ) :=
  (List.range' stop (unsigned (stop + dst - start) - stop)).map fun i =>
    (i, unsigned (start + i - stop))

def rangeDown (start stop dst : ℕ) : List (ℕ × ℕ) :=
  (List.range' dst (start - dst)).reverse.map fun i => (i, unsigned (i + stop - start))

def rangeBlock (start stop dst : ℕ) : List (ℕ × ℕ) :=
  (List.range' start (stop - start)).map fun i => (i, unsigned (dst + i - start))

def rangeMoves (start stop dst : ℕ) : List (ℕ × ℕ) :=
  rangeUp start stop dst ++ rangeDown start stop dst ++ rangeBlock start stop dst

def rangeIndices (start stop dst : ℕ) : List ℕ :=
  (rangeMoves start stop dst).flatMap fun m => [m.1, m.2]

def rangeOrderEntry (start stop dst position : ℕ) : ℕ :=
  if stop ≤ position ∧ position < unsigned (dst + stop - start) then
    unsigned (position - (stop - start))
  else if position < start ∧ dst ≤ position then unsigned (position + (stop - start))
  else if start ≤ position ∧ position < stop then unsigned (position + (dst - start))
  else position

def moveRangeBody (start stop dst : ℕ) : Queue σ :=
  -- the block [start, stop) is copied before the loops overwrite it
  let block := (rangeBlock start stop dst).map fun m => (q.items m.1, m.2)
  let q := q.moveSongs (rangeUp start stop dst)
  let q := q.moveSongs (rangeDown start stop dst)
  let q := q.placeAll block
  if q.random then q.mapOrder (rangeOrderEntry start stop dst) else q

def moveRange (start stop dst : ℕ) : Except Fault (Queue σ) :=
  if stop < start then .error (.blockSize (unsigned (stop - start)))
  else
    match (rangeIndices start stop dst).find? fun i => q.length ≤ i with
    | some i => .error (.position i)
    | none => .ok (q.moveRangeBody start stop dst)

/-! ### Removing songs -/

def deleteOrder (position order : ℕ) : Queue σ :=
  let q := { q with
    order := fun i => if order ≤ i ∧ i < q.length then q.order (i + 1) else q.order i }
  q.mapOrder fun x => if position < x then x - 1 else x

def deleteItems (position : ℕ) : Queue σ :=
  let q := { q with
    length := q.length - 1
    idToPosition := update q.idToPosition (q.items position).id (-1) }
  q.moveSongs ((List.range' position (q.length - position)).map fun i => (i + 1, i))

def delete (position : ℕ) : Except Fault (Queue σ) :=
  if q.length ≤ position then .error (.position position)
  else do
    let order ← q.positionToOrder position
    pure ((q.deleteItems position).deleteOrder position order)

def clear : Queue σ :=
  { q with
    idToPosition := forUp 0 q.length (fun i m => update m (q.items i).id (-1)) q.idToPosition
    length := 0 }

def restoreOrder : Queue σ :=
  { q with order := fun i => if i < q.length then i else q.order i }

/-! ### A full queue -/

def numbered (n : ℕ) (priority : ℕ → ℕ) (random : Bool) (rand : Draws) : Queue ℕ where
  maxLength := n
  length := n
  version := 1
  items := fun p => { song := p, id := p, version := 1, priority := priority p }
  order := id
  idToPosition := fun id => if id < n then id else -1
  repeat_ := false
  single := false
  consume := false
  random := random
  rand := rand
  cur := n - 1
  wraps := 0

end Queue

end Mpd
