import Mpd.General.LinkedList
import Mpd.General.Runs
import Mathlib.Algebra.Order.BigOperators.Group.Finset

/-!
# The audio pipe

`pipe.c` is a queue of chunks between the decoder and the outputs. The writer takes a chunk from the
free list, fills it and appends it to the pipe (`audio_pipe_flush`). Each consumer advances along
the pipe with `audio_pipe_next`. A chunk counts the consumers that use it, and the head of the pipe
is put back onto the free list (`audio_pipe_shift`) as soon as nobody does.

`audio_pipe_next` moves the reference from a chunk to its successor with the mutex locked, and reads
the pointer to the successor after unlocking. By then the chunk may have been released: by another
consumer, and by this call if it was the last one at the head. Then the pointer is the link of the
free list. And where a chunk was the last one, a new one may have been appended by then, for which
no reference was taken. In a run without these disturbances, each consumer obtains the chunks in the
order in which they were flushed (`inOrder_of_undisturbed`).

The chunks of the pipe and the free ones are linked lists in the memory of the pool; `Represents`
says which lists these are. Tags are left out, since nothing here sets one.
-/

namespace Mpd

open Nat Option List Except

inductive PipeFault
  /-- it has to wait, or is not called here -/
  | blocked
  /-- `audio_pipe_flush` without a current chunk -/
  | nullCurrent
  /-- `assert(p->available)` -/
  | nullAvailable
  /-- `audio_pipe_next` in an empty pipe -/
  | nullHead
  /-- an assertion of `audio_pipe_shift` -/
  | assertion
  deriving DecidableEq, Repr

def PipeFault.OfWriter : PipeFault → Prop
  | .blocked | .nullCurrent | .nullAvailable => True
  | .nullHead | .assertion => False

inductive TailRef
  | head
  | next (chunk : ℕ)
  deriving DecidableEq, Repr

/-- `struct audio_pipe`, with the chunks of its pool. `waiting` says that the writer is in
`xsem_wait`. -/
structure AudioPipe where
  refCount : ℕ → ℤ
  next : ℕ → Option ℕ
  other : ℕ → Option ℕ
  length : ℕ → ℕ
  head : Option ℕ
  tail : TailRef
  size : ℕ
  available : Option ℕ
  current : Option ℕ
  sem : ℕ
  waiting : Bool

namespace AudioPipe

open Function (update)

/-! ### The source -/

def new (n : ℕ) : AudioPipe where
  refCount _ := 0
  next i := if i < n then some (i + 1) else none
  other _ := none
  length _ := 0
  head := none
  tail := .head
  size := 0
  available := some 0
  current := none
  sem := 0
  waiting := false

def setTail (link : Option ℕ) (p : AudioPipe) : AudioPipe :=
  match p.tail with
  | .head => { p with head := link }
  | .next c => { p with next := update p.next c link }

def flush (p : AudioPipe) : Except PipeFault AudioPipe :=
  match p.current with
  | none => .error .nullCurrent
  | some chunk =>
    -- nothing needs to be done if the current chunk is empty
    if p.length chunk = 0 then .ok p
    else
      let p := { p with next := update p.next chunk none }.setTail (some chunk)
      .ok { p with tail := .next chunk, size := p.size + 1, current := none }

def take (p : AudioPipe) : Except PipeFault AudioPipe :=
  match p.available with
  | none => .error .nullAvailable
  | some chunk =>
    .ok { p with
      current := some chunk
      other := update p.other chunk none
      length := update p.length chunk 0
      available := p.next chunk }

def acquire (p : AudioPipe) : Except PipeFault AudioPipe :=
  match p.current with
  | some _ => .ok p
  | none =>
    if p.waiting then
      if p.sem = 0 then .error .blocked
      else { p with sem := p.sem - 1, waiting := false }.take
    else if p.available = none then .ok { p with waiting := true }
    else p.take

def fill (n : ℕ) (p : AudioPipe) : Except PipeFault AudioPipe :=
  match p.current with
  | none => .error .blocked
  | some chunk => .ok { p with length := update p.length chunk (p.length chunk + n) }

def poison (chunk : ℕ) (p : AudioPipe) : AudioPipe :=
  { p with
    refCount := update p.refCount chunk 0x02020202
    other := update p.other chunk (some 0x0202020202020202)
    length := update p.length chunk 0x0202 }

def giveBack (debug : Bool) (chunk : ℕ) (p : AudioPipe) : AudioPipe :=
  let p := if debug then p.poison chunk else p
  { p with next := update p.next chunk p.available, available := some chunk }

def check (debug : Bool) (c : Prop) [Decidable c] : Except PipeFault Unit :=
  if debug = true ∧ ¬ c then .error .assertion else .ok ()

def dropHead (chunk : ℕ) (p : AudioPipe) : AudioPipe :=
  let p := { p with head := p.next chunk, size := p.size - 1 }
  if p.head = none then { p with tail := .head } else p

def shift (debug : Bool) (p : AudioPipe) : Except PipeFault AudioPipe :=
  match p.head with
  | none => .ok p
  | some chunk => do
    check debug (p.length chunk ≠ 0)
    check debug (if p.next chunk = none then p.size - 1 = 0 ∧ p.tail = .next chunk
      else 0 < p.size - 1 ∧ p.tail ≠ .next chunk)
    let p := p.dropHead chunk
    let p := match p.other chunk with
      | none => p
      | some other => p.giveBack debug other
    let p := p.giveBack debug chunk
    .ok { p with sem := p.sem + 1 }

def transfer (c : ℕ) (p : AudioPipe) : AudioPipe :=
  let p := { p with refCount := update p.refCount c (p.refCount c - 1) }
  match p.next c with
  | none => p
  | some d => { p with refCount := update p.refCount d (p.refCount d + 1) }

def nextLocked (debug : Bool) (c : ℕ) (p : AudioPipe) : Except PipeFault AudioPipe :=
  let p := p.transfer c
  match p.head with
  | none => .error .nullHead
  | some head => if p.refCount head = 0 then p.shift debug else .ok p

def getHeadLocked (p : AudioPipe) : AudioPipe :=
  match p.head with
  | none => p
  | some head => { p with refCount := update p.refCount head (p.refCount head + 1) }

/-! ### The writer and the consumers -/

inductive Phase
  | idle (chunk : Option ℕ)
  | readNext (chunk : ℕ) (counted : Option ℕ)
  | readHead (counted : Option ℕ)
  deriving DecidableEq, Repr

/-- A consumer, with the chunks it has obtained, and the place of the first of them among all
chunks that have been flushed. -/
structure Consumer where
  phase : Phase
  got : List ℕ
  first : ℕ

namespace Consumer

def held (x : Consumer) : Option ℕ :=
  match x.phase with
  | .idle chunk => chunk
  | .readNext _ counted => counted
  | .readHead counted => counted

def due (x : Consumer) : ℕ :=
  x.first + x.got.length

end Consumer

/-- The pipe and its consumers, with the chunks that have been flushed, one after the other, and how
many of them have been released. -/
structure System (ι : Type) where
  pipe : AudioPipe
  consumers : ι → Consumer
  flushed : List ℕ
  released : ℕ

inductive Step (ι : Type)
  | acquire
  | fill (n : ℕ)
  | flush
  | lock (i : ι)
  | read (i : ι)

def appended (p : AudioPipe) : List ℕ :=
  p.current.toList.filter fun chunk => p.length chunk ≠ 0

namespace System

variable {ι : Type} [DecidableEq ι]

def new (ι : Type) (n : ℕ) : System ι where
  pipe := .new n
  consumers _ := ⟨.idle none, [], 0⟩
  flushed := []
  released := 0

def queue (s : System ι) : List ℕ :=
  s.flushed.drop s.released

def lock (debug : Bool) (i : ι) (s : System ι) : Except PipeFault (System ι) :=
  let x := s.consumers i
  match x.phase with
  | .idle none =>
    let first := if x.got = [] then s.released else x.first
    .ok { s with
      pipe := s.pipe.getHeadLocked
      consumers := update s.consumers i { x with phase := .readHead s.pipe.head, first } }
  | .idle (some c) => do
    let p ← s.pipe.nextLocked debug c
    .ok { s with
      pipe := p
      consumers := update s.consumers i { x with phase := .readNext c (s.pipe.next c) }
      released := s.released + (s.pipe.size - p.size) }
  | _ => .error .blocked

def finish (i : ι) (chunk : Option ℕ) (s : System ι) : System ι :=
  let x := s.consumers i
  { s with
    consumers := update s.consumers i
      { x with phase := .idle chunk, got := x.got ++ chunk.toList } }

def read (i : ι) (s : System ι) : Except PipeFault (System ι) :=
  match (s.consumers i).phase with
  | .readNext c _ => .ok (s.finish i (s.pipe.next c))
  | .readHead _ => .ok (s.finish i s.pipe.head)
  | .idle _ => .error .blocked

def step (debug : Bool) : Step ι → System ι → Except PipeFault (System ι)
  | .acquire, s => do
    let p ← s.pipe.acquire
    .ok { s with pipe := p }
  | .fill n, s => do
    let p ← s.pipe.fill n
    .ok { s with pipe := p }
  | .flush, s => do
    let p ← s.pipe.flush
    .ok { s with pipe := p, flushed := s.flushed ++ s.pipe.appended }
  | .lock i, s => s.lock debug i
  | .read i, s => s.read i

end System

/-! ### The lists in memory -/

def tailOf (queue : List ℕ) : TailRef :=
  match queue.getLast? with
  | none => .head
  | some c => .next c

/-- **The pipe in memory**: which chunks are in the pipe, and which ones are free. -/
structure Represents (p : AudioPipe) (queue free : List ℕ) : Prop where
  linkedQueue : LinkedFrom p.next p.head queue
  linkedFree : LinkedFrom p.next p.available free
  nodup : (queue ++ p.current.toList ++ free).Nodup
  tail : p.tail = tailOf queue
  size : p.size = queue.length
  filled : ∀ c ∈ queue, p.length c ≠ 0
  alone : ∀ c ∈ queue ++ p.current.toList, p.other c = none

variable {p : AudioPipe} {queue free : List ℕ} {chunk : ℕ} {debug : Bool}

theorem setTail_eq (link : Option ℕ) (p : AudioPipe) :
    p.setTail link = { p with head := (p.setTail link).head, next := (p.setTail link).next } := by
  cases htail : p.tail with
  | head => simp only [setTail, htail]
  | next c => simp only [setTail, htail]

theorem represents_new (n : ℕ) : (new n).Represents [] (range' 0 (n + 1)) := by
  have hlinked (len a : ℕ) (h : a + len = n) :
      LinkedFrom (new n).next (some a) (range' a (len + 1)) := by
    induction len generalizing a with
    | zero => exact ⟨rfl, if_neg (by omega)⟩
    | succ len ih =>
      refine ⟨rfl, ?_⟩
      have hnext : (new n).next a = some (a + 1) := if_pos (by omega)
      rw [hnext]
      exact ih (a + 1) (by omega)
  exact ⟨rfl, hlinked n 0 (zero_add n), nodup_range', rfl, rfl,
    fun c hc => absurd hc not_mem_nil, fun c hc => absurd hc not_mem_nil⟩

namespace Represents

section

variable (h : p.Represents queue free)
include h

theorem withRefCount (refCount : ℕ → ℤ) :
    { p with refCount := refCount }.Represents queue free :=
  ⟨h.linkedQueue, h.linkedFree, h.nodup, h.tail, h.size, h.filled, h.alone⟩

theorem withSem (sem : ℕ) (waiting : Bool) :
    { p with sem := sem, waiting := waiting }.Represents queue free :=
  ⟨h.linkedQueue, h.linkedFree, h.nodup, h.tail, h.size, h.filled, h.alone⟩

theorem outside (hchunk : chunk ∉ queue ++ p.current.toList) (other : Option ℕ) (length : ℕ) :
    { p with
      other := update p.other chunk other
      length := update p.length chunk length }.Represents queue free := by
  refine ⟨h.linkedQueue, h.linkedFree, h.nodup, h.tail, h.size, fun c hc => ?_, fun c hc => ?_⟩
  · have hne : c ≠ chunk := fun heq => hchunk (heq ▸ mem_append_left _ hc)
    exact (Function.update_of_ne hne length p.length).trans_ne (h.filled c hc)
  · have hne : c ≠ chunk := fun heq => hchunk (heq ▸ hc)
    exact (Function.update_of_ne hne other p.other).trans (h.alone c hc)

theorem take (hcurrent : p.current = none) : p.take.Within PipeFault.OfWriter fun p' =>
      p'.refCount = p.refCount ∧ p'.sem = p.sem ∧ p'.Represents queue free.tail := by
  rw [AudioPipe.take, h.linkedFree.eq_head?]
  cases free with
  | nil => exact .error trivial
  | cons chunk free =>
    have hnodup := h.nodup
    rw [hcurrent, toList_none, append_nil] at hnodup
    have hchunk : chunk ∉ queue ++ p.current.toList := by
      rw [hcurrent, toList_none, append_nil]
      exact fun hmem => disjoint_of_nodup_append hnodup hmem mem_cons_self
    have h' := h.outside hchunk none 0
    refine .ok ⟨rfl, rfl, h'.linkedQueue, h'.linkedFree.2, ?_, h'.tail, h'.size,
      h'.filled, fun c hc => ?_⟩
    · rw [toList_some, append_assoc]
      exact hnodup
    · obtain hc | hc := mem_append.mp hc
      · exact h'.alone c (mem_append_left _ hc)
      · rw [mem_singleton.mp hc]
        exact Function.update_self _ _ _

theorem acquire : p.acquire.Within PipeFault.OfWriter fun p' =>
      p'.refCount = p.refCount ∧ ∃ free, p'.Represents queue free := by
  rw [AudioPipe.acquire]
  split
  · exact .ok ⟨rfl, free, h⟩
  next hcurrent =>
  split
  · split
    · exact .error trivial
    · exact ((h.withSem (p.sem - 1) false).take hcurrent).mono fun p' hp => ⟨hp.1, _, hp.2.2⟩
  split
  · exact .ok ⟨rfl, free, h.withSem p.sem true⟩
  · exact (h.take hcurrent).mono fun p' hp => ⟨hp.1, _, hp.2.2⟩

theorem fill (n : ℕ) : (p.fill n).Within PipeFault.OfWriter fun p' =>
      p'.refCount = p.refCount ∧ p'.sem = p.sem ∧ p'.Represents queue free := by
  rw [AudioPipe.fill]
  split
  · exact .error trivial
  next chunk hcurrent =>
  refine .ok ⟨rfl, rfl, h.linkedQueue, h.linkedFree, h.nodup, h.tail, h.size,
    fun c hc => ?_, h.alone⟩
  have hfilled := h.filled c hc
  dsimp only
  rw [Function.update_apply]
  split
  · next heq =>
    rw [heq] at hfilled
    omega
  · exact hfilled

theorem setTail {link : Option ℕ} {l : List ℕ}
    (hlink : LinkedFrom p.next link l) (hnodup : (queue ++ l).Nodup) :
    LinkedFrom (p.setTail link).next (p.setTail link).head (queue ++ l) := by
  rw [AudioPipe.setTail, h.tail, tailOf]
  cases hlast : queue.getLast? with
  | none =>
    obtain rfl := getLast?_eq_none_iff.mp hlast
    exact hlink
  | some last => exact h.linkedQueue.append hlink hnodup hlast

theorem setTail_free (link : Option ℕ) : LinkedFrom (p.setTail link).next p.available free := by
  rw [AudioPipe.setTail, h.tail, tailOf]
  cases hlast : queue.getLast? with
  | none => exact h.linkedFree
  | some last =>
    refine h.linkedFree.update fun hmem => ?_
    exact disjoint_of_nodup_append h.nodup (mem_append_left _ (mem_of_getLast? hlast)) hmem

/-- **`audio_pipe_flush`** appends a chunk to the pipe. -/
theorem flush : p.flush.Within PipeFault.OfWriter fun p' =>
      p'.refCount = p.refCount ∧ p'.sem = p.sem ∧ p'.Represents (queue ++ p.appended) free := by
  rw [AudioPipe.flush]
  split
  · exact .error trivial
  next chunk hcurrent =>
  split
  · next hempty =>
    have happended : p.appended = [] := by simp [appended, hcurrent, hempty]
    rw [within_ok, happended, append_nil]
    exact ⟨rfl, rfl, h⟩
  next hempty =>
  have happended : p.appended = [chunk] := by simp [appended, hcurrent, hempty]
  have hnodup := h.nodup
  have halone := h.alone
  rw [hcurrent, toList_some] at hnodup halone
  obtain ⟨hleft, -, hdisjoint⟩ := nodup_append'.mp hnodup
  have hchunk : chunk ∉ queue := fun hmem =>
    disjoint_of_nodup_append hleft hmem mem_cons_self
  have hfree : chunk ∉ free := hdisjoint (mem_append_right _ mem_cons_self)
  have hcut : { p with next := update p.next chunk none }.Represents queue free :=
    ⟨h.linkedQueue.update hchunk, h.linkedFree.update hfree, h.nodup, h.tail, h.size, h.filled,
      h.alone⟩
  have hlink : LinkedFrom (update p.next chunk none) (some chunk) [chunk] :=
    ⟨rfl, Function.update_self _ _ _⟩
  have hlinked := hcut.setTail hlink hleft
  rw [within_ok, happended, setTail_eq]
  refine ⟨rfl, rfl, hlinked, hcut.setTail_free _, ?_, ?_, ?_, fun c hc => ?_, ?_⟩
  · rwa [toList_none, append_nil]
  · rw [tailOf, getLast?_concat]
  · rw [length_append, length_singleton, ← h.size]
  · obtain hc | hc := mem_append.mp hc
    · exact h.filled c hc
    · exact mem_singleton.mp hc ▸ hempty
  · rwa [toList_none, append_nil]

theorem giveBack (hchunk : chunk ∉ queue ++ p.current.toList ++ free) :
    (p.giveBack debug chunk).Represents queue (chunk :: free) := by
  rw [mem_append, not_or] at hchunk
  have hpush {p : AudioPipe} (h : p.Represents queue free)
      (hchunk : chunk ∉ queue ++ p.current.toList ∧ chunk ∉ free) :
      { p with next := update p.next chunk p.available, available := some chunk }.Represents queue
        (chunk :: free) := by
    refine ⟨h.linkedQueue.update fun hmem => hchunk.1 (mem_append_left _ hmem),
      h.linkedFree.push hchunk.2, ?_, h.tail, h.size, h.filled, h.alone⟩
    refine nodup_middle.mpr (nodup_cons.mpr ⟨?_, h.nodup⟩)
    rw [mem_append, not_or]
    exact hchunk
  cases debug with
  | false => exact hpush h hchunk
  | true =>
    have hpoison : (p.poison chunk).Represents queue free :=
      (h.outside hchunk.1 _ _).withRefCount _
    exact hpush hpoison hchunk

end

end Represents

theorem le_refCount_giveBack (h : p.refCount chunk = 0) (c : ℕ) :
    p.refCount c ≤ (p.giveBack debug chunk).refCount c := by
  cases debug with
  | false => exact le_rfl
  | true =>
    have hcount : (p.giveBack true chunk).refCount = update p.refCount chunk 0x02020202 := rfl
    rw [hcount, Function.update_apply]
    split
    · next heq =>
      rw [heq, h]
      decide
    · exact le_rfl

theorem giveBack_frame (debug : Bool) (chunk : ℕ) (p : AudioPipe) :
    (p.giveBack debug chunk).sem = p.sem ∧ (p.giveBack debug chunk).current = p.current := by
  cases debug with
  | false => exact ⟨rfl, rfl⟩
  | true => exact ⟨rfl, rfl⟩

theorem check_of {c : Prop} [Decidable c] (h : c) : check debug c = .ok () :=
  if_neg fun hfails => hfails.2 h

theorem dropHead_eq (chunk : ℕ) (p : AudioPipe) : p.dropHead chunk =
      { p with
        head := p.next chunk
        size := p.size - 1
        tail := if p.next chunk = none then .head else p.tail } := by
  rw [dropHead]
  split
  · rfl
  · rfl

theorem Represents.dropHead (h : p.Represents (chunk :: queue) free) :
    (p.dropHead chunk).Represents queue free := by
  have hnodup := h.nodup
  rw [dropHead_eq]
  refine ⟨h.linkedQueue.2, h.linkedFree, hnodup.of_cons, ?_, ?_,
    fun c hc => h.filled c (mem_cons_of_mem _ hc),
    fun c hc => h.alone c (mem_cons_of_mem _ hc)⟩
  · dsimp only
    rw [h.linkedQueue.2.eq_head?, h.tail]
    cases queue with
    | nil => rfl
    | cons c queue => rw [if_neg (by simp), tailOf, tailOf, getLast?_cons_cons]
  · dsimp only
    rw [h.size, length_cons, Nat.add_sub_cancel]

theorem Represents.asserts (h : p.Represents (chunk :: queue) free) :
    if p.next chunk = none then p.size - 1 = 0 ∧ p.tail = .next chunk
    else 0 < p.size - 1 ∧ p.tail ≠ .next chunk := by
  have hnodup := h.nodup
  rw [cons_append, cons_append, nodup_cons, mem_append, mem_append] at hnodup
  rw [h.linkedQueue.2.eq_head?, h.tail, h.size]
  cases queue with
  | nil => exact ⟨rfl, rfl⟩
  | cons c queue =>
    rw [if_neg (by simp), tailOf, getLast?_cons_cons]
    refine ⟨by simp, ?_⟩
    cases hlast : (c :: queue).getLast? with
    | none => nofun
    | some last =>
      intro heq
      cases heq
      exact hnodup.1 (.inl (.inl (mem_of_getLast? hlast)))

/-- **`audio_pipe_shift`** moves the head to the free list. -/
theorem Represents.shift (h : p.Represents (chunk :: queue) free) (hcount : p.refCount chunk = 0) :
    (p.shift debug).Succeeds fun p' => p'.Represents queue (chunk :: free) ∧
      p'.sem = p.sem + 1 ∧ p'.current = p.current ∧ ∀ c, p.refCount c ≤ p'.refCount c := by
  have hhead : p.head = some chunk := h.linkedQueue.1
  have hother : (p.dropHead chunk).other chunk = none := by
    rw [dropHead_eq]
    exact h.alone chunk mem_cons_self
  have hchunk : chunk ∉ queue ++ (p.dropHead chunk).current.toList ++ free := by
    rw [dropHead_eq]
    exact (nodup_cons.mp h.nodup).1
  rw [AudioPipe.shift, hhead]
  dsimp only
  rw [check_of (h.filled chunk mem_cons_self), check_of h.asserts, ok_bind, ok_bind, hother]
  have hcounts : (p.dropHead chunk).refCount = p.refCount := by rw [dropHead_eq]
  have hrepresents : ((p.dropHead chunk).giveBack debug chunk).Represents queue (chunk :: free) :=
    h.dropHead.giveBack hchunk
  obtain ⟨hsem, hcurrent⟩ := giveBack_frame debug chunk (p.dropHead chunk)
  refine .ok ⟨hrepresents.withSem _ _, ?_, ?_, fun c => ?_⟩
  · rw [hsem, dropHead_eq]
  · dsimp only
    rw [hcurrent, dropHead_eq]
  · rw [← hcounts]
    exact le_refCount_giveBack (hcounts.symm ▸ hcount) c

/-! ### References -/

def indicator (held : Option ℕ) (c : ℕ) : ℤ :=
  if held = some c then 1 else 0

theorem indicator_nonneg (held : Option ℕ) (c : ℕ) : 0 ≤ indicator held c := by
  rw [indicator]
  split
  · exact zero_le_one
  · exact le_rfl

theorem indicator_none (c : ℕ) : indicator none c = 0 :=
  rfl

theorem update_add_apply (count : ℕ → ℤ) (k : ℤ) (c d : ℕ) :
    update count c (count c + k) d = count d + k * indicator (some c) d := by
  rw [Function.update_apply, indicator]
  by_cases heq : d = c
  · rw [if_pos heq, if_pos (congrArg some heq.symm), heq, Int.mul_one]
  · rw [if_neg heq, if_neg fun h => heq (some.inj h).symm, Int.mul_zero, add_zero]

theorem refCount_transfer (c d : ℕ) (p : AudioPipe) : (p.transfer c).refCount d =
      p.refCount d - indicator (some c) d + indicator (p.next c) d := by
  have hdrop : update p.refCount c (p.refCount c - 1) d = p.refCount d - indicator (some c) d := by
    rw [sub_eq_add_neg, update_add_apply, Int.neg_one_mul, ← sub_eq_add_neg]
  rw [transfer]
  cases hnext : p.next c with
  | none => rw [indicator_none, add_zero, ← hdrop]
  | some e =>
    dsimp only
    rw [update_add_apply, Int.one_mul, hdrop]

theorem transfer_eq (c : ℕ) (p : AudioPipe) :
    p.transfer c = { p with refCount := (p.transfer c).refCount } := by
  rw [transfer]
  split
  · rfl
  · rfl

theorem refCount_getHeadLocked (d : ℕ) (p : AudioPipe) :
    p.getHeadLocked.refCount d = p.refCount d + indicator p.head d := by
  rw [getHeadLocked]
  cases hhead : p.head with
  | none => rw [indicator_none, add_zero]
  | some head =>
    dsimp only
    rw [update_add_apply, Int.one_mul]

theorem getHeadLocked_eq (p : AudioPipe) :
    p.getHeadLocked = { p with refCount := p.getHeadLocked.refCount } := by
  rw [getHeadLocked]
  split
  · rfl
  · rfl

section Refs

variable {ι : Type} [Fintype ι] {x : ι → Consumer} {y : Consumer} {i : ι} {c : ℕ}

def refs (x : ι → Consumer) (c : ℕ) : ℤ :=
  ∑ i, indicator (x i).held c

theorem refs_pos (h : (x i).held = some c) : 0 < refs x c := by
  have hone : indicator (x i).held c = 1 := if_pos h
  have hle : indicator (x i).held c ≤ refs x c :=
    Finset.single_le_sum (fun j _ => indicator_nonneg (x j).held c) (Finset.mem_univ i)
  omega

theorem refs_update [DecidableEq ι] :
    refs (update x i y) c = refs x c - indicator (x i).held c + indicator y.held c := by
  have hrest : ∑ j ∈ Finset.univ.erase i, indicator (update x i y j).held c =
      ∑ j ∈ Finset.univ.erase i, indicator (x j).held c :=
    Finset.sum_congr rfl fun j hj => by rw [Function.update_of_ne (Finset.ne_of_mem_erase hj)]
  rw [refs, refs, ← Finset.sum_erase_add _ _ (Finset.mem_univ i), hrest, Function.update_self,
    ← Finset.sum_erase_add Finset.univ (fun j => indicator (x j).held c) (Finset.mem_univ i),
    add_sub_cancel_right]

end Refs

/-! ### What a consumer has obtained -/

namespace Consumer

variable {x : Consumer} {flushed : List ℕ} {released : ℕ}

def place (x : Consumer) : ℕ :=
  match x.phase with
  | .idle _ => x.due - 1
  | _ => x.due

/-- **A consumer reads the chunks in order.** The chunk for which it has a reference is in the
pipe. -/
structure Reads (x : Consumer) (flushed : List ℕ) (released : ℕ) : Prop where
  got : x.got <+: flushed.drop x.first
  held (c : ℕ) (h : x.held = some c) : released ≤ x.place ∧ flushed[x.place]? = some c
  started (c : ℕ) (h : x.phase = .idle (some c)) : 0 < x.due
  left (c : ℕ) (counted : Option ℕ) (h : x.phase = .readNext c counted) :
    0 < x.due ∧ flushed[x.due - 1]? = some c
  atHead (counted : Option ℕ) (h : x.phase = .readHead counted) : x.due ≤ released

section

variable (h : x.Reads flushed released)
include h

theorem Reads.append (l : List ℕ) : x.Reads (flushed ++ l) released := by
  have hget {k c : ℕ} (hk : flushed[k]? = some c) : (flushed ++ l)[k]? = some c := by
    rw [List.getElem?_append_left (List.getElem?_eq_some_iff.mp hk).1, hk]
  refine ⟨h.got.trans ((prefix_append flushed l).drop _), fun c hc => ?_, h.started,
    fun c counted hphase => ?_, h.atHead⟩
  · exact (h.held c hc).imp_right hget
  · exact (h.left c counted hphase).imp_right hget

theorem Reads.release (hfree : ∀ c, x.held = some c → flushed[released]? ≠ some c) :
    x.Reads flushed (released + 1) := by
  refine ⟨h.got, fun c hc => ?_, h.started, h.left, fun counted hphase => ?_⟩
  · obtain ⟨hle, hget⟩ := h.held c hc
    refine ⟨lt_of_le_of_ne hle fun heq => hfree c hc ?_, hget⟩
    rw [heq, hget]
  · exact le_succ_of_le (h.atHead counted hphase)

theorem Reads.held_eq (hplace : x.place = x.due)
    (hlast : x.held = none → flushed.length = x.due) : x.held = flushed[x.due]? := by
  cases hheld : x.held with
  | none => rw [getElem?_eq_none (hlast hheld).le]
  | some d => rw [← hplace, (h.held d hheld).2]

theorem Reads.finish (hheld : x.held = flushed[x.due]?) (hplace : x.place = x.due) :
    Reads { x with phase := .idle flushed[x.due]?, got := x.got ++ flushed[x.due]?.toList } flushed
      released := by
  have hgot : x.got ++ flushed[x.due]?.toList <+: flushed.drop x.first := by
    have htake := prefix_iff_eq_take.mp h.got
    rw [due, ← getElem?_drop]
    nth_rewrite 1 [htake]
    rw [← take_add_one]
    exact take_prefix _ _
  cases hdue : flushed[x.due]? with
  | none =>
    rw [hdue] at hgot
    exact ⟨hgot, fun c hc => (by cases hc), fun c hc => (by cases hc),
      fun c counted hc => (by cases hc), fun counted hc => (by cases hc)⟩
  | some d =>
    rw [hdue] at hgot
    have hlength : x.first + (x.got ++ [d]).length = x.due + 1 := by
      rw [length_append, length_singleton, due, add_assoc]
    have hheld' := h.held d (hheld.trans hdue)
    rw [hplace] at hheld'
    refine ⟨hgot, fun c hc => ?_, fun c hc => ?_, fun c counted hc => (by cases hc),
      fun counted hc => (by cases hc)⟩
    · cases hc
      rw [place, due, toList_some, hlength, Nat.add_sub_cancel]
      exact hheld'
    · rw [due, toList_some, hlength]
      exact succ_pos _

end

end Consumer

/-! ### Runs -/

namespace System

variable {ι : Type} {s : System ι} {i : ι} {c : ℕ}

def ReadsCounted (due : ℕ) (s : System ι) : Phase → Prop
  | .idle _ => True
  | .readNext c counted => (counted = none → s.flushed.length = due) ∧
      (s.released < due ∨ counted = none ∧ s.pipe.next c = none)
  | .readHead counted => counted = none → s.flushed.length = due

instance (due : ℕ) (s : System ι) (phase : Phase) : Decidable (s.ReadsCounted due phase) := by
  rcases phase <;> dsimp only [ReadsCounted] <;> infer_instance

/-- **The condition on a step.** A consumer that asks for the head has not obtained a chunk yet, or
the head is the one that it is to obtain next. What a consumer reads has not been changed. -/
def Undisturbed : Step ι → System ι → Prop
  | .lock i, s => (s.consumers i).phase = .idle none →
      (s.consumers i).got = [] ∨ s.released = (s.consumers i).due
  | .read i, s => s.ReadsCounted (s.consumers i).due (s.consumers i).phase
  | _, _ => True

instance (a : Step ι) (s : System ι) : Decidable (Undisturbed a s) := by
  rcases a <;> dsimp only [Undisturbed] <;> infer_instance

def Returns [DecidableEq ι] (debug : Bool) (a : Step ι) (s : System ι) : Prop :=
  ∀ i, a = .read i → (s.step debug a).Yields fun t =>
    (t.consumers i).phase = .idle s.flushed[(s.consumers i).due]?

variable [Fintype ι]

/-- **The property of a state.** Each consumer has obtained exactly the chunks that were flushed, in
their order, from the one that was the head when it started. The chunks for which consumers have
references are in the pipe and not on the free list, and no reference is lost. -/
structure Right (s : System ι) : Prop where
  inOrder (i : ι) : (s.consumers i).got <+: s.flushed.drop (s.consumers i).first
  held (i : ι) (c : ℕ) (h : (s.consumers i).held = some c) : c ∈ s.queue
  counts (c : ℕ) : refs s.consumers c ≤ s.pipe.refCount c
  free : ∃ free, LinkedFrom s.pipe.next s.pipe.available free ∧
    ∀ c ∈ free, c ∉ s.queue ∧ refs s.consumers c = 0

/-- The invariant: the lists are in memory, and the consumers read the chunks in order. -/
structure Inv (s : System ι) : Prop where
  represents : ∃ free, s.pipe.Represents s.queue free
  released_le : s.released ≤ s.flushed.length
  counts (c : ℕ) : refs s.consumers c ≤ s.pipe.refCount c
  consumers (i : ι) : (s.consumers i).Reads s.flushed s.released

theorem inv_new (n : ℕ) : (new ι n).Inv where
  represents := ⟨_, represents_new n⟩
  released_le := Nat.le_refl 0
  counts c := (Finset.sum_eq_zero fun _ _ => rfl).le
  consumers i :=
    { got := nil_prefix
      held := fun c h => by cases h
      started := fun c h => by cases h
      left := fun c counted h => by cases h
      atHead := fun counted h => by cases h }

namespace Inv

theorem mem_queue (h : s.Inv) (hheld : (s.consumers i).held = some c) : c ∈ s.queue := by
  obtain ⟨hle, hget⟩ := (h.consumers i).held c hheld
  obtain ⟨k, hk⟩ := Nat.exists_eq_add_of_le hle
  rw [hk, ← getElem?_drop] at hget
  exact mem_of_getElem? hget

theorem head_eq (h : s.Inv) : s.pipe.head = s.flushed[s.released]? := by
  obtain ⟨free, hrep⟩ := h.represents
  rw [hrep.linkedQueue.eq_head?, queue, head?_drop]

theorem next_eq (h : s.Inv) {k : ℕ} (hle : s.released ≤ k) (hk : s.flushed[k]? = some c) :
    s.pipe.next c = s.flushed[k + 1]? := by
  obtain ⟨free, hrep⟩ := h.represents
  obtain ⟨j, rfl⟩ := Nat.exists_eq_add_of_le hle
  rw [← getElem?_drop] at hk
  rw [hrep.linkedQueue.next_eq hk, queue, getElem?_drop, add_assoc]

theorem right (h : s.Inv) : s.Right := by
  refine ⟨fun i => (h.consumers i).got, fun i c hheld => h.mem_queue hheld, h.counts, ?_⟩
  obtain ⟨free, hrep⟩ := h.represents
  refine ⟨free, hrep.linkedFree, fun c hc => ?_⟩
  have hqueue : c ∉ s.queue := fun hmem =>
    disjoint_of_nodup_append hrep.nodup (mem_append_left _ hmem) hc
  refine ⟨hqueue, Finset.sum_eq_zero fun i _ => if_neg fun hheld => hqueue (h.mem_queue hheld)⟩

theorem withPipe (h : s.Inv) {p : AudioPipe} (hcount : p.refCount = s.pipe.refCount)
    (hrep : ∃ free, p.Represents s.queue free) : Inv { s with pipe := p } :=
  ⟨hrep, h.released_le, fun c => hcount ▸ h.counts c, h.consumers⟩

theorem shift (h : s.Inv) (hhead : s.pipe.head = some c) (hcount : s.pipe.refCount c = 0) :
    (s.pipe.shift debug).Succeeds fun p =>
      Inv { s with pipe := p, released := s.released + (s.pipe.size - p.size) } := by
  obtain ⟨free, hrep⟩ := h.represents
  have hget : s.flushed[s.released]? = some c := h.head_eq.symm.trans hhead
  obtain ⟨hlt, hc⟩ := List.getElem?_eq_some_iff.mp hget
  rw [queue, drop_eq_getElem_cons hlt, hc] at hrep
  refine (hrep.shift hcount).mono fun p hp => ?_
  obtain ⟨hrep', -, -, hcounts⟩ := hp
  have hone : s.pipe.size - p.size = 1 := by
    rw [hrep.size, hrep'.size, length_cons, Nat.add_sub_cancel_left]
  rw [hone]
  refine ⟨⟨_, hrep'⟩, hlt, fun d => (h.counts d).trans (hcounts d), fun i => ?_⟩
  refine (h.consumers i).release fun d hd heq => ?_
  obtain rfl := some.inj (hget.symm.trans heq)
  have hpos := refs_pos hd
  have hle := h.counts c
  omega

variable [DecidableEq ι]

theorem flush (h : s.Inv) : (s.step debug .flush).Within PipeFault.OfWriter Inv := by
  obtain ⟨free, hrep⟩ := h.represents
  refine hrep.flush.bind fun p hp => .ok ⟨⟨free, ?_⟩, ?_, fun c => ?_, fun i => ?_⟩
  · rw [queue, drop_append_of_le_length h.released_le]
    exact hp.2.2
  · exact h.released_le.trans (by simp)
  · exact hp.1 ▸ h.counts c
  · exact (h.consumers i).append _

theorem withConsumer (h : s.Inv) {y : Consumer} {refCount : ℕ → ℤ}
    (hy : y.Reads s.flushed s.released)
    (hcount : ∀ c, s.pipe.refCount c - indicator (s.consumers i).held c + indicator y.held c ≤
      refCount c) :
    Inv { s with
      pipe := { s.pipe with refCount := refCount }
      consumers := update s.consumers i y } := by
  obtain ⟨free, hrep⟩ := h.represents
  refine ⟨⟨free, hrep.withRefCount _⟩, h.released_le, fun c => ?_, fun j => ?_⟩
  · have hcounts := h.counts c
    have hcount' := hcount c
    dsimp only
    rw [refs_update]
    omega
  · dsimp only
    rw [Function.update_apply]
    split
    · exact hy
    · exact h.consumers j

theorem lockHead (h : s.Inv) (hphase : (s.consumers i).phase = .idle none)
    (hdue : (s.consumers i).got = [] ∨ s.released = (s.consumers i).due) :
    (s.lock debug i).Succeeds Inv := by
  have hheld : (s.consumers i).held = none := by rw [Consumer.held, hphase]
  rw [lock, hphase]
  refine .ok ?_
  rw [getHeadLocked_eq]
  generalize hfirst :
    (if (s.consumers i).got = [] then s.released else (s.consumers i).first) = first
  -- the head is the chunk that is due, since the consumer starts here or has obtained all others
  have hplace : first + (s.consumers i).got.length = s.released := by
    rw [← hfirst]
    split
    · next hgot => rw [hgot, length_nil, add_zero]
    · next hgot => exact (hdue.resolve_left hgot).symm
  refine h.withConsumer ⟨?_, fun c hc => ?_, fun c hc => ?_, fun c counted hc => ?_,
    fun counted _ => hplace.le⟩ fun c => ?_
  · dsimp only
    rw [← hfirst]
    split
    · next hgot =>
      rw [hgot]
      exact nil_prefix
    · exact (h.consumers i).got
  · refine ⟨hplace.ge, ?_⟩
    have hhead : s.pipe.head = some c := hc
    rw [Consumer.place, Consumer.due, hplace, ← h.head_eq, hhead]
  · cases hc
  · cases hc
  · rw [hheld, indicator_none, refCount_getHeadLocked, sub_zero]
    exact le_rfl

theorem transfer (h : s.Inv) (hphase : (s.consumers i).phase = .idle (some c)) : Inv { s with
      pipe := s.pipe.transfer c
      consumers := update s.consumers i
        { s.consumers i with phase := .readNext c (s.pipe.next c) } } := by
  have hheld : (s.consumers i).held = some c := by rw [Consumer.held, hphase]
  have hdue : 0 < (s.consumers i).due := (h.consumers i).started c hphase
  have hplace : (s.consumers i).place = (s.consumers i).due - 1 := by rw [Consumer.place, hphase]
  obtain ⟨hle, hget⟩ := (h.consumers i).held c hheld
  rw [hplace] at hle hget
  have hnext : s.pipe.next c = s.flushed[(s.consumers i).due]? := by
    rw [h.next_eq hle hget, Nat.sub_add_cancel hdue]
  rw [transfer_eq]
  refine h.withConsumer ⟨(h.consumers i).got, fun d hd => ?_, fun d hd => ?_,
    fun d counted hd => ?_, fun counted hd => ?_⟩ fun d => ?_
  · exact ⟨hle.trans (sub_le _ _), hnext.symm.trans hd⟩
  · cases hd
  · cases hd
    exact ⟨hdue, hget⟩
  · cases hd
  · rw [hheld, refCount_transfer]
    exact le_rfl

theorem lockNext (h : s.Inv) (hphase : (s.consumers i).phase = .idle (some c)) :
    (s.lock debug i).Succeeds Inv := by
  have htransfer := h.transfer hphase
  have hsize : (s.pipe.transfer c).size = s.pipe.size := by rw [transfer_eq]
  have hhead : (s.pipe.transfer c).head = s.flushed[s.released]? := htransfer.head_eq
  rw [lock, hphase]
  dsimp only
  rw [nextLocked, hhead]
  cases hget : s.flushed[s.released]? with
  | none =>
    have hmem : c ∈ s.queue := h.mem_queue (by rw [Consumer.held, hphase])
    rw [queue, drop_eq_nil_of_le (getElem?_eq_none_iff.mp hget)] at hmem
    cases hmem
  | some head =>
    dsimp only
    split
    · next hcount =>
      refine (htransfer.shift (hhead.trans hget) hcount).bind fun p hp => ?_
      rw [hsize] at hp
      exact .ok hp
    · rw [ok_bind, succeeds_ok, hsize, Nat.sub_self, Nat.add_zero]
      exact htransfer

theorem finish (h : s.Inv) (hheld : (s.consumers i).held = s.flushed[(s.consumers i).due]?)
    (hplace : (s.consumers i).place = (s.consumers i).due) :
    Inv (s.finish i s.flushed[(s.consumers i).due]?) := by
  refine h.withConsumer ((h.consumers i).finish hheld hplace) fun c => ?_
  rw [hheld]
  exact (sub_add_cancel _ _).le

theorem read (h : s.Inv) (hread : s.ReadsCounted (s.consumers i).due (s.consumers i).phase) :
    (s.read i).Within PipeFault.OfWriter fun t =>
      t.Inv ∧ (t.consumers i).phase = .idle s.flushed[(s.consumers i).due]? := by
  -- it is enough that the pointer that is read and the chunk that is counted are the one due
  have hreturns (hheld : (s.consumers i).held = s.flushed[(s.consumers i).due]?)
      (hplace : (s.consumers i).place = (s.consumers i).due) (chunk : Option ℕ)
      (hchunk : chunk = s.flushed[(s.consumers i).due]?) :
      (s.finish i chunk).Inv ∧
        ((s.finish i chunk).consumers i).phase = .idle s.flushed[(s.consumers i).due]? := by
    subst hchunk
    refine ⟨h.finish hheld hplace, ?_⟩
    rw [System.finish]
    dsimp only
    rw [Function.update_self]
  have hreads := h.consumers i
  rw [System.read]
  cases hphase : (s.consumers i).phase with
  | idle _ => exact .error trivial
  | readNext c counted =>
    rw [hphase] at hread
    obtain ⟨hlast, hlink⟩ := hread
    obtain ⟨hdue, hleft⟩ := hreads.left c counted hphase
    have hplace : (s.consumers i).place = (s.consumers i).due := by rw [Consumer.place, hphase]
    have hheld : (s.consumers i).held = counted := by rw [Consumer.held, hphase]
    have hcounted := hreads.held_eq hplace (hheld.symm ▸ hlast)
    refine .ok (hreturns hcounted hplace _ ?_)
    obtain hreleased | ⟨hnone, hnext⟩ := hlink
    · rw [h.next_eq (Nat.le_sub_one_of_lt hreleased) hleft, Nat.sub_add_cancel hdue]
    · rw [hnext, ← hcounted, hheld, hnone]
  | readHead counted =>
    rw [hphase] at hread
    have hlast : counted = none → s.flushed.length = (s.consumers i).due := hread
    have hle := hreads.atHead counted hphase
    have hplace : (s.consumers i).place = (s.consumers i).due := by rw [Consumer.place, hphase]
    have hheld : (s.consumers i).held = counted := by rw [Consumer.held, hphase]
    have hcounted := hreads.held_eq hplace (hheld.symm ▸ hlast)
    refine .ok (hreturns hcounted hplace _ ?_)
    rw [h.head_eq]
    cases counted with
    | none => rw [← hcounted, hheld, getElem?_eq_none ((hlast rfl).trans_le hle)]
    | some d =>
      have hge := (hreads.held d hheld).1
      rw [hplace] at hge
      rw [le_antisymm hge hle]

/-- **A step that is not disturbed** preserves the invariant, and no fault is one of a consumer. -/
theorem step (h : s.Inv) {a : Step ι} (ha : Undisturbed a s) :
    (s.step debug a).Within PipeFault.OfWriter Inv := by
  obtain ⟨free, hrep⟩ := h.represents
  cases a with
  | acquire => exact hrep.acquire.bind fun p hp => .ok (h.withPipe hp.1 hp.2)
  | fill n =>
    exact (hrep.fill n).bind fun p hp => .ok (h.withPipe hp.1 ⟨free, hp.2.2⟩)
  | flush => exact h.flush
  | lock i =>
    cases hphase : (s.consumers i).phase with
    | idle chunk =>
      cases chunk with
      | none => exact (h.lockHead hphase (ha hphase)).within
      | some c => exact (h.lockNext hphase).within
    | readNext c counted | readHead counted =>
      rw [System.step, lock, hphase]
      exact .error trivial
  | read i => exact (h.read ha).mono fun t ht => ht.1

end Inv

variable [DecidableEq ι]

/-- **The property of a run.** No call of a consumer fails, the consumers have obtained the chunks
in their order at any time, and each call returns the chunk that is due. -/
structure InOrder (debug : Bool) (n : ℕ) (l : List (Step ι)) : Prop where
  right : Keeps (step debug) PipeFault.OfWriter Right l (new ι n)
  returns : Follows (step debug) (Returns debug) l (new ι n)

/-- **Each consumer obtains the chunks in the order in which they were flushed**, in every run in
which what it reads after unlocking the mutex has not been changed. -/
theorem inOrder_of_undisturbed {debug : Bool} {n : ℕ} {l : List (Step ι)}
    (h : Follows (step debug) Undisturbed l (new ι n)) : InOrder debug n l where
  right := h.keeps (fun _ => Inv.right) (fun _ _ hinv ha => hinv.step ha) (inv_new n)
  returns := by
    refine h.of_invariant (inv_new n) (fun a t hinv ha => (hinv.step ha).2) ?_
    rintro a t hinv ha i rfl
    exact (hinv.read ha).2.mono fun t' ht' => ht'.2

def staying : List (Step (Fin 2)) :=
  [.acquire, .fill 1, .flush, .acquire, .fill 1, .flush, .lock 0, .lock 1, .read 0, .read 1,
    .lock 1, .read 1, .lock 1, .read 1]

def recycling : List (Step (Fin 1)) :=
  [.acquire, .fill 1, .flush, .lock 0, .read 0, .lock 0, .read 0, .acquire, .fill 1, .flush,
    .lock 0, .read 0]

theorem inOrder_staying_recycling : InOrder true 2 staying ∧ InOrder false 0 recycling :=
  ⟨inOrder_of_undisturbed (by decide), inOrder_of_undisturbed (by decide)⟩

def alone : List (Step (Fin 1)) :=
  [.acquire, .fill 1, .flush, .acquire, .fill 1, .flush, .lock 0, .read 0, .lock 0, .read 0]

theorem not_inOrder_alone : ¬ InOrder false 2 alone := by
  intro h
  obtain ⟨t, hright, ht⟩ := h.right.exists_of_execute
    (Q := fun t : System (Fin 1) => (t.consumers 0).got = [0, 2] ∧ t.flushed = [0, 1] ∧
      (t.consumers 0).first = 0) (by decide)
  obtain ⟨hgot, hflushed, hfirst⟩ := of_decide_eq_true ht
  have hinOrder := hright.inOrder 0
  rw [hgot, hflushed, hfirst] at hinOrder
  exact absurd hinOrder (by decide)

end System

end AudioPipe

end Mpd
