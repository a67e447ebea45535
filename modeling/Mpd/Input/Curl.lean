import Mpd.Command.Errors
import Mpd.Input.Icy
import Mpd.Input.Rewind

/-!
# Streams from HTTP servers

`input/curl.c` reads a stream from a HTTP server with libcurl. The I/O thread receives it into a
queue of buffers; `input_curl_read` waits until there are buffers and reads from them, and
`input_curl_seek` skips buffers, or makes a new connection.

The functions of this file return `MPD_SUCCESS`, which is 0, or a negative error number. Three of
them return a truth value instead, which their callers take for an error number:

* `fill_buffer` returns 1 if there are buffers. `input_curl_read` returns it at once, so nothing is
  ever read; and at the end of the stream, where it returns 0, `input_curl_read` does not return
  (`readsRight_iff`).
* `input_curl_easy_init` returns 1 if it succeeds, and `input_curl_seek` returns it, with the mutex
  unlocked.
* `input_curl_seek` itself returns 1 if there is nothing to do, and 0 if the stream cannot seek
  (`seeksRight_iff`).
-/

namespace Mpd

open Nat Option List Except

namespace Curl

open Framing Icy

open Rewind (Whence)

/-! ### The source -/

inductive CurlFault
  /-- `is->ready` -/
  | ready
  /-- an offset does not fit into `off64_t` -/
  | overflow
  | buffer (fault : IcyFault)
  | running
  deriving DecidableEq, Repr

/-- `struct input_curl`, with the attributes of the stream. -/
structure InputCurl where
  ready : Bool
  seekable : Bool
  size : ℤ
  offset : ℤ
  /-- is the mutex locked? -/
  locked : Bool
  /-- `easy != NULL` -/
  easy : Bool
  range : Option ℤ
  buffers : List Buffer
  paused : Bool
  icy : IcyMetadata
  metaName : Option Text
  tag : Option Tag
  postponedError : ℤ

/-- What libcurl and the I/O thread do. -/
structure Libcurl where
  /-- does `curl_easy_init` return a handle? -/
  easyInit : Bool
  /-- is the URL accepted? -/
  setUrl : Bool
  /-- `input_curl_easy_add`, in the I/O thread -/
  easyAdd : ℤ
  /-- the stream when `fill_buffer` has waited for a buffer or the end of the request, if there is
  one or the other -/
  receive : InputCurl → Option InputCurl
  /-- a request that ends does not find an error: `input_curl_request_done` asserts it -/
  receive_error : ∀ c, ∀ c' ∈ receive c, c.postponedError ≠ 0 →
    c'.postponedError = c.postponedError
  /-- the stream when `input_curl_seek` has waited until it is ready, if it ever is -/
  connect : InputCurl → Option InputCurl

namespace InputCurl

def filled (c : InputCurl) : ℤ × InputCurl :=
  if c.postponedError ≠ 0 then (c.postponedError, { c with postponedError := 0 })
  else (if c.buffers ≠ [] then 1 else 0, c)

def fillBuffer (env : Libcurl) (c : InputCurl) : Option (ℤ × InputCurl) :=
  (if c.easy ∧ c.buffers = [] then env.receive c else some c).map filled

section Read

variable [Utf8] (ignored : TagType → Bool)

def sendBuffers : ℕ → InputCurl → ℕ → List UInt8 →
    Except IcyFault (InputCurl × ℕ × List UInt8)
  | 0, _, _, _ => .error .running
  | rounds + 1, c, size, dest =>
    if 0 < size ∧ c.buffers ≠ [] then do
      let (r, buffers) ← readFromBuffer ignored (rounds + 1) c.icy c.buffers size
      sendBuffers rounds { c with icy := r.icy, buffers := buffers } (size - r.dest.length)
        (dest ++ r.dest)
    else .ok (c, size, dest)

def copyIcyTag (c : InputCurl) : InputCurl :=
  match c.icy.tag with
  | none => c
  | some tag =>
    let tag :=
      match c.metaName with
      | some name =>
        if tag.items.any fun item => item.type = .name then tag
        else tag.addItem ignored .name name
      | none => tag
    { c with icy := { c.icy with tag := none }, tag := some tag }

def totalBufferSize (c : InputCurl) : ℕ :=
  (c.buffers.map fun b => b.data.length).sum

def resumeAt : ℕ :=
  384 * 1024

def read (env : Libcurl) : ℕ → InputCurl → ℕ → Except IcyFault (ℤ × List UInt8 × InputCurl)
  | 0, _, _ => .error .running
  | rounds + 1, c, size =>
    match c.fillBuffer env with
    | none => .error .running
    | some (ret, c) =>
      if ret ≠ 0 then .ok (ret, [], c)
      else do
        let (c, size, dest) ← sendBuffers ignored (rounds + 1) c size []
        if dest.length = 0 then read env rounds c size
        else
          let c := if 0 < c.icy.dataSize then copyIcyTag ignored c else c
          let c := { c with offset := c.offset + dest.length }
          let c := if c.paused ∧ c.totalBufferSize < resumeAt then { c with paused := false } else c
          .ok (dest.length, dest, c)

end Read

def absolute (c : InputCurl) (offset : ℤ) : Whence → Option ℤ
  | .seekSet => some offset
  | .seekCur => some (offset + c.offset)
  | .seekEnd => if c.size < 0 then none else some (offset + c.size)

def fastForward (offset : ℤ) : ℕ → InputCurl → Except CurlFault InputCurl
  | 0, _ => .error .running
  | rounds + 1, c =>
    match c.buffers with
    | [] => .ok c
    | buffer :: buffers =>
      if c.offset < offset then
        let rest := buffer.data.length - buffer.consumed
        let length := if offset - c.offset < rest then (offset - c.offset).toNat else rest
        match consumeBuffer buffer length with
        | .error fault => .error (.buffer fault)
        | .ok buffer =>
          fastForward offset rounds
            { c with buffers := buffer.toList ++ buffers, offset := c.offset + length }
      else .ok c

def easyFree (c : InputCurl) : InputCurl :=
  if !c.easy then c else { c with easy := false, range := none }

def easyInit (env : Libcurl) (c : InputCurl) : ℤ × InputCurl :=
  if !env.easyInit then (-MpdErr.third.code, { c with easy := false })
  else if !env.setUrl then (-MpdErr.third.code, { c with easy := true })
  else (1, { c with easy := true })

def reconnect (env : Libcurl) (c : InputCurl) (offset : ℤ) : Except CurlFault (ℤ × InputCurl) :=
  let c := easyFree { c with locked := false }
  let c := { c with buffers := [], offset := offset }
  if c.offset = c.size then
    -- seek to EOF: simulate empty result
    .ok (0, c)
  else
    match c.easyInit env with
    | (ret, c) =>
      if ret ≠ 0 then .ok (ret, c)
      else
        -- send the "Range" header
        let c := if 0 < c.offset then { c with range := some c.offset } else c
        let c := { c with ready := false }
        if env.easyAdd ≠ 0 then .ok (env.easyAdd, c)
        else
          match env.connect { c with locked := true } with
          | none => .error .running
          | some c => .ok (c.postponedError, c)

def inOff64 (x : ℤ) : Prop :=
  -2 ^ 63 ≤ x ∧ x < 2 ^ 63
  deriving Decidable

def seekTo (env : Libcurl) (rounds : ℕ) (c : InputCurl) (offset : ℤ) :
    Except CurlFault (ℤ × InputCurl) :=
  if ¬ inOff64 offset then .error .overflow
  else if offset < 0 then .ok (-MpdErr.inval.code, c)
  else do
    -- check if we can fast-forward the buffer
    let c ← c.fastForward offset rounds
    if offset = c.offset then .ok (0, c) else c.reconnect env offset

def seek (env : Libcurl) (rounds : ℕ) (c : InputCurl) (offset : ℤ) (whence : Whence) :
    Except CurlFault (ℤ × InputCurl) :=
  if !c.ready then .error .ready
  else if whence = .seekSet ∧ offset = c.offset then .ok (1, c)
  else if !c.seekable then .ok (0, c)
  else
    match c.absolute offset whence with
    | none => .ok (0, c)
    | some offset => c.seekTo env rounds offset

def eof (c : InputCurl) : Bool :=
  !c.easy && c.buffers.isEmpty

/-! ### What is buffered -/

def pending (c : InputCurl) : List UInt8 :=
  c.buffers.flatMap Buffer.rest

end InputCurl

def currentFrame (im : IcyMetadata) : Parse UInt8 where
  frames := []
  content := replicate (im.dataSize - im.dataRest) 0
  block := if im.metaSize = 0 then [] else UInt8.ofNat (im.metaSize / 16) :: im.metaData

def InputCurl.audio (c : InputCurl) : List UInt8 :=
  if c.icy.dataSize = 0 then c.pending
  else ((currentFrame c.icy).feedAll blockSize c.icy.dataSize c.pending).contents.drop
    (currentFrame c.icy).contents.length

namespace InputCurl

variable {c : InputCurl}

theorem audio_eq_pending (h : c.icy.dataSize = 0) : c.audio = c.pending :=
  if_pos h

theorem buffers_ne_nil (h : c.audio ≠ []) : c.buffers ≠ [] := by
  intro hnil
  have hpending : c.pending = [] := by
    rw [pending, hnil, flatMap_nil]
  refine h ?_
  rw [audio, hpending, Parse.feedAll_nil, drop_length, ite_self]

end InputCurl

/-! ### Reading -/

namespace InputCurl

variable {env : Libcurl} {c : InputCurl}

theorem filled_error (h : c.postponedError ≠ 0) :
    c.filled = (c.postponedError, { c with postponedError := 0 }) :=
  if_pos h

theorem filled_eq (h : c.postponedError = 0) : c.filled = (if c.buffers ≠ [] then 1 else 0, c) :=
  if_neg (not_not.mpr h)

theorem fillBuffer_error (herror : c.postponedError ≠ 0)
    (hwait : c.easy = true → c.buffers = [] → (env.receive c).isSome = true) :
    ∃ c', c.fillBuffer env = some (c.postponedError, c') := by
  rw [fillBuffer]
  split
  · next h =>
    obtain ⟨c', hc'⟩ := isSome_iff_exists.mp (hwait h.1 h.2)
    have heq := env.receive_error c c' hc' herror
    rw [hc', map_some, filled_error (heq ▸ herror), heq]
    exact ⟨_, rfl⟩
  · rw [map_some, filled_error herror]
    exact ⟨_, rfl⟩

theorem fillBuffer_none (heasy : c.easy = true) (hbuffers : c.buffers = [])
    (hreceive : env.receive c = none) : c.fillBuffer env = none := by
  rw [fillBuffer, if_pos ⟨heasy, hbuffers⟩, hreceive, map_none]

theorem fillBuffer_buffers (herror : c.postponedError = 0) (hbuffers : c.buffers ≠ []) :
    c.fillBuffer env = some (1, c) := by
  rw [fillBuffer, if_neg fun h => hbuffers h.2, map_some, filled_eq herror, if_pos hbuffers]

theorem fillBuffer_eof (herror : c.postponedError = 0) (heof : c.eof = true) :
    c.fillBuffer env = some (0, c) := by
  rw [eof, Bool.and_eq_true, Bool.not_eq_true', List.isEmpty_iff] at heof
  rw [fillBuffer, if_neg fun h => absurd (heof.1.symm.trans h.1) Bool.false_ne_true,
    map_some, filled_eq herror, if_neg (not_not.mpr heof.2)]

section Read

variable [Utf8] {ignored : TagType → Bool} {size : ℕ}

theorem read_of_fillBuffer {ret : ℤ} {c' : InputCurl} (h : c.fillBuffer env = some (ret, c'))
    (hret : ret ≠ 0) (rounds : ℕ) : c.read ignored env (rounds + 1) size = .ok (ret, [], c') := by
  rw [read, h]
  exact if_pos hret

theorem read_eof (herror : c.postponedError = 0) (heof : c.eof = true) (rounds : ℕ) :
    c.read ignored env rounds size = .error .running := by
  induction rounds with
  | zero => rfl
  | succ rounds ih =>
    have hbuffers : c.buffers = [] := by
      rw [eof, Bool.and_eq_true, List.isEmpty_iff] at heof
      exact heof.2
    have hsend : sendBuffers ignored (rounds + 1) c size [] = .ok (c, size, []) := by
      rw [sendBuffers, if_neg fun h => h.2 hbuffers]
    rw [read, fillBuffer_eof herror heof]
    dsimp only
    rw [if_neg (not_not.mpr rfl), hsend, ok_bind]
    exact (if_pos rfl).trans ih

variable (env c ignored size)

/-- **What is expected of `input_curl_read`**: a pending error is returned, even if there are
buffers; then comes the audio data that is buffered, and 0 at the end of the stream. -/
structure ReadsRight : Prop where
  error : c.postponedError ≠ 0 →
    Except.Eventually (fun rounds => c.read ignored env rounds size) fun r =>
      r.1 = c.postponedError
  data : c.postponedError = 0 → c.audio ≠ [] →
    Except.Eventually (fun rounds => c.read ignored env rounds size) fun r =>
      ∃ n : ℕ, 0 < n ∧ n ≤ c.audio.length ∧ r.1 = n ∧ r.2.1 = c.audio.take n ∧
        r.2.2.offset = c.offset + n
  eof : c.postponedError = 0 → c.eof = true →
    Except.Eventually (fun rounds => c.read ignored env rounds size) fun r => r.1 = 0

variable {env c ignored size}

/-- **`input_curl_read` never reads.** It does what is expected only if there is an error to return,
or if there is neither audio data nor the end of the stream. -/
theorem readsRight_iff : c.ReadsRight env ignored size ↔
      (c.postponedError ≠ 0 ∧
        (c.easy = true → c.buffers = [] → (env.receive c).isSome = true)) ∨
      (c.postponedError = 0 ∧ c.audio = [] ∧ c.eof = false) := by
  by_cases herror : c.postponedError = 0
  · constructor
    · intro h
      refine .inr ⟨herror, ?_, ?_⟩
      · by_contra haudio
        have hfill : c.fillBuffer env = some (1, c) :=
          fillBuffer_buffers herror (buffers_ne_nil haudio)
        have hread := (eventually_iff_of_succ
          (read_of_fillBuffer hfill Int.one_ne_zero)).mp (h.data herror haudio)
        obtain ⟨n, hn, hle, -, hdest, -⟩ := succeeds_ok.mp hread
        have hlength := congrArg length hdest
        rw [length_nil, length_take] at hlength
        omega
      · by_contra heof
        rw [Bool.not_eq_false] at heof
        exact not_eventually (read_eof herror heof) (h.eof herror heof)
    · rintro (⟨hne, -⟩ | ⟨-, haudio, heof⟩)
      · exact absurd herror hne
      · exact ⟨fun hne => absurd herror hne, fun _ hne => absurd haudio hne,
          fun _ htrue => absurd (heof.symm.trans htrue) Bool.false_ne_true⟩
  · constructor
    · intro h
      refine .inl ⟨herror, fun heasy hbuffers => ?_⟩
      by_contra hnone
      rw [not_isSome_iff_eq_none] at hnone
      refine not_eventually (e := IcyFault.running) (fun rounds => ?_) (h.error herror)
      cases rounds with
      | zero => rfl
      | succ rounds => rw [read, fillBuffer_none heasy hbuffers hnone]
    · rintro (⟨-, hwait⟩ | ⟨heq, -, -⟩)
      · obtain ⟨c', hfill⟩ := fillBuffer_error herror hwait
        refine ⟨fun _ => ?_, fun heq => absurd heq herror, fun heq => absurd heq herror⟩
        exact (eventually_iff_of_succ (read_of_fillBuffer hfill herror)).mpr (.ok rfl)
      · exact absurd heq herror

end Read

def plain (offset : ℤ) (data : List UInt8) : InputCurl where
  ready := true
  seekable := true
  size := 100
  offset := offset
  locked := true
  easy := true
  range := none
  buffers := [⟨data, 0⟩]
  paused := false
  icy := .start 0
  metaName := none
  tag := none
  postponedError := 0

end InputCurl

def silent : Libcurl where
  easyInit := true
  setUrl := true
  easyAdd := 0
  receive _ := none
  receive_error _ _ h := absurd h (not_mem_none _)
  connect _ := none

namespace InputCurl

theorem not_readsRight_received :
    (plain 0 [7, 8, 9]).read (fun _ => false) silent 10 3 = .ok (1, [], plain 0 [7, 8, 9]) ∧
      ¬ (plain 0 [7, 8, 9]).ReadsRight silent (fun _ => false) 3 := by
  have hfill : (plain 0 [7, 8, 9]).fillBuffer silent = some (1, plain 0 [7, 8, 9]) := rfl
  refine ⟨rfl, fun h => ?_⟩
  have hread := (eventually_iff_of_succ
    (read_of_fillBuffer hfill Int.one_ne_zero)).mp (h.data rfl (cons_ne_nil _ _))
  obtain ⟨n, hn, -, -, hdest, -⟩ := succeeds_ok.mp hread
  cases n with
  | zero => exact not_lt_zero 0 hn
  | succ n => cases hdest

end InputCurl

/-! ### Seeking -/

namespace InputCurl

/-- `n` of the bytes that are buffered have been skipped. -/
structure Skips (c : InputCurl) (n : ℕ) (c' : InputCurl) : Prop where
  eq : c' = { c with buffers := c'.buffers, offset := c.offset + n }
  pending : c'.pending = c.pending.drop n

section Skips

variable {c c' c'' : InputCurl} {n m : ℕ}

theorem Skips.offset (h : c.Skips n c') : c'.offset = c.offset + n := by
  rw [h.eq]

theorem Skips.locked (h : c.Skips n c') : c'.locked = c.locked := by
  rw [h.eq]

theorem Skips.size (h : c.Skips n c') : c'.size = c.size := by
  rw [h.eq]

theorem Skips.icy (h : c.Skips n c') : c'.icy = c.icy := by
  rw [h.eq]

theorem Skips.refl (c : InputCurl) : c.Skips 0 c := by
  refine ⟨?_, drop_zero.symm⟩
  rw [Int.natCast_zero, Int.add_zero]

theorem Skips.trans (h : c.Skips n c') (h' : c'.Skips m c'') : c.Skips (n + m) c'' := by
  refine ⟨?_, by rw [h'.pending, h.pending, drop_drop]⟩
  have heq := h'.eq
  rw [h.eq] at heq
  rw [Int.natCast_add, ← Int.add_assoc]
  exact heq

end Skips

section Seek

variable {env : Libcurl} {c : InputCurl} {resource : List UInt8} {offset : ℤ} {whence : Whence}

theorem fastForward_eq_self (h : c.offset < offset → c.buffers = []) (rounds : ℕ) :
    c.fastForward offset (rounds + 1) = .ok c := by
  rw [fastForward]
  split
  · rfl
  · next hbs => exact if_neg fun hlt => absurd (hbs.symm.trans (h hlt)) (cons_ne_nil _ _)

/-- **Fast-forward** skips what is buffered, up to the offset that is sought. -/
theorem exists_fastForward_eq (h : ∀ b ∈ c.buffers, b.consumed < b.data.length) (offset : ℤ) :
    ∃ c' : InputCurl, c.Skips (min (offset - c.offset).toNat c.pending.length) c' ∧
      ∀ rounds, c.buffers.length < rounds → c.fastForward offset rounds = .ok c' := by
  obtain ⟨bs, hbs⟩ : ∃ bs, c.buffers = bs := ⟨_, rfl⟩
  induction bs generalizing c with
  | nil =>
    have hpending : c.pending = [] := by rw [InputCurl.pending, hbs, flatMap_nil]
    refine ⟨c, ?_, fun rounds hrounds => ?_⟩
    · rw [hpending, length_nil, Nat.min_zero]
      exact .refl c
    · obtain ⟨rounds, rfl⟩ := Nat.exists_eq_add_of_le' (Nat.one_le_of_lt hrounds)
      exact fastForward_eq_self (fun _ => hbs) rounds
  | cons b bs ih =>
    rw [hbs, forall_mem_cons] at h
    have hpending : c.pending = b.rest ++ bs.flatMap Buffer.rest := by
      rw [InputCurl.pending, hbs, flatMap_cons]
    have hlength : c.pending.length = b.rest.length + (bs.flatMap Buffer.rest).length := by
      rw [hpending, length_append]
    have hrest : b.rest.length = b.data.length - b.consumed := length_drop
    by_cases hlt : c.offset < offset
    · obtain ⟨d, hd⟩ : ∃ d : ℕ, (offset - c.offset).toNat = d := ⟨_, rfl⟩
      by_cases hpart : offset - c.offset < (b.data.length - b.consumed : ℕ)
      · -- a part of the first buffer
        have hmin : min d c.pending.length = d := by omega
        have hconsume : consumeBuffer b d = .ok (some ⟨b.data, b.consumed + d⟩) := by
          rw [consumeBuffer, if_pos h.1]
          exact if_pos (show b.consumed + d < b.data.length by omega)
        refine ⟨{ c with buffers := ⟨b.data, b.consumed + d⟩ :: bs, offset := c.offset + d },
          ⟨by rw [hd, hmin], ?_⟩, fun rounds hrounds => ?_⟩
        · rw [hd, hmin, hpending, drop_append_of_le_length (by omega), Buffer.rest, drop_drop]
          rfl
        · rw [hbs, length_cons] at hrounds
          obtain ⟨rounds, rfl⟩ := Nat.exists_eq_add_of_le' (show 2 ≤ rounds by omega)
          rw [fastForward, hbs]
          dsimp only
          rw [if_pos hlt, if_pos hpart, hd, hconsume]
          refine fastForward_eq_self (fun hlt' => ?_) rounds
          dsimp only at hlt'
          omega
      · -- the whole buffer
        have hconsume : consumeBuffer b (b.data.length - b.consumed) = .ok none := by
          rw [consumeBuffer, if_pos h.1]
          dsimp only
          rw [if_neg (by omega), if_pos (by omega)]
        obtain ⟨c', hskips, hforward⟩ := ih (c := { c with
          buffers := bs, offset := c.offset + (b.data.length - b.consumed : ℕ) }) h.2 rfl
        have hfirst : c.Skips (b.data.length - b.consumed) { c with
            buffers := bs, offset := c.offset + (b.data.length - b.consumed : ℕ) } := by
          refine ⟨rfl, ?_⟩
          rw [hpending, ← hrest, drop_left]
          rfl
        refine ⟨c', ?_, fun rounds hrounds => ?_⟩
        · have hsum := hfirst.trans hskips
          rw [InputCurl.pending] at hsum
          dsimp only at hsum
          convert hsum using 1
          omega
        · rw [hbs, length_cons] at hrounds
          obtain ⟨rounds, rfl⟩ := Nat.exists_eq_add_of_le' (Nat.one_le_of_lt hrounds)
          rw [fastForward, hbs]
          dsimp only
          rw [if_pos hlt, if_neg hpart, hconsume]
          exact hforward rounds (show bs.length < rounds by omega)
    · have hzero : (offset - c.offset).toNat = 0 := by omega
      refine ⟨c, ?_, fun rounds hrounds => ?_⟩
      · rw [hzero, Nat.zero_min]
        exact .refl c
      · obtain ⟨rounds, rfl⟩ := Nat.exists_eq_add_of_le' (Nat.one_le_of_lt hrounds)
        exact fastForward_eq_self (fun h => absurd h hlt) rounds

theorem reconnect_succeeds (env : Libcurl) (c : InputCurl) (offset : ℤ) :
    (c.reconnect env offset).Succeeds fun r => r.2.locked = false ∧
      r.1 = if offset = c.size then 0
        else if env.easyInit = true ∧ env.setUrl = true then 1 else -MpdErr.third.code := by
  have hsize : (easyFree { c with locked := false }).size = c.size := by
    rw [easyFree]
    split <;> rfl
  have hlocked : (easyFree { c with locked := false }).locked = false := by
    rw [easyFree]
    split <;> rfl
  rw [reconnect]
  rw [hsize]
  split
  · exact .ok ⟨hlocked, rfl⟩
  · have hthird : -MpdErr.third.code ≠ 0 := by decide
    rw [easyInit]
    cases env.easyInit with
    | false => exact .ok ⟨hlocked, rfl⟩
    | true =>
      cases env.setUrl with
      | false => exact .ok ⟨hlocked, rfl⟩
      | true => exact .ok ⟨hlocked, rfl⟩

/-- A stream that is ready, and the mutex is locked. What is buffered is the resource from the
offset on. A stream with metadata cannot seek. -/
structure Valid (resource : List UInt8) (c : InputCurl) : Prop where
  ready : c.ready = true
  locked : c.locked = true
  offset : 0 ≤ c.offset
  buffers : ∀ b ∈ c.buffers, b.consumed < b.data.length
  audio : c.audio <+: resource.drop c.offset.toNat
  seekable : c.seekable = true → c.icy.dataSize = 0

def Arrived (resource : List UInt8) (c : InputCurl) (offset : ℤ) (whence : Whence)
    (c' : InputCurl) : Prop :=
  ∃ t, c.absolute offset whence = some t ∧ c'.offset = t ∧
    c'.audio <+: resource.drop t.toNat ∧ c'.locked = c.locked

/-- **What is expected of `input_curl_seek`**: it returns `MPD_SUCCESS` exactly if the stream is
where it was sought, and otherwise a negative error. -/
def SeeksRight (env : Libcurl) (resource : List UInt8) (c : InputCurl) (offset : ℤ)
    (whence : Whence) : Prop :=
  Except.Eventually (fun rounds => c.seek env rounds offset whence) fun r =>
    (r.1 = 0 ↔ c.Arrived resource offset whence r.2) ∧
      (¬ c.Arrived resource offset whence r.2 → r.1 < 0)

/-- When a seek does what it is to do. -/
def SeeksWhen (env : Libcurl) (c : InputCurl) (offset : ℤ) (whence : Whence) : Prop :=
  ∃ t, c.absolute offset whence = some t ∧ ¬ (whence = .seekSet ∧ t = c.offset) ∧
    if c.seekable then
      inOff64 t ∧ (t < 0 ∨ (c.offset ≤ t ∧ t ≤ c.offset + c.pending.length) ∨
        (t ≠ c.size ∧ ¬ (env.easyInit = true ∧ env.setUrl = true)))
    else t = c.offset

section

variable (h : c.Valid resource)
include h

theorem Valid.arrived_self_iff :
    c.Arrived resource offset whence c ↔ c.absolute offset whence = some c.offset := by
  constructor
  · rintro ⟨t, ht, rfl, -, -⟩
    exact ht
  · exact fun ht => ⟨c.offset, ht, rfl, h.audio, rfl⟩

theorem Valid.not_arrived {c' : InputCurl} (hlocked : c'.locked = false) :
    ¬ c.Arrived resource offset whence c' := by
  rintro ⟨t, -, -, -, heq⟩
  rw [hlocked, h.locked] at heq
  exact Bool.false_ne_true heq

theorem Valid.arrived_of_skips (hseekable : c.seekable = true)
    {c' : InputCurl} {n : ℕ} (hskips : c.Skips n c')
    (habsolute : c.absolute offset whence = some (c.offset + n)) :
    c.Arrived resource offset whence c' := by
  have hdataSize := h.seekable hseekable
  have haudio : c'.audio = c.audio.drop n := by
    rw [audio_eq_pending (hskips.icy ▸ hdataSize), audio_eq_pending hdataSize, hskips.pending]
  have hnonneg := h.offset
  refine ⟨_, habsolute, hskips.offset, ?_, hskips.locked⟩
  have hdrop : resource.drop (c.offset + n).toNat = (resource.drop c.offset.toNat).drop n := by
    rw [drop_drop]
    congr 1
    omega
  rw [haudio, hdrop]
  exact h.audio.drop n

section

variable (hset : ¬ (whence = .seekSet ∧ offset = c.offset))
include hset

theorem Valid.seek_unseekable (hseekable : c.seekable = false)
    (rounds : ℕ) : c.seek env rounds offset whence = .ok (0, c) := by
  rw [seek, h.ready, if_neg (by decide), if_neg hset, hseekable]
  rfl

theorem Valid.seek_unknown (habsolute : c.absolute offset whence = none) (rounds : ℕ) :
    c.seek env rounds offset whence = .ok (0, c) := by
  rw [seek, h.ready, if_neg (by decide), if_neg hset, habsolute]
  exact ite_self _

theorem Valid.seek_absolute (hseekable : c.seekable = true) {t : ℤ}
    (ht : c.absolute offset whence = some t) (rounds : ℕ) :
    c.seek env rounds offset whence = c.seekTo env rounds t := by
  rw [seek, h.ready, if_neg (by decide), if_neg hset, hseekable, ht]
  rfl

end

section

variable (hseekable : c.seekable = true) {t : ℤ} (ht : c.absolute offset whence = some t)
  (hset : ¬ (whence = .seekSet ∧ offset = c.offset))
include hseekable ht hset

/-- **Seeks to an absolute offset** in a stream that can seek: within the buffers, and with a new
connection. -/
theorem Valid.seeksRight_iff_of_nonneg
    (hrange : inOff64 t) (hnonneg : 0 ≤ t) : c.SeeksRight env resource offset whence ↔
      (c.offset ≤ t ∧ t ≤ c.offset + c.pending.length) ∨
        (t ≠ c.size ∧ ¬ (env.easyInit = true ∧ env.setUrl = true)) := by
  obtain ⟨c', hskips, hforward⟩ := exists_fastForward_eq h.buffers t
  have hoffset := hskips.offset
  have hseek : ∀ rounds, c.buffers.length < rounds → c.seek env rounds offset whence =
      if t = c'.offset then .ok (0, c') else c'.reconnect env t := by
    intro rounds hrounds
    rw [h.seek_absolute hset hseekable ht, seekTo, if_neg (not_not.mpr hrange),
      if_neg (not_lt.mpr hnonneg), hforward rounds hrounds, ok_bind]
  rw [SeeksRight, eventually_iff_of_lt hseek]
  split
  · next heq =>
    -- the offset is buffered
    have hbuffered : c.offset ≤ t ∧ t ≤ c.offset + c.pending.length := by omega
    have harrived : c.Arrived resource offset whence c' :=
      h.arrived_of_skips hseekable hskips (ht.trans (congrArg some (heq.trans hoffset)))
    exact iff_of_true (.ok ⟨iff_of_true rfl harrived, fun hnot =>
      absurd harrived hnot⟩) (.inl hbuffered)
  · next hne =>
    have hbuffered : ¬ (c.offset ≤ t ∧ t ≤ c.offset + c.pending.length) := by omega
    rw [or_iff_right hbuffered]
    obtain ⟨r, hr, hlocked, hret⟩ := reconnect_succeeds env c' t
    have harrived : ¬ c.Arrived resource offset whence r.2 := h.not_arrived hlocked
    rw [hr, succeeds_ok, hret, hskips.size]
    have hthird : -MpdErr.third.code < 0 := by decide
    by_cases hsize : t = c.size
    · rw [if_pos hsize]
      exact iff_of_false (fun hright => harrived (hright.1.mp rfl)) fun hnot => hnot.1 hsize
    · rw [if_neg hsize]
      split
      · next hcurl =>
        exact iff_of_false (fun hright => absurd (hright.2 harrived) (by decide))
          fun hnot => hnot.2 hcurl
      · next hcurl =>
        exact iff_of_true ⟨iff_of_false hthird.ne harrived, fun _ => hthird⟩ ⟨hsize, hcurl⟩

theorem Valid.seeksRight_iff_absolute :
    c.SeeksRight env resource offset whence ↔ c.SeeksWhen env offset whence := by
  have hwhen : c.SeeksWhen env offset whence ↔ inOff64 t ∧ (t < 0 ∨
      (c.offset ≤ t ∧ t ≤ c.offset + c.pending.length) ∨
        (t ≠ c.size ∧ ¬ (env.easyInit = true ∧ env.setUrl = true))) := by
    constructor
    · rintro ⟨t', ht', -, hwhen⟩
      obtain rfl := some.inj (ht.symm.trans ht')
      rw [hseekable] at hwhen
      exact hwhen
    · refine fun hwhen => ⟨t, ht, ?_, by rw [hseekable]; exact hwhen⟩
      rintro ⟨rfl, rfl⟩
      exact hset ⟨rfl, some.inj ht⟩
  rw [hwhen]
  by_cases hrange : inOff64 t
  · rw [and_iff_right hrange]
    by_cases hneg : t < 0
    · have hseek : ∀ rounds, c.seek env (rounds + 1) offset whence =
          .ok (-MpdErr.inval.code, c) := by
        intro rounds
        rw [h.seek_absolute hset hseekable ht, seekTo, if_neg (not_not.mpr hrange), if_pos hneg]
      have hinval : -MpdErr.inval.code < 0 := by decide
      have hoffset := h.offset
      rw [SeeksRight, eventually_iff_of_succ hseek, succeeds_ok, h.arrived_self_iff, ht, some_inj]
      exact iff_of_true ⟨iff_of_false hinval.ne (by omega), fun _ => hinval⟩ (.inl hneg)
    · rw [h.seeksRight_iff_of_nonneg hseekable ht hset hrange (not_lt.mp hneg), or_iff_right hneg]
  · have hseek : ∀ rounds, c.seek env rounds offset whence = .error .overflow := by
      intro rounds
      rw [h.seek_absolute hset hseekable ht, seekTo, if_pos hrange]
    exact iff_of_false (not_eventually hseek) fun hin => hrange hin.1

end

end

/-- **When `input_curl_seek` does what is expected.** -/
theorem seeksRight_iff (h : c.Valid resource) :
    c.SeeksRight env resource offset whence ↔ c.SeeksWhen env offset whence := by
  by_cases hset : whence = .seekSet ∧ offset = c.offset
  · -- there is nothing to do, and 1 is returned
    obtain ⟨rfl, rfl⟩ := hset
    have hseek : ∀ rounds, c.seek env (rounds + 1) c.offset .seekSet = .ok (1, c) := by
      intro rounds
      rw [seek, h.ready, if_neg (by decide)]
      exact if_pos ⟨rfl, rfl⟩
    rw [SeeksRight, eventually_iff_of_succ hseek, succeeds_ok]
    refine iff_of_false (fun hright => ?_) ?_
    · exact absurd (hright.1.mpr (h.arrived_self_iff.mpr rfl)) Int.one_ne_zero
    · rintro ⟨t, ht, hnot, -⟩
      exact hnot ⟨rfl, (some.inj ht).symm⟩
  · have hnot : ∀ t, c.absolute offset whence = some t →
        ¬ (whence = .seekSet ∧ t = c.offset) := by
      rintro t ht ⟨rfl, rfl⟩
      exact hset ⟨rfl, some.inj ht⟩
    cases hseekable : c.seekable with
    | false =>
      rw [SeeksRight, eventually_iff_of_succ fun rounds =>
        h.seek_unseekable hset hseekable (rounds + 1), succeeds_ok, h.arrived_self_iff,
        SeeksWhen, hseekable]
      constructor
      · intro hright
        have habsolute := hright.1.mp rfl
        exact ⟨c.offset, habsolute, hnot _ habsolute, rfl⟩
      · rintro ⟨t, ht, -, heq⟩
        obtain rfl : t = c.offset := heq
        exact ⟨iff_of_true rfl ht, fun hne => absurd ht hne⟩
    | true =>
      cases ht : c.absolute offset whence with
      | none =>
        rw [SeeksRight, eventually_iff_of_succ fun rounds =>
          h.seek_unknown hset ht (rounds + 1), succeeds_ok, h.arrived_self_iff, ht]
        refine iff_of_false (fun hright => absurd (hright.1.mp rfl) (some_ne_none _).symm) ?_
        rintro ⟨t, ht', -⟩
        exact absurd (ht'.symm.trans ht) (some_ne_none t)
      | some t => exact h.seeksRight_iff_absolute hseekable ht hset

end Seek

theorem valid_plain : (plain 0 [7, 8, 9]).Valid [7, 8, 9, 10] where
  ready := rfl
  locked := rfl
  offset := le_rfl
  buffers := by
    rw [plain, forall_mem_singleton]
    exact zero_lt_succ 2
  audio := ⟨[10], rfl⟩
  seekable _ := rfl

theorem seeksRight_iff_buffered :
    (plain 0 [7, 8, 9]).SeeksRight silent [7, 8, 9, 10] 2 .seekCur := by
  refine (seeksRight_iff valid_plain).mpr ⟨2, rfl, ?_, ?_⟩
  · rintro ⟨hset, -⟩
    cases hset
  · exact ⟨by decide, .inr (.inl ⟨by decide, by decide⟩)⟩

theorem not_seeksRight_reconnect : ((plain 0 [7, 8, 9]).seek silent 10 50 .seekSet).Succeeds
        (fun r => r.1 = 1 ∧ r.2.offset = 50 ∧ r.2.locked = false) ∧
      ¬ (plain 0 [7, 8, 9]).SeeksRight silent [7, 8, 9, 10] 50 .seekSet := by
  have hseek : ∀ rounds, (plain 0 [7, 8, 9]).seek silent (rounds + 2) 50 .seekSet =
      .ok (1, { plain 50 [] with buffers := [], locked := false }) := fun _ => rfl
  refine ⟨hseek 8 ▸ ⟨_, rfl, rfl, rfl, rfl⟩, ?_⟩
  rintro ⟨N, hN⟩
  have hright := hN (N + 2) (le_add_right N 2)
  dsimp only at hright
  rw [hseek, succeeds_ok] at hright
  exact absurd (hright.2 (valid_plain.not_arrived rfl)) (by decide)

end InputCurl

end Curl

end Mpd
