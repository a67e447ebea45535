import Mpd.Database.Tag
import Mpd.General.Framing
import Mpd.General.Runs

/-!
# Reading a stream with metadata

`input/icy_metadata.c` separates a stream into audio data and metadata: after every `data_size`
bytes of audio data there is one byte with the length of a block of metadata, in units of 16 bytes,
and the block. `read_from_buffer` in `input/curl.c` reads from a received buffer. It asks `icy_data`
and `icy_meta` in turn how much of it is theirs.

What is read does not depend on how the stream was cut into buffers, nor on how much is read at a
time: it is the content of the stream, and every block that is not empty is parsed once
(`reads_of_reaches`).
-/

namespace Mpd

open List Nat

namespace Icy

open Framing

/-! ### The source -/

def blockSize (x : UInt8) : ℕ :=
  x.toNat * 16

inductive IcyFault
  /-- a buffer that is not there -/
  | nullBuffer
  /-- `buffer->size > 0` -/
  | size
  /-- `buffer->consumed < buffer->size`, and `buffer->consumed == buffer->size` at the end -/
  | consumed
  /-- `length > 0` -/
  | length
  /-- `icy_defined(im)` -/
  | undefined
  /-- `im->data_rest == 0` -/
  | dataRest
  /-- `im->meta_position < im->meta_size` -/
  | metaPosition
  | running
  deriving DecidableEq, Repr

section Tag

variable [Utf8] (ignored : TagType → Bool)

def icyAddItem (tag : Tag) (type : TagType) (value : Text) : Tag :=
  let value :=
    if 2 ≤ value.length ∧ value.head? = some '\'' ∧ value.getLast? = some '\'' then
      -- strip the single quotes
      (value.drop 1).take (value.length - 2)
    else value
  if 0 < value.length then tag.addItem ignored type value else tag

def strsplit (s : Text) (delimiter : Char) : List Text :=
  if s = [] then [] else s.splitOn delimiter

def icyParseTagItem (tag : Tag) (item : Text) : Tag :=
  match strsplit item '=' with
  | name :: value :: _ =>
    if name = "StreamTitle".toList then icyAddItem ignored tag .title value else tag
  | _ => tag

def icyParseTag (p : Text) : Tag :=
  (strsplit p ';').foldl (icyParseTagItem ignored) Tag.new

/-- The tag of a block, whose string ends at the first NUL. -/
def blockTag (metaData : List UInt8) : Tag :=
  icyParseTag ignored (Text.beforeNul (metaData.map fun x => Char.ofNat x.toNat))

end Tag

/-- `struct icy_metadata`. Of the memory at `meta_data`, what has been copied to it. -/
structure IcyMetadata where
  dataSize : ℕ
  dataRest : ℕ
  metaSize : ℕ
  metaPosition : ℕ
  metaData : List UInt8
  tag : Option Tag

namespace IcyMetadata

def start (dataSize : ℕ) : IcyMetadata where
  dataSize := dataSize
  dataRest := dataSize
  metaSize := 0
  metaPosition := 0
  metaData := []
  tag := none

def icyData (im : IcyMetadata) (length : ℕ) : Except IcyFault (ℕ × IcyMetadata) :=
  if length = 0 then .error .length
  else if im.dataSize = 0 then .ok (length, im)
  else if im.dataRest = 0 then .ok (0, im)
  else if im.dataRest ≤ length then .ok (im.dataRest, { im with dataRest := 0 })
  else .ok (length, { im with dataRest := im.dataRest - length })

section

variable [Utf8] (ignored : TagType → Bool)

def copyMeta (im : IcyMetadata) (p : List UInt8) :
    Except IcyFault (ℕ × IcyMetadata × Option (List UInt8)) :=
  if im.metaPosition < im.metaSize then
    let length := min p.length (im.metaSize - im.metaPosition)
    let metaData := im.metaData.take im.metaPosition ++ p.take length
    let im := { im with metaData := metaData, metaPosition := im.metaPosition + length }
    if im.metaPosition = im.metaSize then
      -- the string is terminated and parsed, and it is back to normal data mode
      .ok (length, { im with
        tag := some (blockTag ignored metaData), metaSize := 0, dataRest := im.dataSize },
        some metaData)
    else .ok (length, im, none)
  else .error .metaPosition

def icyMeta (im : IcyMetadata) (data : List UInt8) :
    Except IcyFault (ℕ × IcyMetadata × Option (List UInt8)) :=
  if im.dataSize = 0 then .error .undefined
  else if im.dataRest ≠ 0 then .error .dataRest
  else
    match data with
    | [] => .error .length
    | x :: p =>
      if im.metaSize = 0 then
        -- read meta_size from the first byte of a meta block
        let metaSize := x.toNat * 16
        if metaSize = 0 then .ok (1, { im with metaSize := 0, dataRest := im.dataSize }, none)
        else do
          let (length, im, parsed) ←
            copyMeta ignored { im with metaSize := metaSize, metaPosition := 0, metaData := [] } p
          .ok (length + 1, im, parsed)
      else copyMeta ignored im data

end

end IcyMetadata

/-- `struct buffer`: what has been received. -/
structure Buffer where
  data : List UInt8
  consumed : ℕ

def Buffer.rest (b : Buffer) : List UInt8 :=
  b.data.drop b.consumed

def consumeBuffer (b : Buffer) (length : ℕ) : Except IcyFault (Option Buffer) :=
  if b.consumed < b.data.length then
    let b := { b with consumed := b.consumed + length }
    if b.consumed < b.data.length then .ok (some b)
    else if b.consumed = b.data.length then .ok none
    else .error .consumed
  else .error .consumed

/-- The variables of the loop of `read_from_buffer`: what is left to read, what has been read, and
what has been parsed. -/
structure Reading where
  icy : IcyMetadata
  buffer : Option Buffer
  length : ℕ
  dest : List UInt8
  parsed : List (List UInt8)

namespace Reading

def readData (r : Reading) : Except IcyFault Reading := do
  let (chunk, icy) ← r.icy.icyData r.length
  let r := { r with icy := icy }
  if 0 < chunk then
    match r.buffer with
    | none => .error .nullBuffer
    | some buffer =>
      let dest := r.dest ++ buffer.rest.take chunk
      let buffer ← consumeBuffer buffer chunk
      let length := r.length - chunk
      if length = 0 ∨ buffer.isSome then
        .ok { r with buffer := buffer, dest := dest, length := length }
      else .error .nullBuffer
  else .ok r

def readMeta [Utf8] (ignored : TagType → Bool) (r : Reading) : Except IcyFault Reading :=
  match r.buffer with
  | none => .error .nullBuffer
  | some buffer => do
    let (chunk, icy, parsed) ← r.icy.icyMeta ignored (buffer.rest.take r.length)
    let r := { r with icy := icy, parsed := r.parsed ++ parsed.toList }
    if 0 < chunk then
      let buffer ← consumeBuffer buffer chunk
      let length := r.length - chunk
      if length = 0 ∨ buffer.isSome then .ok { r with buffer := buffer, length := length }
      else .error .nullBuffer
    else .ok r

def loop [Utf8] (ignored : TagType → Bool) : ℕ → Reading → Except IcyFault Reading
  | 0, _ => .error .running
  | rounds + 1, r => do
    let r ← r.readData
    if r.length = 0 then .ok r
    else
      let r ← r.readMeta ignored
      if r.length = 0 then .ok r else loop ignored rounds r

end Reading

def readFromBuffer [Utf8] (ignored : TagType → Bool) (rounds : ℕ) (im : IcyMetadata)
    (buffers : List Buffer) (length : ℕ) : Except IcyFault (Reading × List Buffer) :=
  match buffers with
  | [] => .error .nullBuffer
  | buffer :: buffers =>
    if buffer.data = [] then .error .size
    else if buffer.consumed < buffer.data.length then do
      let rest := buffer.data.length - buffer.consumed
      let length := if rest < length then rest else length
      let r ← Reading.loop ignored rounds ⟨im, some buffer, length, [], []⟩
      .ok (r, r.buffer.toList ++ buffers)
    else .error .consumed

/-! ### Metadata -/

def texts (p : Parse UInt8) : List (List UInt8) :=
  (p.frames.map fun g => g.block.tail).filter (!·.isEmpty)

theorem texts_append (p : Parse UInt8) (m : UInt8) (b : List UInt8) :
    texts ⟨p.frames ++ [⟨p.content, m :: b⟩], [], []⟩ =
      texts p ++ if b.isEmpty then [] else [b] := by
  rw [texts, texts, map_append, filter_append]
  cases b <;> rfl

/-- How the metadata reader is related to what has been read of the stream. -/
structure IcyMetadata.Inv [Utf8] (ignored : TagType → Bool) (n : ℕ) (im : IcyMetadata)
    (p : Parse UInt8) : Prop where
  dataSize : im.dataSize = n
  dataRest : im.dataRest + p.content.length = n
  noBlock : p.block = [] → im.metaSize = 0
  block : ∀ m b, p.block = m :: b →
    im.metaSize = blockSize m ∧ im.metaPosition = b.length ∧ im.metaData = b
  tag : im.tag = (texts p).getLast?.map (blockTag ignored)

section Metadata

variable [Utf8] {ignored : TagType → Bool} {n : ℕ} {im : IcyMetadata} {p : Parse UInt8}
  {m : UInt8} {b data l : List UInt8}

theorem IcyMetadata.copyMeta_succeeds (hdataSize : im.dataSize = n) (hdataRest : im.dataRest = 0)
    (hsize : im.metaSize = blockSize m) (hposition : im.metaPosition = b.length)
    (hdata : im.metaData = b) (htag : im.tag = (texts p).getLast?.map (blockTag ignored))
    (hlt : b.length < blockSize m) (hn : p.content.length = n) (hl : l ≠ [])
    (hread : p.block ++ l = m :: (b ++ data.take (min data.length (blockSize m - b.length)))) :
    (im.copyMeta ignored data).Succeeds fun r =>
      r.1 = min data.length (blockSize m - b.length) ∧
      r.2.1.Inv ignored n (p.feedAll blockSize n l) ∧
      texts (p.feedAll blockSize n l) = texts p ++ r.2.2.toList ∧
      (p.feedAll blockSize n l).contents = p.contents := by
  rw [copyMeta, hsize, hposition, hdata, if_pos hlt, take_length]
  dsimp only
  generalize hk : min data.length (blockSize m - b.length) = k at hread ⊢
  have hlength : (b ++ data.take k).length = b.length + k := by
    rw [length_append, length_take]
    omega
  rw [Parse.feedAll_block hn hl hread (by omega), hlength]
  split
  · -- the block is complete
    have hne : (b ++ data.take k).isEmpty = false := by
      rw [isEmpty_eq_false_iff]
      exact ne_nil_of_length_pos (by omega)
    rw [Except.succeeds_ok, texts_append, hne, Parse.contents_frame]
    refine ⟨rfl, ⟨hdataSize, hdataSize, fun _ => rfl, fun m' b' hb => ?_, ?_⟩, rfl, rfl⟩
    · cases hb
    · rw [texts_append, hne]
      simp
  · refine .ok ⟨rfl, ⟨hdataSize, ?_, fun hnil => ?_, fun m' b' hb => ?_, htag⟩, (append_nil _).symm,
      rfl⟩
    · rw [hdataRest, Nat.zero_add]
      exact hn
    · cases hnil
    · obtain ⟨rfl, rfl⟩ := cons.inj hb
      exact ⟨rfl, hlength.symm, rfl⟩

theorem IcyMetadata.Inv.icyMeta_succeeds (h : im.Inv ignored n p) (hsound : p.Sound blockSize n)
    (hpos : 0 < n) (hn : p.content.length = n) (hdata : data ≠ []) :
    (im.icyMeta ignored data).Succeeds fun r => 0 < r.1 ∧ r.1 ≤ data.length ∧
      r.2.1.Inv ignored n (p.feedAll blockSize n (data.take r.1)) ∧
      texts (p.feedAll blockSize n (data.take r.1)) = texts p ++ r.2.2.toList ∧
      (p.feedAll blockSize n (data.take r.1)).contents = p.contents := by
  have hdataRest : im.dataRest = 0 := by
    have := h.dataRest
    omega
  have hdefined : im.dataSize ≠ 0 := by
    rw [h.dataSize]
    exact hpos.ne'
  obtain ⟨x, data', rfl⟩ := exists_cons_of_ne_nil hdata
  rw [icyMeta, if_neg hdefined, if_neg (not_not.mpr hdataRest)]
  cases hblock : p.block with
  | nil =>
    dsimp only
    rw [if_pos (h.noBlock hblock)]
    split
    · next hzero =>
      -- an empty block
      have hfeed : p.feedAll blockSize n [x] = ⟨p.frames ++ [⟨p.content, [x]⟩], [], []⟩ := by
        have hsize : ([] : List UInt8).length = blockSize x := hzero.symm
        rw [Parse.feedAll_block hn (cons_ne_nil x []) (congrArg (· ++ [x]) hblock)
          (zero_le _), if_pos hsize]
      rw [Except.succeeds_ok]
      dsimp only [take_succ_cons, take_zero]
      rw [hfeed, texts_append, Parse.contents_frame]
      refine ⟨Nat.one_pos, Nat.succ_le_succ (Nat.zero_le _), ⟨h.dataSize, h.dataSize, fun _ => rfl,
        fun m' b' hb => ?_, ?_⟩, rfl, rfl⟩
      · cases hb
      · rw [texts_append, h.tag]
        simp
    · next hne =>
      have hread : p.block ++ (x :: data'.take (min data'.length (blockSize x - 0))) =
          x :: ([] ++ data'.take (min data'.length (blockSize x - ([] : List UInt8).length))) := by
        rw [hblock]
        rfl
      refine .bind (copyMeta_succeeds h.dataSize hdataRest rfl rfl rfl h.tag
        (Nat.pos_of_ne_zero hne) hn (cons_ne_nil _ _) hread) ?_
      rintro ⟨k, im', parsed⟩ ⟨rfl, hinv, htexts, hcontents⟩
      refine .ok ⟨succ_pos _, ?_, hinv, htexts, hcontents⟩
      exact succ_le_succ (min_le_left ..)
  | cons m b =>
    obtain ⟨hsize, hposition, hcopied⟩ := h.block m b hblock
    have hlt := hsound.unclosed m b hblock
    rw [if_neg (by omega)]
    have hread : p.block ++ (x :: data').take (min (x :: data').length (blockSize m - b.length)) =
        m :: (b ++ (x :: data').take (min (x :: data').length (blockSize m - b.length))) := by
      rw [hblock]
      rfl
    have hne : (x :: data').take (min (x :: data').length (blockSize m - b.length)) ≠ [] := by
      refine ne_nil_of_length_pos ?_
      rw [length_take, length_cons]
      omega
    refine (copyMeta_succeeds h.dataSize hdataRest hsize hposition hcopied h.tag hlt hn hne
      hread).mono ?_
    rintro ⟨k, im', parsed⟩ ⟨rfl, hinv, htexts, hcontents⟩
    refine ⟨?_, min_le_left .., hinv, htexts, hcontents⟩
    rw [length_cons]
    omega

end Metadata

/-! ### Reading from a buffer -/

def Reading.pending (r : Reading) : List UInt8 :=
  (r.buffer.map Buffer.rest).getD []

/-- What holds in the loop, where `contents` and `parsed` were read before. -/
structure Reading.Inv [Utf8] (ignored : TagType → Bool) (n : ℕ) (contents : List UInt8)
    (parsed : List (List UInt8)) (r : Reading) (p : Parse UInt8) : Prop where
  icy : r.icy.Inv ignored n p
  contents : p.contents = contents ++ r.dest
  texts : texts p = parsed ++ r.parsed
  buffer : ∀ b ∈ r.buffer, b.consumed < b.data.length
  length : r.length ≤ r.pending.length

/-- A part of the buffer has been read. -/
structure Reading.Reads (r : Reading) (k : ℕ) (r' : Reading) : Prop where
  pending : r'.pending = r.pending.drop k
  length : r'.length + k = r.length

theorem Reading.Reads.trans {r r' r'' : Reading} {k k' : ℕ} (h : r.Reads k r')
    (h' : r'.Reads k' r'') : r.Reads (k + k') r'' where
  pending := by rw [h'.pending, h.pending, drop_drop]
  length := by rw [← h.length, ← h'.length]; omega

section Reading

variable {n k : ℕ} {p : Parse UInt8} {b : Buffer} {r : Reading} {contents : List UInt8}
  {parsed : List (List UInt8)}

theorem consumeBuffer_succeeds (hb : b.consumed < b.data.length) (hk : k ≤ b.rest.length) :
    (consumeBuffer b k).Succeeds fun b' => (∀ b₁ ∈ b', b₁.consumed < b₁.data.length) ∧
      (b'.map Buffer.rest).getD [] = b.rest.drop k ∧ (k < b.rest.length → b'.isSome) := by
  rw [Buffer.rest, length_drop] at hk
  rw [consumeBuffer, if_pos hb, Buffer.rest, length_drop, drop_drop]
  dsimp only
  split
  · next hlt =>
    refine .ok ⟨?_, rfl, fun _ => rfl⟩
    rintro _ ⟨⟩
    exact hlt
  · next hnot =>
    rw [if_pos (by omega)]
    refine .ok ⟨?_, ?_, fun hlt => ?_⟩
    · rintro _ ⟨⟩
    · exact (drop_eq_nil_of_le (by omega)).symm
    · omega

theorem IcyMetadata.icyData_eq {im : IcyMetadata} {length : ℕ} (hlength : 0 < length)
    (hdefined : 0 < im.dataSize) :
    im.icyData length = .ok (min length im.dataRest,
      { im with dataRest := im.dataRest - min length im.dataRest }) := by
  rw [icyData, if_neg hlength.ne', if_neg hdefined.ne']
  split
  · next hzero =>
    rw [hzero, Nat.min_zero, Nat.sub_zero, ← hzero]
  · split
    · next hle => rw [Nat.min_eq_right hle, Nat.sub_self]
    · next hlt => rw [Nat.min_eq_left (Nat.le_of_not_le hlt)]

variable [Utf8] {ignored : TagType → Bool}

theorem Reading.Inv.exists_buffer (h : r.Inv ignored n contents parsed p) (hlength : 0 < r.length) :
    ∃ b, r.buffer = some b ∧ r.pending = b.rest := by
  have hle := h.length
  rw [pending] at hle ⊢
  cases hbuffer : r.buffer with
  | none =>
    rw [hbuffer] at hle
    exact absurd hlength hle.not_gt
  | some b => exact ⟨b, rfl, rfl⟩

/-- What both readers do with the part of the buffer that was theirs. -/
theorem Reading.Inv.consume_succeeds (h : r.Inv ignored n contents parsed p)
    (hbuffer : r.buffer = some b) (hk : k ≤ r.length) {f : Option Buffer → Reading}
    (hf : ∀ b', (f b').buffer = b' ∧ (f b').length = r.length - k) :
    (consumeBuffer b k >>= fun b' => if r.length - k = 0 ∨ b'.isSome then .ok (f b')
      else .error .nullBuffer).Succeeds fun r' => r.Reads k r' ∧ (∃ b', r' = f b') ∧
        (∀ b' ∈ r'.buffer, b'.consumed < b'.data.length) ∧ r'.length ≤ r'.pending.length := by
  have hpending : r.pending = b.rest := by
    rw [pending, hbuffer]
    rfl
  have hle := hpending ▸ h.length
  refine (consumeBuffer_succeeds (h.buffer b hbuffer) (hk.trans hle)).bind fun b' hb' => ?_
  obtain ⟨hconsumed, hrest, hsome⟩ := hb'
  have hok : r.length - k = 0 ∨ b'.isSome = true := by
    by_cases hzero : r.length - k = 0
    · exact .inl hzero
    · exact .inr (hsome (by omega))
  have hpending' : (f b').pending = r.pending.drop k := by
    rw [pending, (hf b').1, hpending, hrest]
  rw [if_pos hok]
  refine .ok ⟨⟨hpending', ?_⟩, ⟨b', rfl⟩, (hf b').1.symm ▸ hconsumed, ?_⟩
  · rw [(hf b').2]
    omega
  · rw [(hf b').2, hpending', length_drop, hpending]
    omega

theorem Reading.Inv.readData_succeeds (h : r.Inv ignored n contents parsed p)
    (hsound : p.Sound blockSize n) (hpos : 0 < n) (hlength : 0 < r.length) :
    r.readData.Succeeds fun r' => ∃ k, r.Reads k r' ∧
      r'.Inv ignored n contents parsed (p.feedAll blockSize n (r.pending.take k)) ∧
      (0 < r'.length → (p.feedAll blockSize n (r.pending.take k)).content.length = n) := by
  have hdataRest := h.icy.dataRest
  have hle := h.length
  rw [readData, IcyMetadata.icyData_eq hlength (h.icy.dataSize ▸ hpos), Except.ok_bind]
  dsimp only
  generalize hk : min r.length r.icy.dataRest = k
  split
  · next hkpos =>
    -- content is read, so no block has begun
    have hblock : p.block = [] := by
      by_contra hblock
      have := hsound.block hblock
      omega
    have htake : (r.pending.take k).length = k := by
      rw [length_take]
      omega
    have hfeed : p.feedAll blockSize n (r.pending.take k) =
        { p with content := p.content ++ r.pending.take k } :=
      Parse.feedAll_content hblock (by omega)
    obtain ⟨b, hbuffer, hpending⟩ := h.exists_buffer hlength
    rw [hbuffer]
    refine (h.consume_succeeds hbuffer (by omega) fun _ => ⟨rfl, rfl⟩).mono ?_
    rintro _ ⟨hreads, ⟨b', rfl⟩, hvalid, hlength'⟩
    refine ⟨k, hreads, ?_⟩
    rw [hfeed]
    refine ⟨⟨⟨h.icy.dataSize, ?_, h.icy.noBlock, h.icy.block, h.icy.tag⟩, ?_, h.texts, hvalid,
      hlength'⟩, fun hmore => ?_⟩
    · dsimp only
      rw [length_append, htake]
      omega
    · dsimp only
      rw [Parse.contents_content, h.contents, append_assoc, hpending]
    · dsimp only at hmore ⊢
      rw [length_append, htake]
      omega
  · next hzero =>
    rw [Except.succeeds_ok]
    refine ⟨0, ⟨rfl, rfl⟩, ⟨⟨h.icy.dataSize, ?_, h.icy.noBlock, h.icy.block, h.icy.tag⟩, h.contents,
      h.texts, h.buffer, h.length⟩, fun _ => ?_⟩
    · rw [take_zero, Parse.feedAll_nil]
      dsimp only
      omega
    · rw [take_zero, Parse.feedAll_nil]
      omega

section

variable (h : r.Inv ignored n contents parsed p) (hsound : p.Sound blockSize n) (hpos : 0 < n)
  (hlength : 0 < r.length)
include h hsound hpos hlength

theorem Reading.Inv.readMeta_succeeds (hn : p.content.length = n) :
    (r.readMeta ignored).Succeeds fun r' => ∃ k, 0 < k ∧ r.Reads k r' ∧
      r'.Inv ignored n contents parsed (p.feedAll blockSize n (r.pending.take k)) := by
  have hle := h.length
  obtain ⟨b, hbuffer, hpending⟩ := h.exists_buffer hlength
  rw [readMeta, hbuffer, hpending]
  rw [hpending] at hle
  have hdata : (b.rest.take r.length).length = r.length := by
    rw [length_take]
    omega
  have hne : b.rest.take r.length ≠ [] :=
    ne_nil_of_length_pos (by rw [hdata]; exact hlength)
  refine (h.icy.icyMeta_succeeds hsound hpos hn hne).bind ?_
  rintro ⟨k, icy, parsed'⟩ ⟨hkpos, hkle, hicy, htexts, hcontents⟩
  dsimp only at hkpos hkle hicy htexts hcontents ⊢
  rw [hdata] at hkle
  rw [take_take, min_eq_left hkle] at hicy htexts hcontents
  rw [if_pos hkpos]
  refine (h.consume_succeeds hbuffer hkle fun _ => ⟨rfl, rfl⟩).mono ?_
  rintro _ ⟨hreads, ⟨b', rfl⟩, hvalid, hlength'⟩
  refine ⟨k, hkpos, hreads, hicy, ?_, ?_, hvalid, hlength'⟩
  · rw [hcontents]
    exact h.contents
  · rw [htexts, h.texts, append_assoc]

/-- **The loop reads the whole length**, in at most as many rounds as there are bytes. -/
theorem Reading.Inv.loop_succeeds {rounds : ℕ} (hrounds : r.length ≤ rounds) :
    (r.loop ignored rounds).Succeeds fun r' => r.Reads r.length r' ∧
      r'.Inv ignored n contents parsed (p.feedAll blockSize n (r.pending.take r.length)) := by
  induction rounds generalizing r p with
  | zero => omega
  | succ rounds ih =>
    refine (h.readData_succeeds hsound hpos hlength).bind ?_
    rintro r₁ ⟨k₁, hreads₁, hinv₁, hn⟩
    have hlength₁ := hreads₁.length
    split
    · next hzero =>
      obtain rfl : k₁ = r.length := by omega
      exact .ok ⟨hreads₁, hinv₁⟩
    · next hmore =>
      have hsound₁ := hsound.feedAll (r.pending.take k₁)
      have hmore : 0 < r₁.length := Nat.pos_of_ne_zero hmore
      refine (hinv₁.readMeta_succeeds hsound₁ hpos hmore (hn hmore)).bind ?_
      rintro r₂ ⟨k₂, hkpos, hreads₂, hinv₂⟩
      have hlength₂ := hreads₂.length
      have hreads := hreads₁.trans hreads₂
      rw [← Parse.feedAll_append, hreads₁.pending, ← take_add] at hinv₂
      split
      · next hzero =>
        obtain heq : k₁ + k₂ = r.length := by omega
        rw [heq] at hreads hinv₂
        exact .ok ⟨hreads, hinv₂⟩
      · next hmore₂ =>
        refine (ih hinv₂ (hsound.feedAll _) (Nat.pos_of_ne_zero hmore₂) (by omega)).mono ?_
        rintro r₃ ⟨hreads₃, hinv₃⟩
        have heq : k₁ + k₂ + r₂.length = r.length := by omega
        have hall := hreads.trans hreads₃
        rw [← Parse.feedAll_append, hreads.pending, ← take_add, heq] at hinv₃
        rw [heq] at hall
        exact ⟨hall, hinv₃⟩

end

/-- **`read_from_buffer` reads on in the stream**, at least one byte. -/
theorem readFromBuffer_succeeds {im : IcyMetadata} (h : im.Inv ignored n p)
    (hsound : p.Sound blockSize n) (hpos : 0 < n) (hb : b.consumed < b.data.length)
    (buffers : List Buffer) {length : ℕ} (hlength : 0 < length) {rounds : ℕ}
    (hrounds : length ≤ rounds) :
    (readFromBuffer ignored rounds im (b :: buffers) length).Succeeds fun r =>
      ∃ k, 0 < k ∧ k ≤ b.rest.length ∧
        r.1.Inv ignored n p.contents (texts p) (p.feedAll blockSize n (b.rest.take k)) ∧
        ∃ rest : Option Buffer, r.2 = rest.toList ++ buffers ∧
          (∀ b' ∈ rest, b'.consumed < b'.data.length) ∧
          (rest.map Buffer.rest).getD [] = b.rest.drop k := by
  have hdata : b.data ≠ [] := by
    intro hnil
    rw [hnil] at hb
    exact not_lt_zero _ hb
  have hrest : b.rest.length = b.data.length - b.consumed := length_drop
  rw [readFromBuffer, if_neg hdata, if_pos hb]
  dsimp only
  generalize hk : (if b.data.length - b.consumed < length then b.data.length - b.consumed
    else length) = k
  have hbounds : 0 < k ∧ k ≤ b.rest.length ∧ k ≤ length := by
    split at hk <;> omega
  have hinv : Reading.Inv ignored n p.contents (texts p) ⟨im, some b, k, [], []⟩ p := by
    refine ⟨h, (append_nil _).symm, (append_nil _).symm, ?_, hbounds.2.1⟩
    rintro _ ⟨⟩
    exact hb
  refine (hinv.loop_succeeds hsound hpos hbounds.1 (hbounds.2.2.trans hrounds)).bind ?_
  rintro r ⟨hreads, hinv'⟩
  exact .ok ⟨k, hbounds.1, hbounds.2.1, hinv', r.buffer, rfl, hinv'.buffer, hreads.pending⟩

end Reading

/-! ### Runs -/

/-- A stream with what has been received, read and parsed. -/
structure Stream where
  icy : IcyMetadata
  buffers : List Buffer
  received : List UInt8
  results : List UInt8
  parsed : List (List UInt8)

namespace Stream

def start (n : ℕ) : Stream where
  icy := .start n
  buffers := []
  received := []
  results := []
  parsed := []

def pending (s : Stream) : List UInt8 :=
  s.buffers.flatMap Buffer.rest

end Stream

/-- What happens to the stream. -/
inductive Operation
  /-- a buffer is received -/
  | receive (data : List UInt8)
  | read (size : ℕ)

namespace Operation

/-- Buffers are not empty, and nothing is read from none. -/
def Allowed : Operation → Stream → Prop
  | receive data, _ => data ≠ []
  | read size, s => 0 < size ∧ s.buffers ≠ []

section Runs

variable [Utf8] {ignored : TagType → Bool}

def run (ignored : TagType → Bool) : Operation → Stream → Except IcyFault Stream
  | receive data, s =>
    .ok { s with buffers := s.buffers ++ [⟨data, 0⟩], received := s.received ++ data }
  | read size, s => do
    let (r, buffers) ← readFromBuffer ignored size s.icy s.buffers size
    .ok { s with
      icy := r.icy
      buffers := buffers
      results := s.results ++ r.dest
      parsed := s.parsed ++ r.parsed }

end Runs

end Operation

/-- What holds between operations: `consumed` has been read of the stream. -/
structure Stream.Inv [Utf8] (ignored : TagType → Bool) (n : ℕ) (s : Stream)
    (consumed : List UInt8) : Prop where
  icy : s.icy.Inv ignored n (Parse.start.feedAll blockSize n consumed)
  received : s.received = consumed ++ s.pending
  buffers : ∀ b ∈ s.buffers, b.consumed < b.data.length
  results : s.results = (Parse.start.feedAll blockSize n consumed).contents
  parsed : s.parsed = texts (Parse.start.feedAll blockSize n consumed)

section Runs

variable [Utf8] {ignored : TagType → Bool} {n : ℕ} {s : Stream} {consumed : List UInt8}

theorem Stream.Inv.readFromBuffer_succeeds (h : s.Inv ignored n consumed) (hpos : 0 < n) {size : ℕ}
    (hsize : 0 < size) (hbuffers : s.buffers ≠ []) {rounds : ℕ} (hrounds : size ≤ rounds) :
    (readFromBuffer ignored rounds s.icy s.buffers size).Succeeds fun r =>
      ∃ k, 0 < k ∧ k ≤ s.pending.length ∧ Stream.Inv ignored n { s with
        icy := r.1.icy
        buffers := r.2
        results := s.results ++ r.1.dest
        parsed := s.parsed ++ r.1.parsed } (consumed ++ s.pending.take k) := by
  obtain ⟨b, buffers, hb⟩ := exists_cons_of_ne_nil hbuffers
  have hvalid := h.buffers
  rw [hb, forall_mem_cons] at hvalid
  have hpending : s.pending = b.rest ++ buffers.flatMap Buffer.rest := by
    rw [Stream.pending, hb, flatMap_cons]
  rw [hb]
  refine (Icy.readFromBuffer_succeeds h.icy (Parse.sound_start.feedAll consumed) hpos hvalid.1
    buffers hsize hrounds).mono ?_
  rintro ⟨r, buffers'⟩ ⟨k, hkpos, hkle, hinv, rest, hbuffers', hrest, hdrop⟩
  have htake : s.pending.take k = b.rest.take k := by
    rw [hpending, take_append_of_le_length hkle]
  have hkle' : k ≤ s.pending.length := by
    rw [hpending, length_append]
    omega
  refine ⟨k, hkpos, hkle', ?_⟩
  rw [← Parse.feedAll_append, ← htake] at hinv
  refine ⟨hinv.icy, ?_, ?_, ?_, ?_⟩
  · have hflat : (rest.toList).flatMap Buffer.rest = b.rest.drop k := by
      rw [← hdrop]
      cases rest with
      | none => rfl
      | some b' => exact append_nil _
    have hafter : buffers'.flatMap Buffer.rest = s.pending.drop k := by
      obtain rfl : buffers' = rest.toList ++ buffers := hbuffers'
      rw [flatMap_append, hflat, hpending, drop_append_of_le_length hkle]
    show s.received = consumed ++ s.pending.take k ++ buffers'.flatMap Buffer.rest
    rw [hafter, append_assoc, take_append_drop]
    exact h.received
  · intro b' hb'
    obtain rfl : buffers' = rest.toList ++ buffers := hbuffers'
    obtain hmem | hmem := mem_append.mp hb'
    · exact hrest b' (Option.mem_toList.mp hmem)
    · exact hvalid.2 b' hmem
  · rw [hinv.contents, ← h.results]
  · rw [hinv.texts, ← h.parsed]

theorem Operation.run_yields (h : s.Inv ignored n consumed) (hpos : 0 < n) {op : Operation}
    (hallowed : op.Allowed s) :
    (op.run ignored s).Yields fun s' => ∃ consumed', s'.Inv ignored n consumed' := by
  cases op with
  | receive data =>
    refine .ok ⟨consumed, h.icy, ?_, ?_, h.results, h.parsed⟩
    · rw [Stream.pending]
      rw [flatMap_append, flatMap_singleton, h.received, append_assoc]
      rfl
    · intro b hb
      obtain hmem | hmem := mem_append.mp hb
      · exact h.buffers b hmem
      · obtain rfl := mem_singleton.mp hmem
        exact length_pos_iff.mpr hallowed
  | read size =>
    refine (h.readFromBuffer_succeeds hpos hallowed.1 hallowed.2 le_rfl).yields.bind ?_
    rintro r ⟨k, -, -, hinv⟩
    exact .ok ⟨_, hinv⟩

/-- **Run.** The stream has been read up to some point. -/
theorem Stream.inv_of_reaches (hpos : 0 < n)
    (h : Reaches (Operation.run ignored) Operation.Allowed (Stream.start n) s) :
    ∃ consumed, s.Inv ignored n consumed := by
  have hstart : (Stream.start n).Inv ignored n [] := by
    refine ⟨⟨rfl, rfl, fun _ => rfl, fun m b hb => ?_, rfl⟩, rfl, ?_, rfl, rfl⟩
    · cases hb
    · exact fun b hb => absurd hb not_mem_nil
  refine h.invariant (I := fun t => ∃ consumed, t.Inv ignored n consumed) ⟨[], hstart⟩ ?_
  rintro op t hallowed ⟨consumed, ht⟩
  exact op.run_yields ht hpos hallowed

/-- **What is read is the content of the stream**, however it was cut into buffers and however much
is read at a time. What has been received is what has been consumed and what is left in the buffers.
If the stream is made of frames and all of it has been read, the results are the audio data of the
frames, and the blocks that are not empty have been parsed, each of them once. The tag is that of
the last one. Every read terminates and consumes at least one byte. -/
theorem reads_of_reaches (hpos : 0 < n)
    (h : Reaches (Operation.run ignored) Operation.Allowed (Stream.start n) s) :
    (∃ consumed, s.received = consumed ++ s.pending ∧
      s.results = (Parse.start.feedAll blockSize n consumed).contents ∧
      s.parsed = texts (Parse.start.feedAll blockSize n consumed)) ∧
    s.icy.tag = s.parsed.getLast?.map (blockTag ignored) ∧
    (∀ gs : List (Frame UInt8), (∀ g ∈ gs, g.Sound blockSize n) →
      s.received = gs.flatMap Frame.render → s.buffers = [] →
      s.results = gs.flatMap Frame.content ∧
      s.parsed = (gs.map fun g => g.block.tail).filter (!·.isEmpty)) ∧
    ∀ size, 0 < size → s.buffers ≠ [] → ∀ rounds, size ≤ rounds →
      (readFromBuffer ignored rounds s.icy s.buffers size).Succeeds fun r =>
        (r.2.flatMap Buffer.rest).length < s.pending.length := by
  obtain ⟨consumed, hinv⟩ := Stream.inv_of_reaches hpos h
  refine ⟨⟨consumed, hinv.received, hinv.results, hinv.parsed⟩, hinv.parsed ▸ hinv.icy.tag,
    fun gs hgs hreceived hbuffers => ?_, fun size hsize hbuffers rounds hrounds => ?_⟩
  · have hpending : s.pending = [] := by
      rw [Stream.pending, hbuffers]
      rfl
    have hconsumed : consumed = gs.flatMap Frame.render := by
      rw [← hreceived, hinv.received, hpending, append_nil]
    have hparse := Parse.feedAll_frames hgs []
    rw [← hconsumed, nil_append] at hparse
    have hresults := hinv.results
    have hparsed := hinv.parsed
    rw [Parse.start, hparse] at hresults hparsed
    exact ⟨hresults.trans (append_nil _), hparsed⟩
  · refine (hinv.readFromBuffer_succeeds hpos hsize hbuffers hrounds).mono ?_
    rintro r ⟨k, hkpos, hkle, hinv'⟩
    have hlength : (consumed ++ s.pending).length =
        (consumed ++ s.pending.take k ++ r.2.flatMap Buffer.rest).length :=
      congrArg length (hinv.received.symm.trans hinv'.received)
    rw [length_append, length_append, length_append, length_take] at hlength
    omega

end Runs

theorem reads_of_reaches_two :
    ∃ s : Stream, (s.results = [7, 8, 9, 10] ∧ s.parsed = [List.replicate 16 97]) ∧
      s.icy.tag = s.parsed.getLast?.map (blockTag fun _ => false) := by
  have hreach : Reaches (Operation.run fun _ => false) Operation.Allowed (Stream.start 2) _ :=
    .step (a := .read 20) (.step (a := .read 3) (.step (a := .read 100)
      (.step (a := .receive (1 :: (replicate 16 97 ++ [9, 10, 0])))
        (.step (a := .receive [7, 8]) .refl (cons_ne_nil _ _) rfl)
        (cons_ne_nil _ _) rfl)
      ⟨by decide, cons_ne_nil _ _⟩ rfl) ⟨by decide, cons_ne_nil _ _⟩ rfl)
      ⟨by decide, cons_ne_nil _ _⟩ rfl
  have hgs : ∀ g ∈ [(⟨[7, 8], 1 :: replicate 16 97⟩ : Frame UInt8), ⟨[9, 10], [0]⟩],
      g.Sound blockSize 2 := by
    rw [forall_mem_cons, forall_mem_singleton]
    exact ⟨⟨rfl, rfl⟩, ⟨rfl, rfl⟩⟩
  obtain ⟨-, htag, hread, -⟩ := reads_of_reaches (by decide) hreach
  exact ⟨_, hread _ hgs rfl rfl, htag⟩

end Icy

end Mpd
