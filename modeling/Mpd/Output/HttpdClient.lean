import Mathlib.Algebra.Order.Group.Nat
import Mpd.Input.Icy

/-!
# Clients of the HTTP output

`output/httpd_client.c` sends a stream to each client: pages of audio data, which the encoder makes,
and between them, if the client has asked for it, blocks of metadata. After every `metaint` bytes of
audio data there is one block: a byte with its length, in units of 16 bytes, and as many bytes.

A block is a page of its own (`client->metadata`), or the byte 0 if it has been sent already. The
socket takes as much as it can, so the client remembers two positions: that in the current page, and
that in the metadata page. `httpd_client_send_metadata` replaces the metadata page, but leaves the
position in it. If a part of the old page has been sent, the block is continued with bytes of the
new one (`not_streams_replaced`). Otherwise what is sent is the stream that it should be
(`streams_of_reaches`).
-/

namespace Mpd

open List Except

namespace Httpd

open Framing

open Icy (blockSize)

/-! ### The source -/

/-- A page of audio data. `httpd_output_read_page` does not make empty ones. -/
structure Page where
  data : List UInt8
  ne_nil : data ≠ []

/-- A page of metadata, as `icy_server_metadata_page` makes it: its length, and as many bytes. -/
structure MetadataPage where
  data : List UInt8
  closed : closed blockSize data = true

inductive HttpdFault
  /-- `client->state == RESPONSE`, or the contrary -/
  | state
  /-- there is a page -/
  | nullPage
  /-- `position < page->size` -/
  | position
  /-- `client->current_position <= client->current_page->size` -/
  | currentPosition
  deriving DecidableEq, Repr

inductive IOStatus
  | normal | again | eof | error
  deriving DecidableEq, Repr

inductive Answer
  | takes (n : ℕ)
  | again | eof | error
  deriving DecidableEq, Repr

def Answer.write (data : List UInt8) : Answer → IOStatus × List UInt8
  | takes n => (.normal, data.take n)
  | again => (.again, [])
  | eof => (.eof, [])
  | error => (.error, [])

def writePageToChannel (page : List UInt8) (position : ℕ) (answer : Answer) :
    Except HttpdFault (IOStatus × List UInt8) :=
  if position < page.length then .ok (answer.write (page.drop position)) else .error .position

def writeNBytesToChannel (page : List UInt8) (position : ℕ) (n : Option ℕ) (answer : Answer) :
    Except HttpdFault (IOStatus × List UInt8) :=
  if position < page.length then
    match n with
    | none => writePageToChannel page position answer
    | some n => .ok (answer.write ((page.drop position).take n))
  else .error .position

/-- `struct httpd_client`. -/
structure Client where
  /-- `state == RESPONSE` -/
  responding : Bool
  /-- `write_source_id != 0` -/
  writeSource : Bool
  pages : List Page
  currentPage : Option Page
  currentPosition : ℕ
  metadataRequested : Bool
  metadataSent : Bool
  metaint : ℕ
  metadata : Option MetadataPage
  metadataCurrentPosition : ℕ
  metadataFill : ℕ

namespace Client

def new (metadataRequested : Bool) (metaint : ℕ) : Client where
  responding := false
  writeSource := false
  pages := []
  currentPage := none
  currentPosition := 0
  metadataRequested := metadataRequested
  metadataSent := true
  metaint := metaint
  metadata := none
  metadataCurrentPosition := 0
  metadataFill := 0

variable (c : Client)

def send (page : Page) : Client :=
  if !c.responding then c
  else { c with pages := c.pages ++ [page], writeSource := true }

def beginResponse (header : Option Page) : Except HttpdFault Client :=
  if c.responding then .error .state
  else
    let c := { c with responding := true, writeSource := false, pages := [], currentPage := none }
    match header with
    | none => .ok c
    | some header => .ok (c.send header)

def sendMetadata (page : MetadataPage) : Client :=
  { c with metadata := some page, metadataSent := false }

def bytesLeftTillMetadata (page : Page) : Option ℕ :=
  if c.metadataRequested ∧ c.metaint - c.metadataFill < page.data.length - c.currentPosition then
    some (c.metaint - c.metadataFill)
  else none

def takePage : Except HttpdFault (Page × Client) :=
  match c.currentPage, c.pages with
  | some page, _ => .ok (page, c)
  | none, page :: pages =>
    .ok (page, { c with currentPage := some page, currentPosition := 0, pages := pages })
  | none, [] => .error .nullPage

def writeMetadata (answer : Answer) :
    Except HttpdFault (Client × IOStatus × List UInt8) :=
  if !c.metadataSent then
    match c.metadata with
    | none => .error .nullPage
    | some metadata => do
      let (status, written) ← writePageToChannel metadata.data c.metadataCurrentPosition answer
      let position := c.metadataCurrentPosition + written.length
      if metadata.data.length = position then
        .ok ({ c with metadataFill := 0, metadataCurrentPosition := 0, metadataSent := true },
          status, written)
      else .ok ({ c with metadataCurrentPosition := position }, status, written)
  else do
    let emptyMeta : List UInt8 := [0]
    let (status, written) ← writePageToChannel emptyMeta c.metadataCurrentPosition answer
    let position := c.metadataCurrentPosition + written.length
    if emptyMeta.length = position then
      .ok ({ c with metadataFill := 0, metadataCurrentPosition := 0 }, status, written)
    else .ok ({ c with metadataCurrentPosition := position }, status, written)

def finish (page : Page) (bytesWritten : ℕ) :
    IOStatus → Except HttpdFault (Option Client)
  | .normal =>
    let c := { c with currentPosition := c.currentPosition + bytesWritten }
    if page.data.length < c.currentPosition then .error .currentPosition
    else
      let c :=
        if c.metadataRequested then { c with metadataFill := c.metadataFill + bytesWritten } else c
      if page.data.length ≤ c.currentPosition then
        if c.pages = [] then .ok (some { c with currentPage := none, writeSource := false })
        else .ok (some { c with currentPage := none })
      else .ok (some c)
  | .again => .ok (some c)
  | .eof | .error => .ok none

def outEvent (c : Client) (answer : Answer) :
    Except HttpdFault (Option Client × List UInt8) :=
  if !c.responding then .error .state
  else if !c.writeSource then .ok (some c, [])
  else do
    let (page, c) ← c.takePage
    match c.bytesLeftTillMetadata page with
    | some 0 =>
      let (c, status, written) ← c.writeMetadata answer
      let c ← c.finish page 0 status
      .ok (c, written)
    | bytesToWrite =>
      let (status, written) ← writeNBytesToChannel page.data c.currentPosition bytesToWrite answer
      let c ← c.finish page written.length status
      .ok (c, written)

end Client

/-! ### Runs -/

/-- A client with what it has been given and what it has sent. A client that is closed is gone. -/
structure Connection where
  client : Option Client
  sent : List UInt8
  /-- the pages, one after the other -/
  given : List UInt8
  titles : List MetadataPage

/-- What happens to a client. -/
inductive Event
  | beginResponse (header : Option Page)
  | send (page : Page)
  | sendMetadata (page : MetadataPage)
  | outEvent (answer : Answer)

namespace Event

def runClient (c : Client) (s : Connection) : Event → Except HttpdFault Connection
  | beginResponse header => do
    let c ← c.beginResponse header
    .ok { s with client := some c, given := s.given ++ (header.map Page.data).getD [] }
  | send page =>
    .ok { s with
      client := some (c.send page)
      given := if c.responding then s.given ++ page.data else s.given }
  | sendMetadata page =>
    .ok { s with client := some (c.sendMetadata page), titles := s.titles ++ [page] }
  | outEvent answer => do
    let (c, written) ← c.outEvent answer
    .ok { s with client := c, sent := s.sent ++ written }

def run (event : Event) (s : Connection) : Except HttpdFault Connection :=
  match s.client with
  | none => .ok s
  | some c => event.runClient c s

/-- The response begins once, before anything is sent. -/
def Allowed (event : Event) (s : Connection) : Prop :=
  ∀ c ∈ s.client,
    match event with
    | beginResponse _ => c.responding = false
    | outEvent _ => c.responding = true
    | _ => True

instance (event : Event) (s : Connection) : Decidable (event.Allowed s) :=
  match event with
  | beginResponse _ => inferInstanceAs (Decidable (∀ c ∈ s.client, c.responding = false))
  | outEvent _ => inferInstanceAs (Decidable (∀ c ∈ s.client, c.responding = true))
  | send _ => .isTrue fun _ _ => trivial
  | sendMetadata _ => .isTrue fun _ _ => trivial

/-- A new metadata page begins with what has been sent of the old one. -/
def Agrees (event : Event) (s : Connection) : Prop :=
  ∀ c ∈ s.client,
    match event with
    | sendMetadata page =>
      ∀ metadata ∈ c.metadata, page.data.take c.metadataCurrentPosition =
        metadata.data.take c.metadataCurrentPosition
    | _ => True

end Event

namespace Connection

def start (metaint : ℕ) : Connection where
  client := some (.new true metaint)
  sent := []
  given := []
  titles := []

end Connection

def Client.rest (c : Client) : List UInt8 :=
  (c.currentPage.map fun page => page.data.drop c.currentPosition).getD [] ++
    c.pages.flatMap Page.data

/-- What has been sent is a stream of frames, up to the beginning of another one. Their content are
the pages that the client has been given, and their blocks are empty, or metadata pages that it has
been given. -/
structure Connection.Streams (metaint : ℕ) (s : Connection) (p : Parse UInt8) : Prop where
  sent : p.render = s.sent
  sound : p.Sound blockSize metaint
  blocks : ∀ g ∈ p.frames, g.block = [0] ∨ ∃ title ∈ s.titles, g.block = title.data
  block : p.block ≠ [] → ∃ title ∈ s.titles, p.block <+: title.data
  contents : ∀ c ∈ s.client, p.contents ++ c.rest = s.given
  idle : ∀ c ∈ s.client, c.writeSource = false → p.contents = s.given
  closed : p.contents <+: s.given

/-! ### The client and its stream -/

/-- How a client is related to what it has sent. -/
structure Client.Inv (metaint : ℕ) (titles : List MetadataPage) (p : Parse UInt8) (c : Client) :
    Prop where
  requested : c.metadataRequested = true
  metaint : c.metaint = metaint
  fill : c.metadataFill = p.content.length
  sent : c.metadataSent = true → c.metadataCurrentPosition = 0 ∧ p.block = []
  unsent : c.metadataSent = false → ∃ title ∈ titles, c.metadata = some title ∧
    p.block = title.data.take c.metadataCurrentPosition ∧
    c.metadataCurrentPosition < title.data.length
  page : ∀ page ∈ c.currentPage, c.currentPosition < page.data.length
  source : c.writeSource = true ↔ c.currentPage ≠ none ∨ c.pages ≠ []
  idle : c.responding = false → c.currentPage = none ∧ c.pages = []

/-- Blocks that are there are empty, or come from the given pages. -/
structure Blocks (titles : List MetadataPage) (p : Parse UInt8) : Prop where
  blocks : ∀ g ∈ p.frames, g.block = [0] ∨ ∃ title ∈ titles, g.block = title.data
  block : p.block ≠ [] → ∃ title ∈ titles, p.block <+: title.data

section Steps

variable {metaint : ℕ} {titles : List MetadataPage} {p : Parse UInt8} {c : Client} {page : Page}
  {answer : Answer}

theorem Answer.write_prefix (data : List UInt8) (answer : Answer) :
    (answer.write data).2 <+: data := by
  cases answer with
  | takes n => exact take_prefix n data
  | _ => exact nil_prefix

theorem Answer.write_eq_nil {data : List UInt8} (h : (answer.write data).1 ≠ .normal) :
    (answer.write data).2 = [] := by
  cases answer with
  | takes n => exact absurd rfl h
  | _ => rfl

namespace Client

theorem rest_of_currentPage (h : c.currentPage = some page) :
    c.rest = page.data.drop c.currentPosition ++ c.pages.flatMap Page.data := by
  rw [rest, h]
  rfl

theorem Inv.takePage_succeeds (h : c.Inv metaint titles p) (hsource : c.writeSource = true)
    (hresponding : c.responding = true) :
    c.takePage.Succeeds fun r => r.2.Inv metaint titles p ∧ r.2.currentPage = some r.1 ∧
      r.2.rest = c.rest ∧ r.2.writeSource = true ∧ r.2.responding = true := by
  rw [takePage]
  split
  · next page hpage => exact .ok ⟨h, hpage, rfl, hsource, hresponding⟩
  · next page pages hpage hpages =>
    refine .ok ⟨⟨h.requested, h.metaint, h.fill, h.sent, h.unsent, ?_, ?_, ?_⟩, rfl, ?_, hsource,
      hresponding⟩
    · intro page' hpage'
      obtain rfl := Option.some.inj hpage'
      exact length_pos_iff.mpr page.ne_nil
    · exact iff_of_true hsource (.inl (Option.some_ne_none page))
    · exact fun hidle => absurd (hresponding.symm.trans hidle) Bool.false_ne_true.symm
    · rw [rest_of_currentPage rfl, rest, hpage, hpages]
      rfl
  · next hpage hpages =>
    obtain hne | hne := h.source.mp hsource
    · exact absurd hpage hne
    · exact absurd hpages hne

theorem block_written {block : List UInt8} (hblock : closed blockSize block = true)
    (hn : p.content.length = metaint) {position : ℕ} (hp : p.block = block.take position)
    (hposition : position < block.length) {written : List UInt8}
    (hwritten : written <+: block.drop position) :
    (p.feedAll blockSize metaint written).contents = p.contents ∧
    (block.length = position + written.length →
      p.feedAll blockSize metaint written = ⟨p.frames ++ [⟨p.content, block⟩], [], []⟩) ∧
    (block.length ≠ position + written.length →
      position + written.length < block.length ∧ p.feedAll blockSize metaint written =
        { p with block := block.take (position + written.length) }) := by
  have hlength := hwritten.length_le
  rw [length_drop] at hlength
  rw [Parse.feedAll_block_drop hn hblock hp hposition hwritten]
  by_cases hend : block.length = position + written.length
  · rw [if_pos hend]
    exact ⟨Parse.contents_frame .., fun _ => rfl, fun hne => absurd hend hne⟩
  · rw [if_neg hend]
    exact ⟨rfl, fun heq => absurd heq hend, fun _ => ⟨by omega, rfl⟩⟩

end Client

theorem Blocks.append {content block : List UInt8} (h : Blocks titles p)
    (hblock : block = [0] ∨ ∃ title ∈ titles, block = title.data) :
    Blocks titles ⟨p.frames ++ [⟨content, block⟩], [], []⟩ where
  blocks g hg := by
    obtain hg | hg := mem_append.mp hg
    · exact h.blocks g hg
    · obtain rfl := mem_singleton.mp hg
      exact hblock
  block hne := absurd rfl hne

namespace Client

section

variable (h : c.Inv metaint titles p)
include h

theorem Inv.writeMetadata_succeeds (hblocks : Blocks titles p)
    (hn : p.content.length = metaint) (answer : Answer) :
    (c.writeMetadata answer).Succeeds fun r =>
      r.1.Inv metaint titles (p.feedAll blockSize metaint r.2.2) ∧
      Blocks titles (p.feedAll blockSize metaint r.2.2) ∧
      (p.feedAll blockSize metaint r.2.2).contents = p.contents ∧
      r.1.currentPage = c.currentPage ∧ r.1.rest = c.rest := by
  rw [writeMetadata]
  cases hsent : c.metadataSent with
  | false =>
    obtain ⟨title, htitle, hmetadata, hblock, hposition⟩ := h.unsent hsent
    rw [Bool.not_false, if_pos rfl, hmetadata]
    dsimp only
    rw [writePageToChannel, if_pos hposition, ok_bind]
    obtain ⟨hcontents, hend, hmore⟩ := block_written title.closed hn hblock hposition
      (answer.write_prefix _)
    split
    · next heq =>
      rw [succeeds_ok]
      rw [hend heq]
      rw [hend heq] at hcontents
      exact ⟨⟨h.requested, h.metaint, rfl, fun _ => ⟨rfl, rfl⟩, fun hne => (by cases hne), h.page,
        h.source, h.idle⟩, hblocks.append (.inr ⟨title, htitle, rfl⟩), hcontents, rfl, rfl⟩
    · next hne =>
      rw [succeeds_ok]
      rw [(hmore hne).2]
      refine ⟨⟨h.requested, h.metaint, h.fill, fun hsent' => ?_, fun _ => ?_, h.page,
        h.source, h.idle⟩, ⟨hblocks.blocks, fun _ => ?_⟩, rfl, rfl, rfl⟩
      · cases hsent'
      · exact ⟨title, htitle, rfl, rfl, (hmore hne).1⟩
      · exact ⟨title, htitle, take_prefix ..⟩
  | true =>
    obtain ⟨hposition, hblock⟩ := h.sent hsent
    rw [Bool.not_true, if_neg Bool.false_ne_true]
    dsimp only
    rw [hposition, writePageToChannel, if_pos (by decide), ok_bind]
    have hzero : closed blockSize [0] = true := rfl
    obtain ⟨hcontents, hend, hmore⟩ := block_written hzero hn (hblock.trans take_zero.symm)
      (by decide) (answer.write_prefix _)
    split
    · next heq =>
      rw [succeeds_ok]
      rw [hend heq]
      rw [hend heq] at hcontents
      exact ⟨⟨h.requested, h.metaint, rfl, fun _ => ⟨rfl, rfl⟩, fun hne => (by cases hne), h.page,
        h.source, h.idle⟩, hblocks.append (.inl rfl), hcontents, rfl, rfl⟩
    · next hne =>
      -- the byte has not been sent
      have hnil : (answer.write (drop 0 [0])).2 = [] := by
        have hlt := (hmore hne).1
        rw [length_singleton] at hlt
        exact eq_nil_of_length_eq_zero (by omega)
      rw [succeeds_ok]
      rw [hnil, Parse.feedAll_nil]
      exact ⟨⟨h.requested, h.metaint, h.fill, fun _ => ⟨rfl, hblock⟩, fun hne => (by cases hne),
        h.page, h.source, h.idle⟩, hblocks, rfl, rfl, rfl⟩

theorem Inv.finish_of_lt {n : ℕ} (hlt : c.currentPosition + n < page.data.length) :
    c.finish page n .normal = .ok (some { c with
      currentPosition := c.currentPosition + n, metadataFill := c.metadataFill + n }) := by
  rw [finish]
  rw [if_neg hlt.not_gt, if_pos h.requested, if_neg hlt.not_ge]

theorem Inv.finish_of_eq (hsource : c.writeSource = true) {n : ℕ}
    (heq : c.currentPosition + n = page.data.length) :
    c.finish page n .normal = .ok (some { c with
      currentPosition := c.currentPosition + n
      metadataFill := c.metadataFill + n
      currentPage := none
      writeSource := !c.pages.isEmpty }) := by
  rw [finish]
  rw [if_neg heq.le.not_gt, if_pos h.requested, if_pos heq.ge]
  cases hpages : c.pages with
  | nil => rfl
  | cons page pages =>
    rw [if_neg (cons_ne_nil page pages), hsource]
    rfl

theorem Inv.finish_metadata (hpage : c.currentPage = some page)
    (status : IOStatus) : (c.finish page 0 status).Succeeds fun r => ∀ c' ∈ r, c' = c := by
  have hposition := h.page page hpage
  cases status with
  | normal =>
    rw [h.finish_of_lt hposition, succeeds_ok]
    rintro _ ⟨⟩
    rfl
  | again =>
    rw [finish, succeeds_ok]
    rintro _ ⟨⟩
    rfl
  | _ =>
    rw [finish, succeeds_ok]
    rintro _ ⟨⟩

theorem Inv.finish_audio (hpage : c.currentPage = some page)
    (hsource : c.writeSource = true) {written : List UInt8} {status : IOStatus}
    (hwritten : written <+: page.data.drop c.currentPosition)
    (hstatus : status ≠ .normal → written = []) :
    (c.finish page written.length status).Succeeds fun r => ∀ c' ∈ r,
      c'.Inv metaint titles { p with content := p.content ++ written } ∧
        written ++ c'.rest = c.rest := by
  have hlength := hwritten.length_le
  have hdrop : written ++ page.data.drop (c.currentPosition + written.length) =
      page.data.drop c.currentPosition := by
    obtain ⟨l, hl⟩ := hwritten
    rw [← drop_drop, ← hl, drop_left]
  have hposition := h.page page hpage
  have hfill : c.metadataFill + written.length = (p.content ++ written).length := by
    rw [h.fill, length_append]
  rw [length_drop] at hlength
  cases status with
  | normal =>
    obtain hlt | heq := Nat.lt_or_eq_of_le
      (show c.currentPosition + written.length ≤ page.data.length by omega)
    · rw [h.finish_of_lt hlt, succeeds_ok]
      rintro _ ⟨⟩
      refine ⟨⟨h.requested, h.metaint, hfill, h.sent, h.unsent, ?_, h.source, h.idle⟩, ?_⟩
      · intro page' hpage'
        obtain rfl := Option.some.inj (hpage.symm.trans hpage')
        exact hlt
      · simp only [rest, hpage, Option.map_some, Option.getD_some, ← append_assoc, hdrop]
    · rw [h.finish_of_eq hsource heq, succeeds_ok]
      rintro _ ⟨⟩
      refine ⟨⟨h.requested, h.metaint, hfill, h.sent, h.unsent, ?_, ?_, ?_⟩, ?_⟩
      · rintro _ ⟨⟩
      · simp
      · exact fun hidle => ⟨rfl, (h.idle hidle).2⟩
      · rw [heq, drop_length, append_nil] at hdrop
        rw [rest_of_currentPage hpage, hdrop]
        rfl
  | again =>
    rw [finish, succeeds_ok, hstatus (by decide), append_nil]
    rintro _ ⟨⟩
    exact ⟨h, nil_append _⟩
  | _ =>
    rw [finish, succeeds_ok]
    rintro _ ⟨⟩

theorem Inv.writeAudio_succeeds (hsound : p.Sound blockSize metaint)
    (hpage : c.currentPage = some page) (hleft : c.bytesLeftTillMetadata page ≠ some 0)
    (answer : Answer) :
    (writeNBytesToChannel page.data c.currentPosition (c.bytesLeftTillMetadata page)
      answer).Succeeds fun r => r.2 <+: page.data.drop c.currentPosition ∧
        (r.1 ≠ .normal → r.2 = []) ∧ p.block = [] ∧ p.content.length + r.2.length ≤ metaint := by
  have hposition := h.page page hpage
  have hblock : p.content.length < metaint → p.block = [] := by
    intro hlt
    by_contra hne
    exact hlt.ne (hsound.block hne)
  rw [bytesLeftTillMetadata, h.metaint, h.fill] at hleft ⊢
  split at hleft
  · next hmore =>
    have hpos : 0 < metaint - p.content.length := Nat.pos_of_ne_zero fun h => hleft (h ▸ rfl)
    rw [if_pos hmore, writeNBytesToChannel, if_pos hposition, succeeds_ok]
    have hpre := answer.write_prefix
      ((page.data.drop c.currentPosition).take (metaint - p.content.length))
    have hlength := hpre.length_le.trans (length_take_le ..)
    exact ⟨hpre.trans (List.take_prefix ..), Answer.write_eq_nil, hblock (by omega), by omega⟩
  · next hless =>
    rw [if_neg hless, writeNBytesToChannel, if_pos hposition, writePageToChannel,
      if_pos hposition, succeeds_ok]
    rw [h.requested, not_and, Nat.not_lt] at hless
    have hle := hless rfl
    have hpre := answer.write_prefix (page.data.drop c.currentPosition)
    have hlength := hpre.length_le
    rw [length_drop] at hlength
    exact ⟨hpre, Answer.write_eq_nil, hblock (by omega), by omega⟩

end

/-- What is sent goes on with the stream. -/
structure Sends (metaint : ℕ) (titles : List MetadataPage) (p : Parse UInt8) (c : Client)
    (r : Option Client × List UInt8) : Prop where
  blocks : Blocks titles (p.feedAll blockSize metaint r.2)
  client : ∀ c' ∈ r.1, c'.Inv metaint titles (p.feedAll blockSize metaint r.2)
  contents : ∀ c' ∈ r.1,
    (p.feedAll blockSize metaint r.2).contents ++ c'.rest = p.contents ++ c.rest
  closed : (p.feedAll blockSize metaint r.2).contents <+: p.contents ++ c.rest

/-- **Writing to the socket goes on with the stream.** -/
theorem Inv.outEvent_succeeds (h : c.Inv metaint titles p) (hsound : p.Sound blockSize metaint)
    (hblocks : Blocks titles p) (hresponding : c.responding = true) (answer : Answer) :
    (c.outEvent answer).Succeeds (c.Sends metaint titles p) := by
  rw [outEvent, hresponding, Bool.not_true, if_neg Bool.false_ne_true]
  split
  · refine .ok ⟨hblocks, ?_, ?_, prefix_append ..⟩
    · rintro _ ⟨⟩
      exact h
    · rintro _ ⟨⟩
      rfl
  · next hsource =>
    rw [Bool.not_eq_true', Bool.not_eq_false] at hsource
    refine (h.takePage_succeeds hsource hresponding).bind ?_
    rintro ⟨page, c'⟩ ⟨h', hpage, hrest, hsource', hresponding'⟩
    dsimp only at h' hpage hrest hsource' hresponding' ⊢
    split
    · next hleft =>
      have hn : p.content.length = metaint := by
        rw [bytesLeftTillMetadata, h'.metaint, h'.fill] at hleft
        have hcontent := hsound.content
        split at hleft
        · have hzero := Option.some.inj hleft
          omega
        · cases hleft
      refine (h'.writeMetadata_succeeds hblocks hn answer).bind ?_
      rintro ⟨c'', status, written⟩ ⟨h'', hblocks', hcontents, hpage', hrest'⟩
      refine (h''.finish_metadata (hpage'.trans hpage) status).bind fun r hr => ?_
      refine .ok ⟨hblocks', fun c₁ hc₁ => hr c₁ hc₁ ▸ h'', fun c₁ hc₁ => ?_, ?_⟩
      · rw [hr c₁ hc₁, hcontents, hrest', hrest]
      · rw [hcontents]
        exact prefix_append ..
    · next hleft =>
      refine (h'.writeAudio_succeeds hsound hpage hleft answer).bind ?_
      rintro ⟨status, written⟩ ⟨hpre, hstatus, hblock, hlength⟩
      refine (h'.finish_audio hpage hsource' hpre hstatus).bind fun r hr => ?_
      have hfeed : p.feedAll blockSize metaint written =
          { p with content := p.content ++ written } := Parse.feedAll_content hblock hlength
      have hcontents : (p.feedAll blockSize metaint written).contents = p.contents ++ written := by
        rw [hfeed, Parse.contents_content]
      refine .ok ⟨?_, ?_, ?_, ?_⟩
      · dsimp only
        rw [hfeed]
        exact ⟨hblocks.blocks, hblocks.block⟩
      · intro c₁ hc₁
        rw [hfeed]
        exact (hr c₁ hc₁).1
      · intro c₁ hc₁
        rw [hcontents, append_assoc, (hr c₁ hc₁).2, hrest]
      · dsimp only
        rw [hcontents, ← hrest, rest_of_currentPage hpage]
        exact (prefix_append_right_inj _).mpr (hpre.trans (prefix_append ..))

end Client

/-! ### The stream of a client -/

variable {titles' : List MetadataPage}

theorem Blocks.mono (h : Blocks titles p) (hsub : titles ⊆ titles') : Blocks titles' p where
  blocks g hg := by
    obtain hzero | ⟨title, htitle, hblock⟩ := h.blocks g hg
    · exact .inl hzero
    · exact .inr ⟨title, hsub htitle, hblock⟩
  block hne := by
    obtain ⟨title, htitle, hblock⟩ := h.block hne
    exact ⟨title, hsub htitle, hblock⟩

namespace Client

theorem Inv.rest_eq_nil (h : c.Inv metaint titles p) (hsource : c.writeSource = false) :
    c.rest = [] := by
  have hnot := h.source.not.mp (Bool.not_eq_true _ ▸ hsource)
  rw [not_or, not_not, not_not] at hnot
  rw [rest, hnot.1, hnot.2]
  rfl

theorem Inv.send (h : c.Inv metaint titles p) (page : Page) : (c.send page).Inv metaint titles p ∧
      (c.send page).rest = c.rest ++ if c.responding then page.data else [] := by
  rw [Client.send]
  cases hresponding : c.responding with
  | false =>
    rw [Bool.not_false, if_pos rfl, if_neg Bool.false_ne_true, append_nil]
    exact ⟨h, rfl⟩
  | true =>
    rw [Bool.not_true, if_neg Bool.false_ne_true, if_pos rfl]
    refine ⟨⟨h.requested, h.metaint, h.fill, h.sent, h.unsent, h.page, ?_, fun hidle => ?_⟩, ?_⟩
    · exact iff_of_true rfl (.inr (append_ne_nil_of_right_ne_nil _ (cons_ne_nil page [])))
    · cases hidle
    · simp only [rest, flatMap_append, flatMap_singleton, append_assoc]

theorem Inv.beginResponse_succeeds (h : c.Inv metaint titles p) (hresponding : c.responding = false)
    (header : Option Page) :
    (c.beginResponse header).Succeeds fun c' => c'.Inv metaint titles p ∧
      c'.rest = (header.map Page.data).getD [] := by
  have hbegun : Inv metaint titles p { c with
      responding := true, writeSource := false, pages := [], currentPage := none } := by
    refine ⟨h.requested, h.metaint, h.fill, h.sent, h.unsent, ?_, ?_, fun hidle => ?_⟩
    · rintro _ ⟨⟩
    · simp
    · cases hidle
  rw [beginResponse, hresponding, if_neg Bool.false_ne_true]
  cases header with
  | none => exact .ok ⟨hbegun, rfl⟩
  | some header => exact .ok (hbegun.send header)

theorem Inv.sendMetadata (h : c.Inv metaint titles p) (title : MetadataPage)
    (hagrees : ∀ metadata ∈ c.metadata, title.data.take c.metadataCurrentPosition =
      metadata.data.take c.metadataCurrentPosition) :
    (c.sendMetadata title).Inv metaint (titles ++ [title]) p := by
  refine ⟨h.requested, h.metaint, h.fill, fun hsent => (by cases hsent), fun _ => ?_, h.page,
    h.source, h.idle⟩
  refine ⟨title, mem_append_right _ mem_cons_self, rfl, ?_⟩
  dsimp only [Client.sendMetadata]
  have hpos : 0 < title.data.length := by
    have hclosed := title.closed
    cases hdata : title.data with
    | nil =>
      rw [hdata] at hclosed
      cases hclosed
    | cons m b => exact Nat.succ_pos _
  cases hsent : c.metadataSent with
  | true =>
    obtain ⟨hposition, hblock⟩ := h.sent hsent
    rw [hposition]
    exact ⟨hblock, hpos⟩
  | false =>
    obtain ⟨old, -, hold, hblock, hlt⟩ := h.unsent hsent
    have htake := hagrees old hold
    refine ⟨hblock.trans htake.symm, ?_⟩
    obtain hzero | hk := Nat.eq_zero_or_pos c.metadataCurrentPosition
    · exact hzero ▸ hpos
    · exact hlt.trans_eq (Parse.length_eq_of_take_eq title.closed old.closed hk htake).symm

end Client

def Connection.parse (metaint : ℕ) (s : Connection) : Parse UInt8 :=
  Parse.start.feedAll blockSize metaint s.sent

/-- What holds between events. -/
structure Connection.Inv (metaint : ℕ) (s : Connection) : Prop where
  blocks : Blocks s.titles (s.parse metaint)
  client : ∀ c ∈ s.client, c.Inv metaint s.titles (s.parse metaint)
  contents : ∀ c ∈ s.client, (s.parse metaint).contents ++ c.rest = s.given
  closed : (s.parse metaint).contents <+: s.given

variable {s : Connection}

theorem Connection.inv_start : (start metaint).Inv metaint where
  blocks := ⟨fun _ hg => absurd hg not_mem_nil, fun hne => absurd rfl hne⟩
  client := by
    rintro _ ⟨⟩
    refine ⟨rfl, rfl, rfl, fun _ => ⟨rfl, rfl⟩, fun hne => (by cases hne), ?_, ?_,
      fun _ => ⟨rfl, rfl⟩⟩
    · rintro _ ⟨⟩
    · exact iff_of_false Bool.false_ne_true (by simp [Client.new])
  contents := by
    rintro _ ⟨⟩
    rfl
  closed := nil_prefix

/-- **A step keeps the invariant.** -/
theorem Event.run_succeeds (h : s.Inv metaint) {event : Event} (hallowed : event.Allowed s)
    (hagrees : event.Agrees s) : (event.run s).Succeeds (Connection.Inv metaint) := by
  rw [run]
  split
  · exact .ok h
  · next c hc =>
    have hclient := h.client c hc
    have hcontents := h.contents c hc
    have hallowed := hallowed c hc
    have hagrees := hagrees c hc
    cases event with
    | beginResponse header =>
      obtain ⟨hpage, hpages⟩ := hclient.idle hallowed
      have hrest : c.rest = [] := by
        rw [Client.rest, hpage, hpages]
        rfl
      rw [hrest, append_nil] at hcontents
      refine (hclient.beginResponse_succeeds hallowed header).bind fun c' hc' => ?_
      refine .ok ⟨h.blocks, ?_, ?_, h.closed.trans (prefix_append ..)⟩
      · rintro _ ⟨⟩
        exact hc'.1
      · rintro _ ⟨⟩
        exact congrArg₂ (· ++ ·) hcontents hc'.2
    | send page =>
      obtain ⟨hinv, hrest⟩ := hclient.send page
      have hgiven : (if c.responding then s.given ++ page.data else s.given) =
          s.given ++ if c.responding then page.data else [] := by
        split
        · rfl
        · exact (append_nil _).symm
      rw [runClient, succeeds_ok, hgiven]
      refine ⟨h.blocks, ?_, ?_, h.closed.trans (prefix_append ..)⟩
      · rintro _ ⟨⟩
        exact hinv
      · rintro _ ⟨⟩
        rw [hrest, ← hcontents, append_assoc]
        rfl
    | sendMetadata title =>
      refine .ok ⟨h.blocks.mono (subset_append_left ..), ?_, ?_, h.closed⟩
      · rintro _ ⟨⟩
        exact hclient.sendMetadata title hagrees
      · rintro _ ⟨⟩
        exact hcontents
    | outEvent answer =>
      refine (hclient.outEvent_succeeds (Parse.sound_start.feedAll s.sent) h.blocks hallowed
        answer).bind ?_
      rintro ⟨c', written⟩ hsends
      obtain ⟨hblocks, hclient', hcontents', hclosed⟩ := hsends
      have hparse : Connection.parse metaint { s with client := c', sent := s.sent ++ written } =
          (s.parse metaint).feedAll blockSize metaint written := Parse.feedAll_append
      refine .ok ⟨?_, ?_, ?_, ?_⟩
      · rw [hparse]
        exact hblocks
      · rw [hparse]
        exact hclient'
      · rw [hparse, ← hcontents]
        exact hcontents'
      · rw [hparse, ← hcontents]
        exact hclosed

/-- **Run.** -/
theorem Connection.inv_of_reaches
    (h : Reaches Event.run (fun event s => event.Allowed s ∧ event.Agrees s)
      (Connection.start metaint) s) : s.Inv metaint :=
  h.invariant Connection.inv_start
    fun _ _ hevent ht => (Event.run_succeeds ht hevent.1 hevent.2).yields

/-- **What is sent to a client is a stream of audio data and metadata.** If metadata pages are not
replaced by others while they are being sent, then after any sequence of events, with any answers of
the socket, what has been sent is made of frames. Their content are the pages, and their blocks are
empty or metadata pages. No assertion fails. -/
theorem streams_of_reaches (h : Reaches Event.run (fun event s => event.Allowed s ∧ event.Agrees s)
      (Connection.start metaint) s) :
    (∃ p, s.Streams metaint p) ∧
      ∀ event : Event, event.Allowed s → event.Agrees s → (event.run s).Succeeds fun _ => True := by
  have hinv := Connection.inv_of_reaches h
  refine ⟨⟨s.parse metaint, ?_⟩, fun event hallowed hagrees => ?_⟩
  · refine ⟨Parse.render_feedAll, Parse.sound_start.feedAll s.sent, hinv.blocks.blocks,
      hinv.blocks.block, hinv.contents, fun c hc hsource => ?_, hinv.closed⟩
    have hcontents := hinv.contents c hc
    rw [(hinv.client c hc).rest_eq_nil hsource, append_nil] at hcontents
    exact hcontents
  · exact (Event.run_succeeds hinv hallowed hagrees).mono fun _ _ => trivial

/-- **MPD can read what MPD sends.** A `curl` input that has received what was sent, in any pieces,
and has read it, has the pages up to what the client still holds, and found the given metadata. -/
theorem read_sent [Utf8] {ignored : TagType → Bool} {r : Icy.Stream} (hpos : 0 < metaint)
    (hs : Reaches Event.run (fun event s => event.Allowed s ∧ event.Agrees s)
      (Connection.start metaint) s)
    (hr : Reaches (Icy.Operation.run ignored) Icy.Operation.Allowed (Icy.Stream.start metaint) r)
    (hreceived : r.received = s.sent) (hbuffers : r.buffers = []) :
    r.results <+: s.given ∧ (∀ c ∈ s.client, r.results ++ c.rest = s.given) ∧
      ∀ text ∈ r.parsed, ∃ title ∈ s.titles, text = title.data.tail := by
  have hinv := Connection.inv_of_reaches hs
  obtain ⟨consumed, hread⟩ := Icy.Stream.inv_of_reaches hpos hr
  obtain rfl : consumed = s.sent := by
    rw [← hreceived, hread.received, Icy.Stream.pending, hbuffers, flatMap_nil, append_nil]
  have hresults : r.results = (s.parse metaint).contents := hread.results
  rw [hresults]
  refine ⟨hinv.closed, hinv.contents, fun text htext => ?_⟩
  rw [hread.parsed, Icy.texts, mem_filter, mem_map] at htext
  obtain ⟨⟨g, hg, rfl⟩, hne⟩ := htext
  obtain hblock | ⟨title, htitle, hblock⟩ := hinv.blocks.blocks g hg
  · rw [hblock] at hne
    cases hne
  · exact ⟨title, htitle, congrArg tail hblock⟩

end Steps

/-! ### A page that is replaced -/

def silence (n : ℕ) : Page where
  data := replicate (n + 1) 0
  ne_nil := cons_ne_nil _ _

def titlePage (x length : UInt8) : MetadataPage where
  data := length :: replicate (blockSize length) x
  closed := decide_eq_true length_replicate

theorem exists_block_sent : ∃ s : Connection,
    Reaches Event.run (fun event s => event.Allowed s ∧ event.Agrees s) (Connection.start 2) s ∧
      s.sent = [0, 0, 1] ++ List.replicate 16 97 :=
  have hreach : Reaches Event.run (fun event s => event.Allowed s ∧ event.Agrees s)
      (Connection.start 2) _ :=
    .step (a := .outEvent (.takes 100)) (.step (a := .outEvent (.takes 5))
      (.step (a := .outEvent (.takes 2)) (.step (a := .beginResponse (some (silence 2)))
        (.step (a := .sendMetadata (titlePage 97 1)) .refl
          ⟨by decide, by rintro _ ⟨⟩ _ ⟨⟩⟩ rfl)
        ⟨by decide, fun _ _ => trivial⟩ rfl)
      ⟨by decide, fun _ _ => trivial⟩ rfl) ⟨by decide, fun _ _ => trivial⟩ rfl)
      ⟨by decide, fun _ _ => trivial⟩ rfl
  ⟨_, hreach, rfl⟩

theorem streams_of_reaches_block :
    ∃ s : Connection, s.sent = [0, 0, 1] ++ List.replicate 16 97 ∧ ∃ p, s.Streams 2 p := by
  obtain ⟨s, hs, hsent⟩ := exists_block_sent
  exact ⟨s, hsent, (streams_of_reaches hs).1⟩

theorem read_sent_block : ∃ (s : Connection) (r : Icy.Stream),
    r.results = [0, 0] ∧ r.parsed = [List.replicate 16 97] ∧
      r.results <+: s.given ∧ (∀ c ∈ s.client, r.results ++ c.rest = s.given) ∧
      ∀ text ∈ r.parsed, ∃ title ∈ s.titles, text = title.data.tail := by
  obtain ⟨s, hs, hsent⟩ := exists_block_sent
  have hr : Reaches (Icy.Operation.run fun _ => false) Icy.Operation.Allowed
      (Icy.Stream.start 2) _ :=
    .step (a := .read 20) (.step (a := .read 3)
      (.step (a := .receive (0 :: 0 :: 1 :: replicate 16 97)) .refl (cons_ne_nil _ _) rfl)
      ⟨by decide, cons_ne_nil _ _⟩ rfl) ⟨by decide, cons_ne_nil _ _⟩ rfl
  exact ⟨s, _, rfl, rfl, read_sent (by decide) hs hr hsent.symm rfl⟩

def clientAtBlock (metaint : ℕ) (title : MetadataPage) (position : ℕ) : Client where
  responding := true
  writeSource := true
  pages := []
  currentPage := some (silence metaint)
  currentPosition := metaint
  metadataRequested := true
  metadataSent := false
  metaint := metaint
  metadata := some title
  metadataCurrentPosition := position
  metadataFill := metaint

section Replaced

variable {metaint : ℕ} {title : MetadataPage} {position n : ℕ}

theorem outEvent_silence (hpos : 0 < metaint) : Client.outEvent { clientAtBlock metaint title 0 with
      pages := [silence metaint], currentPage := none, currentPosition := 0, metadataFill := 0 }
      (.takes metaint) =
    .ok (some (clientAtBlock metaint title 0), replicate metaint 0) := by
  obtain ⟨m, rfl⟩ := Nat.exists_eq_succ_of_ne_zero hpos.ne'
  simp [Client.outEvent, Client.takePage, Client.bytesLeftTillMetadata, writeNBytesToChannel,
    Client.finish, silence, Answer.write, clientAtBlock, ok_bind]

theorem outEvent_block (hposition : position + n < title.data.length) :
    (clientAtBlock metaint title position).outEvent (.takes n) =
    .ok (some (clientAtBlock metaint title (position + n)), (title.data.drop position).take n) := by
  have hwrite : writePageToChannel title.data position (.takes n) =
      .ok (.normal, (title.data.drop position).take n) :=
    if_pos (by omega)
  have hlength : ((title.data.drop position).take n).length = n := by
    rw [length_take, length_drop]
    omega
  simp [Client.outEvent, Client.takePage, Client.bytesLeftTillMetadata, Client.writeMetadata,
    Client.finish, silence, clientAtBlock, hwrite, hlength, hposition.ne', ok_bind]

theorem reaches_outEvent {s : Connection} {c : Client} {c' : Option Client}
    {sent given written : List UInt8} {titles : List MetadataPage} {answer : Answer}
    (h : Reaches Event.run Event.Allowed s ⟨some c, sent, given, titles⟩)
    (hresponding : c.responding = true) (hrun : c.outEvent answer = .ok (c', written)) :
    Reaches Event.run Event.Allowed s ⟨c', sent ++ written, given, titles⟩ := by
  refine h.step (a := .outEvent answer) (by rintro _ ⟨⟩; exact hresponding) ?_
  dsimp only [Event.run, Event.runClient]
  rw [hrun]
  rfl

/-- **A page that is replaced while it is being sent** is continued with the new one. -/
theorem exists_not_streams (hpos : 0 < metaint) :
    ∃ s, Reaches Event.run Event.Allowed (Connection.start metaint) s ∧
      ¬ ∃ p, s.Streams metaint p := by
  have hgiven : Reaches Event.run Event.Allowed (Connection.start metaint)
      ⟨some { clientAtBlock metaint (titlePage 97 1) 0 with
        pages := [silence metaint], currentPage := none, currentPosition := 0, metadataFill := 0 },
      [], replicate (metaint + 1) 0, [titlePage 97 1]⟩ :=
    .step (a := .send (silence metaint)) (.step (a := .sendMetadata (titlePage 97 1))
      (.step (a := .beginResponse none) .refl (by rintro _ ⟨⟩; rfl) rfl)
      (fun _ _ => trivial) rfl) (fun _ _ => trivial) rfl
  -- the audio data, and the first byte of the block
  have hblock := reaches_outEvent (reaches_outEvent hgiven rfl (outEvent_silence hpos)) rfl
    (outEvent_block (n := 1) (by decide))
  have hreplaced : Reaches Event.run Event.Allowed (Connection.start metaint)
      ⟨some (clientAtBlock metaint (titlePage 98 2) 1), replicate metaint 0 ++ [1],
      replicate (metaint + 1) 0, [titlePage 97 1, titlePage 98 2]⟩ :=
    hblock.step (a := .sendMetadata (titlePage 98 2)) (fun _ _ => trivial) rfl
  refine ⟨_, reaches_outEvent hreplaced rfl (outEvent_block (n := 16) (by decide)), ?_⟩
  rintro ⟨p, hp⟩
  -- a frame with a block that has not been given
  have hparse : p = ⟨[⟨replicate metaint 0, 1 :: replicate 16 98⟩], [], []⟩ := by
    have hsound : ∀ g ∈ [(⟨replicate metaint 0, 1 :: replicate 16 98⟩ : Frame UInt8)],
        g.Sound blockSize metaint := by
      rw [forall_mem_singleton]
      exact ⟨length_replicate, rfl⟩
    have hframe := Parse.feedAll_frames hsound []
    rw [flatMap_singleton] at hframe
    rw [← hp.sound.feedAll_render, hp.sent, append_assoc]
    exact hframe
  have hnot : ∀ title ∈ [titlePage 97 1, titlePage 98 2], 1 :: replicate 16 98 ≠ title.data := by
    decide
  have hblocks := hp.blocks
  rw [hparse, forall_mem_singleton] at hblocks
  obtain hzero | ⟨title, htitle, hblock⟩ := hblocks
  · cases hzero
  · exact hnot title htitle hblock

end Replaced

theorem not_streams_replaced :
    ∃ s, Reaches Event.run Event.Allowed (Connection.start 8192) s ∧ ¬ ∃ p, s.Streams 8192 p :=
  exists_not_streams (by decide)

end Httpd

end Mpd
