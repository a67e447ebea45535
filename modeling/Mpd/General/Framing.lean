import Mathlib.Data.List.Induction
import Mathlib.Order.Nat

/-!
# Streams with blocks between the content

A stream is a sequence of frames: `n` symbols of content, then a block, whose first symbol says how
many others belong to it (`size`). It is read one symbol at a time, so that it can be cut anywhere:
a `Parse` is what has been read of it, and `Parse.feedAll` reads on.

* Reading loses nothing (`render_feedAll`), and what has been read is made of frames, up to the
  beginning of another one (`Sound.feedAll`).
* `feedAll_content` and `feedAll_block` read a piece that does not go beyond the content, or the
  block, that is being read.
* A stream that is made of frames is read as these frames (`feedAll_frames`).
-/

universe u

namespace Framing

open List

variable {β : Type u}

/-- Content, and the block that follows it. -/
structure Frame (β : Type u) where
  content : List β
  block : List β
  deriving DecidableEq

/-- What has been read of a stream: frames, and the beginning of another one. -/
structure Parse (β : Type u) where
  frames : List (Frame β)
  content : List β
  block : List β
  deriving DecidableEq

def closed (size : β → ℕ) : List β → Bool
  | [] => false
  | x :: l => l.length = size x

def Frame.render (g : Frame β) : List β :=
  g.content ++ g.block

/-- A frame has the right length, and its block is complete. -/
structure Frame.Sound (size : β → ℕ) (n : ℕ) (g : Frame β) : Prop where
  content : g.content.length = n
  block : closed size g.block = true

namespace Parse

def start : Parse β where
  frames := []
  content := []
  block := []

def render (p : Parse β) : List β :=
  p.frames.flatMap Frame.render ++ (p.content ++ p.block)

def contents (p : Parse β) : List β :=
  p.frames.flatMap Frame.content ++ p.content

def feed (size : β → ℕ) (n : ℕ) (p : Parse β) (x : β) : Parse β :=
  if p.block.isEmpty ∧ p.content.length < n then { p with content := p.content ++ [x] }
  else if closed size (p.block ++ [x]) then
    ⟨p.frames ++ [⟨p.content, p.block ++ [x]⟩], [], []⟩
  else { p with block := p.block ++ [x] }

def feedAll (size : β → ℕ) (n : ℕ) (p : Parse β) (l : List β) : Parse β :=
  l.foldl (feed size n) p

/-- What has been read is made of frames. A block begins where the content ends. -/
structure Sound (size : β → ℕ) (n : ℕ) (p : Parse β) : Prop where
  frames : ∀ g ∈ p.frames, g.Sound size n
  content : p.content.length ≤ n
  block : p.block ≠ [] → p.content.length = n
  unclosed : ∀ m b, p.block = m :: b → b.length < size m

variable {size : β → ℕ} {n : ℕ} {p : Parse β} {l l' : List β} {x : β}

@[simp]
theorem feedAll_nil : p.feedAll size n [] = p :=
  rfl

@[simp]
theorem feedAll_append : p.feedAll size n (l ++ l') = (p.feedAll size n l).feedAll size n l' :=
  foldl_append

@[simp]
theorem feedAll_cons : p.feedAll size n (x :: l) = (p.feed size n x).feedAll size n l :=
  rfl

@[simp]
theorem contents_content (p : Parse β) (l : List β) :
    ({ p with content := p.content ++ l } : Parse β).contents = p.contents ++ l := by
  simp only [contents, append_assoc]

@[simp]
theorem contents_frame (p : Parse β) (block : List β) :
    (⟨p.frames ++ [⟨p.content, block⟩], [], []⟩ : Parse β).contents = p.contents := by
  simp only [contents, flatMap_append, flatMap_singleton, append_nil]

theorem render_feed : (p.feed size n x).render = p.render ++ [x] := by
  rw [feed]
  split
  · next h =>
    rw [List.isEmpty_iff] at h
    simp only [render, h.1, append_nil, append_assoc]
  · split
    · simp only [render, Frame.render, flatMap_append, flatMap_singleton, append_nil, append_assoc]
    · simp only [render, append_assoc]

/-- **Reading loses nothing.** -/
theorem render_feedAll : (p.feedAll size n l).render = p.render ++ l := by
  induction l generalizing p with
  | nil => exact (append_nil _).symm
  | cons x l ih => rw [feedAll_cons, ih, render_feed, append_assoc, singleton_append]

theorem sound_start : (start : Parse β).Sound size n where
  frames _ hg := absurd hg not_mem_nil
  content := Nat.zero_le n
  block h := absurd rfl h
  unclosed _ _ h := absurd h.symm (cons_ne_nil _ _)

theorem Sound.feed (h : p.Sound size n) (x : β) : (p.feed size n x).Sound size n := by
  rw [Parse.feed]
  split
  · next hcontent =>
    rw [List.isEmpty_iff] at hcontent
    exact ⟨h.frames, length_append.trans_le hcontent.2, fun hb => absurd hcontent.1 hb, h.unclosed⟩
  · next hblock =>
    have hn : p.content.length = n := by
      by_cases hb : p.block = []
      · rw [hb, not_and, Nat.not_lt] at hblock
        exact le_antisymm h.content (hblock rfl)
      · exact h.block hb
    split
    · next hclosed =>
      refine ⟨?_, Nat.zero_le n, fun hb => absurd rfl hb,
        fun _ _ h => absurd h.symm (cons_ne_nil _ _)⟩
      intro g hg
      obtain hg | hg := mem_append.mp hg
      · exact h.frames g hg
      · obtain rfl := mem_singleton.mp hg
        exact ⟨hn, hclosed⟩
    · next hclosed =>
      refine ⟨h.frames, h.content, fun _ => hn, fun m b hb => ?_⟩
      dsimp only at hb
      have hne : b.length ≠ size m := by
        rw [hb, closed, decide_eq_true_eq] at hclosed
        exact hclosed
      obtain ⟨-, hb⟩ | ⟨b', hb', rfl⟩ := append_eq_cons_iff.mp hb
      · obtain ⟨-, rfl⟩ := cons.inj hb
        exact Nat.pos_of_ne_zero hne.symm
      · have hlt := h.unclosed m b' hb'
        rw [length_append, length_singleton] at hne ⊢
        omega

/-- **What has been read is made of frames.** -/
theorem Sound.feedAll (h : p.Sound size n) (l : List β) : (p.feedAll size n l).Sound size n := by
  induction l generalizing p with
  | nil => exact h
  | cons x l ih => exact ih (h.feed x)

theorem feedAll_content (hblock : p.block = []) (hlength : p.content.length + l.length ≤ n) :
    p.feedAll size n l = { p with content := p.content ++ l } := by
  induction l generalizing p with
  | nil => rw [feedAll_nil, append_nil]
  | cons x l ih =>
    rw [length_cons] at hlength
    have hfeed : p.feed size n x = { p with content := p.content ++ [x] } :=
      if_pos ⟨isEmpty_iff.mpr hblock, by omega⟩
    have hlength' : (p.content ++ [x]).length + l.length ≤ n := by
      rw [length_append, length_singleton]
      omega
    rw [feedAll_cons, hfeed, ih (p := { p with content := p.content ++ [x] }) hblock hlength',
      append_assoc, singleton_append]

theorem feed_block (hn : p.content.length = n) : p.feed size n x =
      if closed size (p.block ++ [x]) then ⟨p.frames ++ [⟨p.content, p.block ++ [x]⟩], [], []⟩
      else { p with block := p.block ++ [x] } :=
  if_neg fun h => absurd hn h.2.ne

theorem feedAll_block {m : β} {b : List β} (hn : p.content.length = n) (hl : l ≠ [])
    (h : p.block ++ l = m :: b) (hle : b.length ≤ size m) :
    p.feedAll size n l =
      if b.length = size m then ⟨p.frames ++ [⟨p.content, m :: b⟩], [], []⟩
      else { p with block := m :: b } := by
  induction l using reverseRecOn generalizing b with
  | nil => exact absurd rfl hl
  | append_singleton l x ih =>
    rw [feedAll_append, feedAll_cons, feedAll_nil]
    by_cases hnil : l = []
    · subst hnil
      rw [nil_append] at h
      rw [feedAll_nil, feed_block hn, h]
      simp only [closed, decide_eq_true_eq]
    · -- the piece without its last symbol does not complete the block
      obtain ⟨b', rfl⟩ : ∃ b', b = b' ++ [x] := by
        rw [← append_assoc] at h
        obtain ⟨hinit, -⟩ | ⟨b', hinit, hb⟩ := append_eq_cons_iff.mp h
        · exact absurd (append_eq_nil_iff.mp hinit).2 hnil
        · exact ⟨b', hb⟩
      rw [← append_assoc, ← cons_append, append_left_inj] at h
      rw [length_append, length_singleton] at hle
      rw [ih hnil h (by omega), if_neg (by omega), feed_block (p := { p with block := m :: b' }) hn]
      simp only [cons_append, closed, decide_eq_true_eq]

theorem feedAll_block_drop {block : List β} {pos : ℕ} (hn : p.content.length = n)
    (hclosed : closed size block = true) (hp : p.block = block.take pos) (hpos : pos < block.length)
    (hl : l <+: block.drop pos) :
    p.feedAll size n l =
      if block.length = pos + l.length then ⟨p.frames ++ [⟨p.content, block⟩], [], []⟩
      else { p with block := block.take (pos + l.length) } := by
  by_cases hnil : l = []
  · rw [hnil, feedAll_nil, length_nil, Nat.add_zero, if_neg hpos.ne', ← hp]
  · have hlength : l.length ≤ block.length - pos := hl.length_le.trans_eq length_drop
    have hread : p.block ++ l = block.take (pos + l.length) := by
      rw [hp, take_add, ← prefix_iff_eq_take.mp hl]
    have hpos' : 0 < l.length := length_pos_iff.mpr hnil
    cases block with
    | nil => cases hclosed
    | cons m b =>
      have hb : b.length = size m := of_decide_eq_true hclosed
      obtain ⟨j, hj⟩ : ∃ j, pos + l.length = j + 1 :=
        Nat.exists_eq_succ_of_ne_zero (by omega)
      rw [length_cons] at hlength hpos ⊢
      rw [hj, take_succ_cons] at hread ⊢
      have hjb : (b.take j).length = j := by
        rw [length_take]
        omega
      rw [feedAll_block hn hnil hread (by omega), hjb]
      by_cases hend : j = size m
      · rw [if_pos hend, if_pos (by omega), take_of_length_le (by omega)]
      · rw [if_neg hend, if_neg (by omega)]

/-- **A stream of frames is read as these frames.** -/
theorem feedAll_frames {gs : List (Frame β)} (hgs : ∀ g ∈ gs, g.Sound size n)
    (frames : List (Frame β)) :
    (⟨frames, [], []⟩ : Parse β).feedAll size n (gs.flatMap Frame.render) =
      ⟨frames ++ gs, [], []⟩ := by
  induction gs generalizing frames with
  | nil => rw [flatMap_nil, feedAll_nil, append_nil]
  | cons g gs ih =>
    rw [forall_mem_cons] at hgs
    obtain ⟨⟨hcontent, hclosed⟩, hgs⟩ := hgs
    obtain ⟨content, block⟩ := g
    cases block with
    | nil => cases hclosed
    | cons m b =>
      have hb : b.length = size m := of_decide_eq_true hclosed
      have hread : (⟨frames, [], []⟩ : Parse β).feedAll size n content = ⟨frames, content, []⟩ :=
        feedAll_content rfl ((Nat.zero_add _).trans_le hcontent.le)
      have hblock : (⟨frames, content, []⟩ : Parse β).feedAll size n (m :: b) =
          ⟨frames ++ [⟨content, m :: b⟩], [], []⟩ := by
        rw [feedAll_block hcontent (cons_ne_nil m b) rfl hb.le, if_pos hb]
      rw [flatMap_cons, Frame.render, feedAll_append, feedAll_append, hread, hblock, ih hgs,
        append_assoc, singleton_append]

/-- **The frames are determined by the stream.** -/
theorem Sound.feedAll_render (h : p.Sound size n) : start.feedAll size n p.render = p := by
  rw [render, feedAll_append, start, feedAll_frames h.frames, nil_append, feedAll_append]
  have hread : (⟨p.frames, [], []⟩ : Parse β).feedAll size n p.content =
      ⟨p.frames, p.content, []⟩ :=
    feedAll_content rfl ((Nat.zero_add _).trans_le h.content)
  rw [hread]
  cases hblock : p.block with
  | nil =>
    rw [feedAll_nil, ← hblock]
  | cons m b =>
    have hne : p.block ≠ [] := fun hnil => absurd (hblock.symm.trans hnil) (cons_ne_nil m b)
    have hlt := h.unclosed m b hblock
    rw [feedAll_block (p := ⟨p.frames, p.content, []⟩) (h.block hne) (cons_ne_nil m b) rfl
      hlt.le, if_neg hlt.ne, ← hblock]

theorem length_eq_of_take_eq {block block' : List β} (hclosed : closed size block = true)
    (hclosed' : closed size block' = true) {k : ℕ} (hk : 0 < k)
    (h : block.take k = block'.take k) : block.length = block'.length := by
  obtain ⟨k, rfl⟩ := Nat.exists_eq_succ_of_ne_zero hk.ne'
  cases block with
  | nil => cases hclosed
  | cons m b =>
    cases block' with
    | nil => cases hclosed'
    | cons m' b' =>
      rw [take_succ_cons, take_succ_cons, cons.injEq] at h
      have hb : b.length = size m := of_decide_eq_true hclosed
      have hb' : b'.length = size m' := of_decide_eq_true hclosed'
      rw [length_cons, length_cons, hb, hb', h.1]

end Parse

end Framing
