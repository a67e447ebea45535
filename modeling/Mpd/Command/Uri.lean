import Mpd.General.Outcome
import Mpd.General.Text

/-!
# Safe URIs

`uri_safe_local` in `uri.c` is to accept a relative URI if none of its segments is empty, `.` or
`..`. A pointer into the URI is the text behind it. `verify_uri_segment` looks for the next slash
behind the character after the dots, whatever it is. If the segment has nothing but dots, that
character is the slash, and the next segment is not looked at; or it is the terminating NUL, and
`strchr` reads beyond the end. The scan looks at the segments in `examined` and leaves out those in
`leftOut`. `MisScanned` names the URIs for which it goes wrong, and it decides all others
(`uriSafeLocal_iff`).
-/

namespace Mpd

open List

namespace Uri

/-! ### The source -/

/-- What can go wrong. -/
inductive Fault
  /-- a byte behind the terminating NUL is read -/
  | pastEnd
  /-- `assert(*uri == '/')` -/
  | assertion
  deriving DecidableEq

/-- `strchr(p + 1, '/')`, or the end. -/
def findSlash : Text → Except Fault Text
  | [] => .error .pastEnd
  | _ :: q => .ok (q.dropWhile (· ≠ '/'))

/-- `verify_uri_segment`: nothing if the segment is refused, or what is behind it. -/
def verifyUriSegment (p : Text) : Except Fault (Option Text) := do
  -- `dots` is an `unsigned`
  let dots := (p.takeWhile (· = '.')).length % 4294967296
  let p := p.dropWhile (· = '.')
  if dots ≤ 2 ∧ (p = [] ∨ p.head? = some '/') then .ok none
  else some <$> findSlash p

theorem length_of_verifyUriSegment {uri rest : Text} {ch : Char}
    (h : verifyUriSegment uri = .ok (some (ch :: rest))) : rest.length < uri.length := by
  have hdots := (dropWhile_sublist (· = '.') (l := uri)).length_le
  rw [verifyUriSegment] at h
  generalize uri.dropWhile (· = '.') = p at hdots h
  split_ifs at h
  · cases h
  · cases p with
    | nil => cases h
    | cons c q =>
      have hslash := (dropWhile_sublist (· ≠ '/') (l := q)).length_le
      rw [Option.some.inj (Except.ok.inj h)] at hslash
      simp only [length_cons] at hdots hslash
      omega

/-- `uri_safe_local`. -/
def uriSafeLocal (uri : Text) : Except Fault Bool :=
  match _h : verifyUriSegment uri with
  | .error e => .error e
  | .ok none => .ok false
  | .ok (some []) => .ok true
  | .ok (some (ch :: rest)) => if ch = '/' then uriSafeLocal rest else .error .assertion
termination_by uri.length
decreasing_by exact length_of_verifyUriSegment _h

/-! ### Segments -/

/-- A segment that is to be accepted. -/
def Safe (seg : Text) : Prop :=
  seg ≠ [] ∧ seg ≠ ".".toList ∧ seg ≠ "..".toList

instance : DecidablePred Safe := fun _ => inferInstanceAs (Decidable (_ ∧ _ ∧ _))

/-- Nothing but dots. -/
def onlyDots (seg : Text) : Bool :=
  seg.all (· = '.')

/-- What `verify_uri_segment` refuses. -/
def refused (seg : Text) : Bool :=
  onlyDots seg && seg.length % 4294967296 ≤ 2

/-- The segments that the scan looks at. -/
def examined : List Text → List Text
  | seg :: next :: rest => seg :: if onlyDots seg then examined rest else examined (next :: rest)
  | segs => segs

/-- The segments that it does not look at. -/
def leftOut : List Text → List Text
  | seg :: next :: rest => if onlyDots seg then next :: leftOut rest else leftOut (next :: rest)
  | _ => []

/-- The last segment is looked at and has nothing but dots. -/
def endsInDots : List Text → Bool
  | seg :: next :: rest => if onlyDots seg then endsInDots rest else endsInDots (next :: rest)
  | [seg] => onlyDots seg
  | [] => false

variable {seg t rest : Text}

theorem verifyUriSegment_dots (hdots : onlyDots seg) (ht : t.head? ≠ some '.') :
    verifyUriSegment (seg ++ t) =
      if seg.length % 4294967296 ≤ 2 ∧ (t = [] ∨ t.head? = some '/') then .ok none
      else some <$> findSlash t := by
  have hall : ∀ ch ∈ seg, decide (ch = '.') = true := all_eq_true.mp hdots
  have hstop : t.takeWhile (· = '.') = [] ∧ t.dropWhile (· = '.') = t := by
    cases t with
    | nil => exact ⟨rfl, rfl⟩
    | cons ch t =>
      have hch : ¬ decide (ch = '.') = true := by simpa using ht
      exact ⟨takeWhile_cons_of_neg hch, dropWhile_cons_of_neg hch⟩
  rw [verifyUriSegment, takeWhile_append_of_pos hall, dropWhile_append_of_pos hall,
    hstop.1, hstop.2, append_nil]

theorem dropWhile_segment (hseg : '/' ∉ seg) (ht : t = [] ∨ t.head? = some '/') :
    (seg ++ t).dropWhile (· ≠ '/') = t := by
  rw [dropWhile_append_of_pos fun ch hch => by simpa using ne_of_mem_of_not_mem hch hseg]
  obtain rfl | hslash := ht
  · rfl
  · obtain ⟨rest, rfl⟩ := head?_eq_some_iff.mp hslash
    exact dropWhile_cons_of_neg (by simp)

theorem exists_dots_append (h : ¬ onlyDots seg) :
    ∃ dots ch q, seg = dots ++ ch :: q ∧ onlyDots dots ∧ ch ≠ '.' := by
  induction seg with
  | nil => exact absurd rfl h
  | cons c seg ih =>
    by_cases hc : c = '.'
    · obtain ⟨dots, ch, q, rfl, hdots, hch⟩ := ih (by simpa [onlyDots, hc] using h)
      exact ⟨c :: dots, ch, q, rfl, by simpa [onlyDots, hc] using hdots, hch⟩
    · exact ⟨[], c, seg, rfl, rfl, hc⟩

theorem verifyUriSegment_of_not_onlyDots (hdots : ¬ onlyDots seg) (hseg : '/' ∉ seg)
    (ht : t = [] ∨ t.head? = some '/') : verifyUriSegment (seg ++ t) = .ok (some t) := by
  obtain ⟨dots, ch, q, rfl, hall, hch⟩ := exists_dots_append hdots
  simp only [mem_append, mem_cons, not_or] at hseg
  rw [append_assoc, cons_append, verifyUriSegment_dots hall (by simpa using hch),
    if_neg (by simpa using fun _ => Ne.symm hseg.2.1), findSlash, dropWhile_segment hseg.2.2 ht]
  rfl

theorem verifyUriSegment_of_refused (h : refused seg) (ht : t = [] ∨ t.head? = some '/') :
    verifyUriSegment (seg ++ t) = .ok none := by
  rw [refused, Bool.and_eq_true, decide_eq_true_iff] at h
  rw [verifyUriSegment_dots h.1 (by rcases ht with rfl | ht <;> simp [*]), if_pos ⟨h.2, ht⟩]

theorem verifyUriSegment_of_onlyDots (hdots : onlyDots seg) (h : ¬ refused seg)
    (ht : t.head? ≠ some '.') : verifyUriSegment (seg ++ t) = some <$> findSlash t := by
  rw [refused, hdots, Bool.true_and, decide_eq_true_iff] at h
  rw [verifyUriSegment_dots hdots ht, if_neg fun hfew => h hfew.1]

/-! ### The scan -/

section

variable {uri : Text}

theorem uriSafeLocal_of_error {e : Fault} (h : verifyUriSegment uri = .error e) :
    uriSafeLocal uri = .error e := by
  rw [uriSafeLocal]
  split <;> simp_all

theorem uriSafeLocal_of_none (h : verifyUriSegment uri = .ok none) :
    uriSafeLocal uri = .ok false := by
  rw [uriSafeLocal]
  split <;> simp_all

theorem uriSafeLocal_of_end (h : verifyUriSegment uri = .ok (some [])) :
    uriSafeLocal uri = .ok true := by
  rw [uriSafeLocal]
  split <;> simp_all

theorem uriSafeLocal_of_slash (h : verifyUriSegment uri = .ok (some ('/' :: rest))) :
    uriSafeLocal uri = uriSafeLocal rest := by
  rw [uriSafeLocal]
  split <;> simp_all

end

theorem splitOn_segment (hseg : '/' ∉ seg) :
    (seg ++ '/' :: rest).splitOn '/' = seg :: rest.splitOn '/' :=
  splitOnP_append_cons_of_forall_mem
    (fun _ hch => beq_false_of_ne (ne_of_mem_of_not_mem hch hseg)) '/' rfl rest

theorem uriSafeLocal_eq (uri : Text) :
    uriSafeLocal uri =
      if (examined (uri.splitOn '/')).any refused then .ok false
      else if endsInDots (uri.splitOn '/') then .error .pastEnd
      else .ok true := by
  induction hn : uri.length using Nat.strong_induction_on generalizing uri with | _ n ih
  subst hn
  by_cases hslash : '/' ∈ uri
  · obtain ⟨seg, rest, rfl, hseg⟩ := eq_append_cons_of_mem hslash
    have hrest : rest.length < (seg ++ '/' :: rest).length := by simp; omega
    obtain ⟨next, more, hmore⟩ := exists_cons_of_ne_nil (splitOn_ne_nil '/' rest)
    rw [splitOn_segment hseg, hmore, examined, endsInDots, any_cons]
    by_cases hrefused : refused seg
    · rw [uriSafeLocal_of_none (verifyUriSegment_of_refused hrefused (.inr rfl)), hrefused]
      rfl
    rw [eq_false_of_ne_true hrefused, Bool.false_or]
    by_cases hdots : onlyDots seg
    · have hverify := verifyUriSegment_of_onlyDots hdots hrefused (t := '/' :: rest) (by simp)
      rw [if_pos hdots, if_pos hdots]
      by_cases hmid : '/' ∈ rest
      · obtain ⟨next', rest, rfl, hnext⟩ := eq_append_cons_of_mem hmid
        rw [findSlash, dropWhile_segment hnext (.inr rfl)] at hverify
        rw [splitOn_segment hnext] at hmore
        rw [uriSafeLocal_of_slash hverify, ← (cons.inj hmore).2]
        exact ih _ (by simp at hrest ⊢; omega) rest rfl
      · -- the last segment is not looked at
        rw [findSlash, ← append_nil rest, dropWhile_segment hmid (.inl rfl)] at hverify
        rw [splitOn_eq_singleton hmid] at hmore
        rw [← append_nil rest, uriSafeLocal_of_end hverify, ← (cons.inj hmore).2]
        rfl
    · rw [if_neg hdots, if_neg hdots, ← hmore,
        uriSafeLocal_of_slash (verifyUriSegment_of_not_onlyDots hdots hseg (.inr rfl))]
      exact ih _ hrest rest rfl
  · have hone : (examined [uri]).any refused = refused uri := Bool.or_false _
    have hend : endsInDots [uri] = onlyDots uri := rfl
    rw [splitOn_eq_singleton hslash, hone, hend]
    nth_rewrite 1 [← append_nil uri]
    by_cases hrefused : refused uri
    · rw [uriSafeLocal_of_none (verifyUriSegment_of_refused hrefused (.inl rfl)), if_pos hrefused]
    · rw [if_neg hrefused]
      by_cases hdots : onlyDots uri
      · rw [uriSafeLocal_of_error (verifyUriSegment_of_onlyDots hdots hrefused (by simp)),
          if_pos hdots]
      · rw [uriSafeLocal_of_end (verifyUriSegment_of_not_onlyDots hdots hslash (.inl rfl)),
          if_neg hdots]

/-- **The scan is right about the URI.** -/
def Decides (uri : Text) : Prop :=
  (uriSafeLocal uri).Succeeds fun r => r = true ↔ ∀ seg ∈ uri.splitOn '/', Safe seg

/-- So many dots that they count as two or less. -/
def Wraps (seg : Text) : Prop :=
  onlyDots seg ∧ 4294967296 ≤ seg.length ∧ seg.length % 4294967296 ≤ 2

/-- The segments of a URI that is scanned wrongly. -/
inductive MisScanned (segs : List Text) : Prop
  /-- a segment behind one of three dots or more is not safe -/
  | leavesOut : (∀ seg ∈ examined segs, ¬ refused seg) → (∃ seg ∈ leftOut segs, ¬ Safe seg) →
    MisScanned segs
  /-- the NUL is behind three dots or more -/
  | readsBeyond : (∀ seg ∈ examined segs, ¬ refused seg) → endsInDots segs → MisScanned segs
  /-- a long row of dots is refused -/
  | miscounts : (∃ seg ∈ examined segs, Wraps seg) → (∀ seg ∈ segs, Safe seg) → MisScanned segs

theorem mem_examined_or_leftOut {segs : List Text} :
    seg ∈ segs ↔ seg ∈ examined segs ∨ seg ∈ leftOut segs := by
  fun_induction examined segs with
  | case1 first next rest ih₁ ih₂ =>
    by_cases hdots : onlyDots first
    · rw [leftOut, if_pos hdots, if_pos hdots]
      simp only [mem_cons, ih₁]
      tauto
    · rw [leftOut, if_neg hdots, if_neg hdots, mem_cons, ih₂, mem_cons, or_assoc]
  | case2 segs hsegs =>
    rw [leftOut, or_iff_left not_mem_nil]
    exact hsegs

theorem not_safe_iff : ¬ Safe seg ↔ onlyDots seg ∧ seg.length ≤ 2 := by
  constructor
  · intro h
    rw [Safe, Classical.not_and_iff_not_or_not, Classical.not_and_iff_not_or_not] at h
    simp only [ne_eq, Classical.not_not] at h
    obtain rfl | rfl | rfl := h <;> decide
  · rintro ⟨hdots, hlength⟩
    rw [eq_replicate_of_mem fun ch hch => of_decide_eq_true (all_eq_true.mp hdots ch hch)]
    generalize seg.length = n at hlength
    match n, hlength with
    | 0, _ | 1, _ | 2, _ => decide

theorem refused_iff : refused seg ↔ ¬ Safe seg ∨ Wraps seg := by
  rw [not_safe_iff, Wraps, refused, Bool.and_eq_true, decide_eq_true_iff, ← and_or_left]
  refine and_congr_right fun _ => ?_
  omega

/-- **`uri_safe_local`** accepts exactly the URIs with safe segments only, and reads nothing beyond
the end, unless the URI is one of those that are scanned wrongly. -/
theorem uriSafeLocal_iff (uri : Text) : Decides uri ↔ ¬ MisScanned (uri.splitOn '/') := by
  rw [Decides, uriSafeLocal_eq]
  generalize uri.splitOn '/' = segs
  by_cases hrefused : (examined segs).any refused
  · rw [if_pos hrefused, Except.succeeds_ok]
    obtain ⟨seg, hseg, hseg'⟩ := any_eq_true.mp hrefused
    refine ⟨fun h hmis => ?_, fun hmis => iff_of_false Bool.false_ne_true fun hsafe => hmis ?_⟩
    · cases hmis with
      | leavesOut hnone _ => exact hnone seg hseg hseg'
      | readsBeyond hnone _ => exact hnone seg hseg hseg'
      | miscounts _ hsafe => cases h.mpr hsafe
    · have hsafe' := hsafe seg (mem_examined_or_leftOut.mpr (.inl hseg))
      exact .miscounts ⟨seg, hseg, (refused_iff.mp hseg').resolve_left (· hsafe')⟩ hsafe
  · rw [if_neg hrefused]
    have hnone : ∀ seg ∈ examined segs, ¬ refused seg := fun seg hseg hseg' =>
      hrefused (any_eq_true.mpr ⟨seg, hseg, hseg'⟩)
    by_cases hend : endsInDots segs
    · rw [if_pos hend]
      exact iff_of_false Except.not_succeeds_error (· (.readsBeyond hnone hend))
    · rw [if_neg hend, Except.succeeds_ok, iff_true_left rfl]
      refine ⟨fun hsafe hmis => ?_, fun hmis seg hseg => ?_⟩
      · cases hmis with
        | leavesOut _ hout =>
          obtain ⟨seg, hseg, hunsafe⟩ := hout
          exact hunsafe (hsafe seg (mem_examined_or_leftOut.mpr (.inr hseg)))
        | readsBeyond _ hend' => exact hend hend'
        | miscounts hwraps _ =>
          obtain ⟨seg, hseg, hwraps⟩ := hwraps
          exact hnone seg hseg (refused_iff.mpr (.inr hwraps))
      · by_contra hunsafe
        rcases mem_examined_or_leftOut.mp hseg with hseg | hseg
        · exact hnone seg hseg (refused_iff.mpr (.inl hunsafe))
        · exact hmis (.leavesOut hnone ⟨seg, hseg, hunsafe⟩)

theorem uriSafeLocal_dots : (uriSafeLocal ".../..".toList = .ok true ∧ ¬ Decides ".../..".toList) ∧
    uriSafeLocal "...".toList = .error .pastEnd ∧ ¬ Decides "...".toList := by
  rw [Decides, Decides, uriSafeLocal_eq, uriSafeLocal_eq]
  decide

end Uri

end Mpd
