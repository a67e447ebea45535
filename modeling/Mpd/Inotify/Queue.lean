import Mpd.General.Cover
import Mpd.General.Text

/-!
# The queue of changed directories

`inotify_queue.c` collects the directories in which something has changed until the database is
updated. Updating a directory includes everything below it, so that a directory that is below
another one need not be in the queue. The timer has no counterpart.

`path_in` looks for the root directory in the wrong argument: to it, the root directory is in every
other one, and nothing else is in the root directory. The queue covers everything that was put in,
with nothing below anything else, if and only if the root directory is never put in together with
other directories (`enqueueAll_iff`). Among the other directories, `path_in` is the relation
`Below`, and the loop inserts a maximal element.
-/

namespace Mpd

open List

namespace InotifyQueue

/-! ### The source -/

def pathIn (path possibleParent : Text) : Bool :=
  path = [] || (possibleParent.isPrefixOf path &&
    match path.drop possibleParent.length with
    | [] => true
    | c :: _ => c = '/')

def enqueueLoop (uri : Text) : List Text → List Text → List Text
  | queue, [] => uri :: queue
  | queue, currentUri :: oldQueue =>
    -- already enqueued
    if pathIn uri currentUri then queue ++ currentUri :: oldQueue
    else if pathIn currentUri uri then enqueueLoop uri queue oldQueue
    else enqueueLoop uri (currentUri :: queue) oldQueue

def enqueue (queue : List Text) (uri : Text) : List Text :=
  enqueueLoop uri [] queue

def enqueueAll (uris : List Text) : List Text :=
  uris.foldl enqueue []

/-! ### What the queue is for -/

def Below (uri parent : Text) : Prop :=
  parent = [] ∨ uri = parent ∨ parent ++ ['/'] <+: uri

instance : DecidableRel Below := fun _ _ => inferInstanceAs (Decidable (_ ∨ _ ∨ _))

/-- The root, or names that are not empty. -/
def ValidUri (uri : Text) : Prop :=
  uri = [] ∨ ∀ name ∈ uri.splitOn '/', name ≠ []

instance : DecidablePred ValidUri := fun _ => inferInstanceAs (Decidable (_ ∨ _))

/-- Everything that was put in is equal to or below something in the queue, and nothing in the queue
is equal to or below something else in it. -/
structure Collects (queue uris : List Text) : Prop where
  covers : ∀ uri ∈ uris, ∃ parent ∈ queue, Below uri parent
  incomparable : Incomparable Below queue

variable {u v w uri : Text} {queue uris : List Text}

theorem below_refl (u : Text) : Below u u :=
  .inr (.inl rfl)

theorem Below.trans (huv : Below u v) (hvw : Below v w) : Below u w := by
  obtain rfl | rfl | hvw := hvw
  · exact .inl rfl
  · exact huv
  · obtain rfl | rfl | huv := huv
    · exact absurd (prefix_nil.mp hvw) (append_ne_nil_of_right_ne_nil _ (by simp))
    · exact .inr (.inr hvw)
    · exact .inr (.inr (hvw.trans ((prefix_append v ['/']).trans huv)))

instance : IsTrans Text Below :=
  ⟨fun _ _ _ => Below.trans⟩

theorem ValidUri.head_ne (h : ValidUri u) : u.head? ≠ some '/' := by
  rintro hhead
  obtain ⟨rest, rfl⟩ := head?_eq_some_iff.mp hhead
  obtain hnil | hnames := h
  · cases hnil
  · refine hnames [] ?_ rfl
    exact mem_cons_self

/-! ### Directories other than the root directory -/

theorem pathIn_eq (hu : u ≠ []) (hv : v ≠ []) : pathIn u v = decide (Below u v) := by
  rw [pathIn, decide_eq_false hu, Bool.false_or, Bool.eq_iff_iff, Bool.and_eq_true,
    isPrefixOf_iff_prefix, decide_eq_true_iff, Below]
  constructor
  · rintro ⟨⟨rest, rfl⟩, hrest⟩
    rw [drop_left] at hrest
    cases rest with
    | nil => exact .inr (.inl (append_nil v))
    | cons c rest =>
      obtain rfl : c = '/' := of_decide_eq_true hrest
      exact .inr (.inr ⟨rest, by rw [append_assoc, singleton_append]⟩)
  · rintro (hnil | rfl | ⟨rest, rfl⟩)
    · exact absurd hnil hv
    · rw [drop_length]
      exact ⟨prefix_rfl, rfl⟩
    · rw [append_assoc, drop_left]
      exact ⟨prefix_append _ _, rfl⟩

theorem enqueueLoop_eq {new old : List Text} (huri : uri ≠ []) (hold : ∀ u ∈ old, u ≠ []) :
    enqueueLoop uri new old = insertMaximal Below uri new old := by
  induction old generalizing new with
  | nil => rfl
  | cons u old ih =>
    rw [forall_mem_cons] at hold
    simp only [enqueueLoop, insertMaximal, pathIn_eq huri hold.1, pathIn_eq hold.1 huri,
      decide_eq_true_eq, ih hold.2]

theorem ne_nil_of_mem_enqueue (hqueue : ∀ u ∈ queue, u ≠ []) (huri : uri ≠ []) :
    ∀ u ∈ enqueue queue uri, u ≠ [] := by
  intro u hu
  rw [enqueue, enqueueLoop_eq huri hqueue] at hu
  obtain rfl | hu := insertMaximal_subset hu
  · exact huri
  · exact hqueue u hu

theorem Collects.enqueue (h : Collects queue uris) (hqueue : ∀ u ∈ queue, u ≠ [])
    (huri : uri ≠ []) : Collects (enqueue queue uri) (uris ++ [uri]) := by
  rw [InotifyQueue.enqueue, enqueueLoop_eq huri hqueue]
  constructor
  · rw [forall_mem_append, forall_mem_singleton]
    refine ⟨fun u hu => ?_, ?_⟩
    · exact exists_mem_insertMaximal (.inr (h.covers u hu))
    · exact exists_mem_insertMaximal (.inl (below_refl uri))
  · exact incomparable_insertMaximal h.incomparable fun _ ha => nomatch ha

theorem enqueueAll_append (uris : List Text) (uri : Text) :
    enqueueAll (uris ++ [uri]) = enqueue (enqueueAll uris) uri := by
  rw [enqueueAll, foldl_append]
  rfl

theorem collects_enqueueAll (h : ∀ u ∈ uris, u ≠ []) :
    Collects (enqueueAll uris) uris ∧ ∀ u ∈ enqueueAll uris, u ≠ [] := by
  induction uris using reverseRecOn with
  | nil => exact ⟨⟨(fun _ hu => nomatch hu), .nil⟩, fun _ hu => nomatch hu⟩
  | append_singleton uris uri ih =>
    rw [forall_mem_append, forall_mem_singleton] at h
    obtain ⟨hcollects, hqueue⟩ := ih h.1
    rw [enqueueAll_append]
    exact ⟨hcollects.enqueue hqueue h.2, ne_nil_of_mem_enqueue hqueue h.2⟩

/-! ### The root directory -/

theorem enqueue_nil (h : queue ≠ []) : enqueue queue [] = queue := by
  obtain ⟨u, old, rfl⟩ := exists_cons_of_ne_nil h
  rfl

theorem enqueue_root (huri : ValidUri uri) (hne : uri ≠ []) : enqueue [[]] uri = [uri] := by
  have hin : pathIn uri [] = false := by
    obtain ⟨c, rest, rfl⟩ := exists_cons_of_ne_nil hne
    have hc : c ≠ '/' := fun heq => huri.head_ne (by rw [heq]; rfl)
    rw [pathIn]
    simp [hc]
  rw [enqueue, enqueueLoop, hin, if_neg Bool.false_ne_true]
  rfl

theorem enqueueAll_of_forall_eq (h : ∀ u ∈ uris, u = []) :
    enqueueAll uris = [] ∧ uris = [] ∨ enqueueAll uris = [[]] := by
  induction uris using reverseRecOn with
  | nil => exact .inl ⟨rfl, rfl⟩
  | append_singleton uris uri ih =>
    rw [forall_mem_append, forall_mem_singleton] at h
    rw [enqueueAll_append, h.2]
    right
    obtain ⟨hqueue, -⟩ | hqueue := ih h.1
    · rw [hqueue]
      rfl
    · rw [hqueue]
      rfl

theorem notMem_enqueueAll (h : ∀ u ∈ uris, ValidUri u) (hex : ∃ u ∈ uris, u ≠ []) :
    enqueueAll uris ≠ [] ∧ ∀ u ∈ enqueueAll uris, u ≠ [] := by
  induction uris using reverseRecOn with
  | nil =>
    obtain ⟨u, hu, -⟩ := hex
    cases hu
  | append_singleton uris uri ih =>
    rw [forall_mem_append, forall_mem_singleton] at h
    rw [enqueueAll_append]
    by_cases hbefore : ∃ u ∈ uris, u ≠ []
    · obtain ⟨hne, hqueue⟩ := ih h.1 hbefore
      by_cases huri : uri = []
      · rw [huri, enqueue_nil hne]
        exact ⟨hne, hqueue⟩
      · refine ⟨?_, ne_nil_of_mem_enqueue hqueue huri⟩
        rw [enqueue, enqueueLoop_eq huri hqueue]
        have hcovered : ∃ v ∈ insertMaximal Below uri [] (enqueueAll uris), Below uri v :=
          exists_mem_insertMaximal (.inl (below_refl uri))
        obtain ⟨v, hv, -⟩ := hcovered
        exact ne_nil_of_mem hv
    · -- the first directory other than the root directory
      push Not at hbefore
      have huri : uri ≠ [] := by
        obtain ⟨u, hu, hne⟩ := hex
        obtain hu | hu := mem_append.mp hu
        · exact absurd (hbefore u hu) hne
        · rwa [mem_singleton.mp hu] at hne
      have hqueue : enqueue (enqueueAll uris) uri = [uri] := by
        obtain ⟨hqueue, -⟩ | hqueue := enqueueAll_of_forall_eq hbefore
        · rw [hqueue]
          rfl
        · rw [hqueue]
          exact enqueue_root h.2 huri
      rw [hqueue, forall_mem_singleton]
      exact ⟨cons_ne_nil _ _, huri⟩

/-- **The queue collects what is put in** if and only if the root directory is never put in, or
nothing else is. -/
theorem enqueueAll_iff (h : ∀ u ∈ uris, ValidUri u) :
    Collects (enqueueAll uris) uris ↔ [] ∉ uris ∨ ∀ u ∈ uris, u = [] := by
  constructor
  · intro hcollects
    by_cases hex : ∃ u ∈ uris, u ≠ []
    · left
      intro hroot
      obtain ⟨parent, hparent, hbelow⟩ := hcollects.covers [] hroot
      have hne := (notMem_enqueueAll h hex).2 parent hparent
      obtain hnil | hnil | hprefix := hbelow
      · exact hne hnil
      · exact hne hnil.symm
      · exact append_ne_nil_of_right_ne_nil _ (by simp) (prefix_nil.mp hprefix)
    · push Not at hex
      exact .inr hex
  · rintro (hroot | hall)
    · refine (collects_enqueueAll fun u hu hnil => hroot ?_).1
      rwa [hnil] at hu
    · obtain ⟨hqueue, rfl⟩ | hqueue := enqueueAll_of_forall_eq hall
      · rw [hqueue]
        exact ⟨(fun _ hu => nomatch hu), .nil⟩
      · rw [hqueue]
        refine ⟨fun u hu => ⟨[], mem_singleton_self _, .inl rfl⟩, pairwise_singleton _ _⟩

theorem enqueueAll_iff_below : Collects (enqueueAll ["a/b".toList, "c".toList, "a".toList])
      ["a/b".toList, "c".toList, "a".toList] :=
  (enqueueAll_iff (by decide)).mpr (.inl (by decide))

theorem not_collects_root :
    enqueueAll [[], "a".toList] = ["a".toList] ∧ enqueueAll ["a".toList, []] = ["a".toList] ∧
      ¬ Collects (enqueueAll [[], "a".toList]) [[], "a".toList] ∧
      ¬ Collects (enqueueAll ["a".toList, []]) ["a".toList, []] := by
  have hlost : ¬ ∃ parent ∈ ["a".toList], Below [] parent := by decide
  refine ⟨by decide, by decide, fun h => hlost ?_, fun h => hlost ?_⟩
  · exact h.covers [] (by decide)
  · exact h.covers [] (by decide)

end InotifyQueue

end Mpd
