import Mpd.General.Buckets
import Mpd.General.Outcome
import Mpd.General.Text

/-!
# Sets of strings

`strset.c`: a set of strings in 16384 slots, by a hash of the string. A slot holds its first string
itself, and the others in a chain behind it, into which a new string is put at the front. An
iterator goes through the slots one after the other, and through the chain of each.

Strings that are added once or more often come out of the iterator once (`Sound.add`,
`Sound.drain_eq`), in whatever way the hash function distributes them.
-/

namespace Mpd

/-- `struct strset_slot` in the array: the string, or null if the slot is empty, and the strings of
the chain behind it. -/
structure StringSetSlot where
  value : Option Text
  next : List Text

def StringSetSlot.values (slot : StringSetSlot) : List Text :=
  slot.value.toList ++ slot.next

/-- `struct strset`. `currentSlot` is the chain behind the current slot: nothing is added while the
iterator is in use. -/
structure StringSet where
  size : UInt32
  currentSlot : Option (List Text)
  nextSlot : ℕ
  slots : ℕ → StringSetSlot

inductive StringSetFault
  | chainOfEmptySlot
  deriving DecidableEq, Repr

namespace StringSet

/-! ### The source -/

def numSlots : ℕ := 16384

def new : StringSet where
  size := 0
  currentSlot := none
  nextSlot := 0
  slots _ := ⟨none, []⟩

def index (hash : Text → UInt32) (value : Text) : ℕ :=
  (hash value).toNat % numSlots

def setSlot (set : StringSet) (i : ℕ) (slot : StringSetSlot) : StringSet :=
  { set with size := set.size + 1, slots := Function.update set.slots i slot }

def add (hash : Text → UInt32) (set : StringSet) (value : Text) :
    Except StringSetFault StringSet :=
  let i := index hash value
  let baseSlot := set.slots i
  match baseSlot.value with
  | none =>
    -- empty slot - put into base_slot
    if baseSlot.next = [] then .ok (set.setSlot i ⟨some value, []⟩) else .error .chainOfEmptySlot
  | some first =>
    -- found it - do nothing
    if value ∈ first :: baseSlot.next then .ok set
    -- insert it into the slot chain
    else .ok (set.setSlot i ⟨some first, value :: baseSlot.next⟩)

def rewind (set : StringSet) : StringSet :=
  { set with currentSlot := none, nextSlot := 0 }

def skipEmpty (slots : ℕ → StringSetSlot) : ℕ → ℕ → ℕ
  | 0, i => i
  | left + 1, i => if (slots i).value = none then skipEmpty slots left (i + 1) else i

def next (set : StringSet) : Option Text × StringSet :=
  match set.currentSlot with
  | some (value :: rest) => (some value, { set with currentSlot := some rest })
  | _ =>
    let i := skipEmpty set.slots (numSlots - set.nextSlot) set.nextSlot
    if numSlots ≤ i then (none, { set with nextSlot := i })
    else
      ((set.slots i).value, { set with nextSlot := i + 1, currentSlot := some (set.slots i).next })

def drain : ℕ → StringSet → List Text
  | 0, _ => []
  | calls + 1, set =>
    match set.next with
    | (none, _) => []
    | (some value, set) => value :: drain calls set

/-! ### Adding strings -/

def contents (set : StringSet) : List Text :=
  (List.range numSlots).flatMap fun i => (set.slots i).values

/-- Every string is in its slot once, and what is in a slot is not only behind it. -/
structure Sound (hash : Text → UInt32) (set : StringSet) : Prop where
  bucketed : Bucketed (index hash) fun i => (set.slots i).values
  next_eq : ∀ i, (set.slots i).value = none → (set.slots i).next = []

variable {hash : Text → UInt32} {set : StringSet} {value : Text}

theorem index_lt (hash : Text → UInt32) (value : Text) : index hash value < numSlots :=
  Nat.mod_lt _ (by decide)

theorem Sound.new : Sound hash new where
  bucketed := ⟨(fun _ _ h => nomatch h), fun _ => .nil⟩
  next_eq _ _ := rfl

theorem Sound.mem_contents_iff (h : Sound hash set) :
    value ∈ set.contents ↔ value ∈ (set.slots (index hash value)).values :=
  h.bucketed.mem_flatMap_iff (index_lt hash value)

theorem Sound.setSlot (h : Sound hash set) (hnew : value ∉ (set.slots (index hash value)).values)
    {slot : StringSetSlot}
    (hslot : slot.values.Perm (value :: (set.slots (index hash value)).values))
    (hvalue : slot.value ≠ none) :
    Sound hash (set.setSlot (index hash value) slot) ∧
      ∀ v, v ∈ (set.setSlot (index hash value) slot).contents ↔ v = value ∨ v ∈ set.contents := by
  have hvalues : (fun i => ((set.setSlot (index hash value) slot).slots i).values) =
      Function.update (fun i => (set.slots i).values) (index hash value) slot.values := by
    funext i
    simp only [StringSet.setSlot, Function.update_apply]
    split <;> rfl
  have hsound : Sound hash (set.setSlot (index hash value) slot) := by
    refine ⟨?_, fun i hi => ?_⟩
    · rw [hvalues]
      exact h.bucketed.insert hnew hslot
    · simp only [StringSet.setSlot, Function.update_apply] at hi ⊢
      split at hi
      · exact absurd hi hvalue
      · next hne =>
        rw [if_neg hne]
        exact h.next_eq i hi
  refine ⟨hsound, fun v => ?_⟩
  rw [hsound.mem_contents_iff, h.mem_contents_iff, congrFun hvalues (index hash v),
    Function.update_apply]
  split
  · next hindex => rw [hslot.mem_iff, List.mem_cons, hindex]
  · next hindex =>
    refine ⟨.inr, fun hv => hv.resolve_left ?_⟩
    rintro rfl
    exact hindex rfl

/-- **Adding a string** changes the set accordingly. -/
theorem Sound.add (h : Sound hash set) (value : Text) : (set.add hash value).Succeeds fun set' =>
      Sound hash set' ∧ ∀ v, v ∈ set'.contents ↔ v = value ∨ v ∈ set.contents := by
  have hvalues : (set.slots (index hash value)).values =
      (set.slots (index hash value)).value.toList ++ (set.slots (index hash value)).next := rfl
  rw [StringSet.add]
  cases hvalue : (set.slots (index hash value)).value with
  | none =>
    have hnext := h.next_eq _ hvalue
    rw [hvalue, hnext] at hvalues
    rw [if_pos hnext]
    refine .ok (h.setSlot ?_ ?_ (Option.some_ne_none _))
    · rw [hvalues]
      exact List.not_mem_nil
    · rw [hvalues]
      exact .refl _
  | some first =>
    rw [hvalue] at hvalues
    refine .ite (fun hmem => ?_) fun hmem => ?_
    · refine .ok ⟨h, fun v => ⟨.inr, fun hv => ?_⟩⟩
      obtain rfl | hv := hv
      · rw [h.mem_contents_iff, hvalues]
        exact hmem
      · exact hv
    · refine .ok (h.setSlot ?_ ?_ (Option.some_ne_none _))
      · rw [hvalues]
        exact hmem
      · rw [hvalues]
        exact .swap value first _

/-! ### Going through the set -/

def remaining (set : StringSet) : List Text :=
  set.currentSlot.getD [] ++
    (List.range' set.nextSlot (numSlots - set.nextSlot)).flatMap fun i => (set.slots i).values

theorem flatMap_skipEmpty {slots : ℕ → StringSetSlot}
    (h : ∀ i, (slots i).value = none → (slots i).next = []) (left i : ℕ) :
    i ≤ skipEmpty slots left i ∧ skipEmpty slots left i ≤ i + left ∧
      (skipEmpty slots left i < i + left → (slots (skipEmpty slots left i)).value ≠ none) ∧
      (List.range' i left).flatMap (fun i => (slots i).values) =
        (List.range' (skipEmpty slots left i) (i + left - skipEmpty slots left i)).flatMap
          fun i => (slots i).values := by
  induction left generalizing i with
  | zero => exact ⟨le_rfl, le_rfl, (fun hlt => absurd hlt (lt_irrefl _)), by rw [skipEmpty]; simp⟩
  | succ left ih =>
    rw [skipEmpty]
    split
    · next hnone =>
      obtain ⟨hge, hle, hvalue, hflat⟩ := ih (i + 1)
      have hsum : i + 1 + left = i + (left + 1) := by omega
      rw [hsum] at hle hvalue hflat
      refine ⟨Nat.le_of_succ_le hge, hle, hvalue, ?_⟩
      rw [List.range'_succ, List.flatMap_cons, hflat, StringSetSlot.values, hnone, h i hnone]
      rfl
    · next hsome =>
      refine ⟨le_rfl, Nat.le_add_right _ _, fun _ => hsome, ?_⟩
      rw [Nat.add_sub_cancel_left]

theorem next_of_currentSlot (h : set.currentSlot.getD [] = []) : set.next =
      let i := skipEmpty set.slots (numSlots - set.nextSlot) set.nextSlot
      if numSlots ≤ i then (none, { set with nextSlot := i })
      else
        ((set.slots i).value,
          { set with nextSlot := i + 1, currentSlot := some (set.slots i).next }) := by
  rw [next]
  cases hcurrent : set.currentSlot with
  | none => rfl
  | some chain =>
    cases chain with
    | nil => rfl
    | cons value rest =>
      rw [hcurrent] at h
      cases h

theorem Sound.next_cases (h : Sound hash set) (hle : set.nextSlot ≤ numSlots) :
    (∃ set', set.next = (none, set') ∧ set.remaining = []) ∨
      ∃ value set', set.next = (some value, set') ∧ set.remaining = value :: set'.remaining ∧
        Sound hash set' ∧ set'.nextSlot ≤ numSlots := by
  cases hcurrent : set.currentSlot.getD [] with
  | cons value rest =>
    right
    have hsome : set.currentSlot = some (value :: rest) := by
      cases hslot : set.currentSlot with
      | none =>
        rw [hslot] at hcurrent
        cases hcurrent
      | some chain =>
        rw [hslot] at hcurrent
        exact congrArg some hcurrent
    refine ⟨value, { set with currentSlot := some rest }, ?_, ?_, ⟨h.bucketed, h.next_eq⟩, hle⟩
    · rw [next, hsome]
    · rw [remaining, hcurrent]
      rfl
  | nil =>
    obtain ⟨-, hend, hvalue, hflat⟩ :=
      flatMap_skipEmpty h.next_eq (numSlots - set.nextSlot) set.nextSlot
    rw [Nat.add_sub_cancel' hle] at hend hvalue hflat
    rw [next_of_currentSlot hcurrent, remaining, hcurrent, hflat]
    generalize skipEmpty set.slots (numSlots - set.nextSlot) set.nextSlot = i at hend hvalue ⊢
    by_cases hi : numSlots ≤ i
    · left
      rw [if_pos hi, Nat.sub_eq_zero_of_le hi]
      exact ⟨_, rfl, rfl⟩
    · right
      rw [if_neg hi]
      have hlt : i < numSlots := Nat.lt_of_not_le hi
      obtain ⟨value, hsome⟩ := Option.ne_none_iff_exists'.mp (hvalue hlt)
      refine ⟨value, _, Prod.ext hsome rfl, ?_, ⟨h.bucketed, h.next_eq⟩, hlt⟩
      obtain ⟨left, hleft⟩ : ∃ left, numSlots - i = left + 1 :=
        ⟨numSlots - i - 1, by omega⟩
      have hrest : numSlots - (i + 1) = left := by omega
      rw [remaining, hleft, List.range'_succ, List.flatMap_cons, StringSetSlot.values, hsome]
      rw [hrest]
      rfl

/-- **Every string that is left comes out**, in as many calls as there are strings, and one more for
null. -/
theorem Sound.drain_eq (h : Sound hash set) (hle : set.nextSlot ≤ numSlots) {calls : ℕ}
    (hcalls : set.remaining.length < calls) : drain calls set = set.remaining := by
  induction calls generalizing set with
  | zero => exact absurd hcalls (Nat.not_lt_zero _)
  | succ calls ih =>
    obtain ⟨set', hnext, hremaining⟩ | ⟨value, set', hnext, hremaining, hsound, hle'⟩ :=
      h.next_cases hle
    · rw [drain, hnext, hremaining]
    · rw [hremaining] at hcalls ⊢
      rw [drain, hnext]
      exact congrArg (value :: ·) (ih hsound hle' (Nat.lt_of_succ_lt_succ hcalls))

theorem remaining_of_start (hcurrent : set.currentSlot = none) (hnext : set.nextSlot = 0) :
    set.remaining = set.contents := by
  rw [remaining, hcurrent, hnext, Option.getD_none, List.nil_append, Nat.sub_zero, contents,
    List.range_eq_range']

theorem Sound.drain_rewind (h : Sound hash set) {calls : ℕ} (hcalls : set.contents.length < calls) :
    drain calls set.rewind = set.contents := by
  have hsound : Sound hash set.rewind := ⟨h.bucketed, h.next_eq⟩
  have hremaining : set.rewind.remaining = set.contents := remaining_of_start rfl rfl
  rw [← hremaining] at hcalls ⊢
  exact hsound.drain_eq (Nat.zero_le _) hcalls

theorem Sound.nodup_contents (h : Sound hash set) : set.contents.Nodup :=
  h.bucketed.nodup_flatMap numSlots

end StringSet

end Mpd
