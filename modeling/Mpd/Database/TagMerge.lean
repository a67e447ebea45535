import Mpd.Database.Tag

/-!
# Merging tags

`tag_merge` in `tag.c` makes one tag of two: it has the items of the second one, and those items of
the first one whose type the second one does not have. The array is allocated for all items of both
tags, and made smaller in the end.

Merging is associative, and decides for each type on its own which tag its values are taken from, as
long as the number of items fits into an `unsigned`; if it does not, the array is too small
(`merge_iff`).
-/

namespace Mpd

open List Except

namespace Tag

/-! ### The source -/

inductive MergeFault
  /-- an item is written behind the end of the array -/
  | items
  /-- `assert(n <= ret->num_items)` -/
  | tooMany
  /-- `assert(n > 0)` -/
  | nothing
  deriving DecidableEq, Repr

/-- `tag_get_value`. -/
def getValue (tag : Tag) (type : TagType) : Option Text :=
  (tag.items.find? fun item => item.type = type).map TagItem.value

/-- `tag_has_type`. -/
def hasType (tag : Tag) (type : TagType) : Bool :=
  (tag.getValue type).isSome

/-- The loops of `tag_merge`: items are copied behind those that have been `written`. -/
def copyItems (numItems : ℕ) (copied : TagItem → Bool) :
    List TagItem → List TagItem → Except MergeFault (List TagItem)
  | written, [] => .ok written
  | written, item :: items =>
    if copied item then
      if written.length < numItems then copyItems numItems copied (written ++ [item]) items
      else .error .items
    else copyItems numItems copied written items

/-- `tag_merge`. -/
def merge (base add : Tag) : Except MergeFault Tag := do
  -- the sum is an `unsigned`
  let numItems := (base.items.length + add.items.length) % 4294967296
  let items ← copyItems numItems (fun _ => true) [] add.items
  let items ← copyItems numItems (fun item => !add.hasType item.type) items base.items
  if numItems < items.length then .error .tooMany
  else if items.length < numItems ∧ items.length = 0 then .error .nothing
  else .ok { Tag.new with
    time := if 0 < add.time then add.time else base.time
    items := items }

/-! ### What is merged -/

/-- The items of a tag whose type another one does not have. -/
def itemsBeside (tag other : Tag) : List TagItem :=
  tag.items.filter fun item => ∀ item' ∈ other.items, item'.type ≠ item.type

/-- The values of a type. -/
def values (tag : Tag) (type : TagType) : List Text :=
  (tag.items.filter fun item => item.type = type).map TagItem.value

def merged (base add : Tag) : Tag where
  time := if 0 < add.time then add.time else base.time
  hasPlaylist := false
  items := add.items ++ base.itemsBeside add

variable {base add : Tag}

theorem not_hasType (tag : Tag) (type : TagType) :
    (!tag.hasType type) = decide (∀ item ∈ tag.items, item.type ≠ type) := by
  rw [hasType, getValue, Option.isSome_map, Bool.eq_iff_iff]
  simp [find?_eq_none]

theorem copyItems_eq {numItems : ℕ} {copied : TagItem → Bool} {written items : List TagItem}
    (h : written.length + (items.filter copied).length ≤ numItems) :
    copyItems numItems copied written items = .ok (written ++ items.filter copied) := by
  induction items generalizing written with
  | nil => simp [copyItems]
  | cons item items ih =>
    rw [copyItems]
    cases hcopied : copied item with
    | false =>
      rw [filter_cons_of_neg (by simp [hcopied])] at h ⊢
      simpa using ih h
    | true =>
      rw [filter_cons_of_pos hcopied] at h ⊢
      rw [length_cons] at h
      rw [if_pos rfl, if_pos (by omega), ih (by simp; omega), append_assoc]
      rfl

/-- The array is too small for the items. -/
theorem copyItems_of_lt {numItems : ℕ} {written items : List TagItem}
    (hwritten : written.length ≤ numItems) (h : numItems < written.length + items.length) :
    copyItems numItems (fun _ => true) written items = .error .items := by
  induction items generalizing written with
  | nil => exact absurd h (Nat.not_lt.mpr hwritten)
  | cons item items ih =>
    rw [copyItems, if_pos rfl]
    split
    · rw [length_cons] at h
      refine ih ?_ ?_ <;> rw [length_append, length_singleton] <;> omega
    · rfl

theorem merge_eq (h : base.items.length + add.items.length < 4294967296) :
    merge base add = .ok (merged base add) := by
  have hle : (base.itemsBeside add).length ≤ base.items.length := length_filter_le _ _
  have hsome : (add.items ++ base.itemsBeside add).length = 0 →
      base.items.length + add.items.length = 0 := by
    intro h0
    obtain ⟨hadd, hbeside⟩ := append_eq_nil_iff.mp (length_eq_zero_iff.mp h0)
    -- without items in `add`, every item of `base` is beside it
    have hall : base.itemsBeside add = base.items := by simp [itemsBeside, hadd]
    rw [← hall, hbeside, hadd]
    rfl
  simp only [merge, not_hasType, Nat.mod_eq_of_lt h]
  rw [copyItems_eq (by simp), ok_bind, filter_true, nil_append,
    copyItems_eq (Nat.add_comm _ _ ▸ Nat.add_le_add_right hle _), ok_bind, ← itemsBeside,
    length_append]
  rw [length_append] at hsome
  rw [if_neg (by omega), if_neg (by omega)]
  rfl

theorem merge_of_overflow (hbase : base.items.length < 4294967296)
    (h : 4294967296 ≤ base.items.length + add.items.length)
    (hadd : add.items.length < 4294967296) : merge base add = .error .items := by
  have hmod : (base.items.length + add.items.length) % 4294967296 < add.items.length := by omega
  rw [merge]
  dsimp only
  rw [copyItems_of_lt (Nat.zero_le _) (by simpa using hmod)]
  rfl

theorem merge_succeeds_iff {P : Tag → Prop} (hbase : base.items.length < 4294967296)
    (hadd : add.items.length < 4294967296) : (merge base add).Succeeds P ↔
      base.items.length + add.items.length < 4294967296 ∧ P (merged base add) := by
  rcases lt_or_ge (base.items.length + add.items.length) 4294967296 with h | h
  · rw [merge_eq h, succeeds_ok, and_iff_right h]
  · rw [merge_of_overflow hbase h hadd]
    exact iff_of_false not_succeeds_error fun hlt => absurd hlt.1 (Nat.not_lt.mpr h)

theorem length_merged_lt (h : base.items.length + add.items.length < 4294967296) :
    (merged base add).items.length < 4294967296 := by
  have hle : (base.itemsBeside add).length ≤ base.items.length := length_filter_le _ _
  rw [merged, length_append]
  omega

theorem merged_assoc (a b c : Tag) : (merged (merged a b) c).items = (merged a (merged b c)).items ∧
    (merged (merged a b) c).time = (merged a (merged b c)).time := by
  constructor
  · have hnested : ((a.itemsBeside b).filter fun item =>
        ∀ item' ∈ c.items, item'.type ≠ item.type) = a.itemsBeside (merged b c) := by
      rw [itemsBeside, itemsBeside, filter_filter]
      refine filter_congr fun item _ => ?_
      -- the items of `b` that are not beside `c` have the type of one of `c`
      simp only [merged, itemsBeside, mem_append, mem_filter, decide_eq_true_eq]
      grind
    rw [merged, itemsBeside, merged, filter_append, hnested, ← append_assoc]
    rfl
  · simp only [merged]
    grind

theorem values_merged (base add : Tag) (type : TagType) : (merged base add).values type =
    if add.values type = [] then base.values type else add.values type := by
  have hbeside : ((base.itemsBeside add).filter fun item => item.type = type) =
      if add.values type = [] then base.items.filter fun item => item.type = type else [] := by
    rw [itemsBeside, filter_filter]
    split
    · next hnone =>
      simp only [values, map_eq_nil_iff, filter_eq_nil_iff, decide_eq_true_eq] at hnone
      refine filter_congr fun item _ => ?_
      rw [← Bool.decide_and, decide_eq_decide]
      grind
    · next hsome =>
      simp only [values, map_eq_nil_iff, filter_eq_nil_iff, decide_eq_true_eq,
        not_forall, not_not] at hsome
      obtain ⟨item', hmem, htype⟩ := hsome
      refine filter_eq_nil_iff.mpr fun item _ => ?_
      rw [← Bool.decide_and, decide_eq_true_eq]
      exact fun h => h.2 item' hmem (htype.trans h.1.symm)
  rw [values, merged, filter_append, hbeside, map_append]
  split
  · next hnone => simpa [values] using hnone
  · simp [values]

/-- `tag_merge` is right for three tags: it gives the items of the second tag, and then those of the
first one whose type is not among them, so that for each type the values are those of the second
tag, if it has any; and it is associative. -/
def MergesRight (base add third : Tag) : Prop :=
  (merge base add).Succeeds (fun tag => tag.items = add.items ++ base.itemsBeside add ∧
    ∀ type, tag.values type =
      if add.values type = [] then base.values type else add.values type) ∧
  (merge base add >>= (merge · third)).Succeeds fun left =>
    (merge add third >>= merge base).Succeeds fun right =>
      left.items = right.items ∧ left.time = right.time

/-- **Merging tags** is right if and only if the sums of the numbers of items do not overflow. -/
theorem merge_iff {third : Tag} (hbase : base.items.length < 4294967296)
    (hadd : add.items.length < 4294967296) (hthird : third.items.length < 4294967296) :
    MergesRight base add third ↔
      base.items.length + add.items.length < 4294967296 ∧
      (merged base add).items.length + third.items.length < 4294967296 ∧
      add.items.length + third.items.length < 4294967296 ∧
      base.items.length + (merged add third).items.length < 4294967296 := by
  have hright : ∀ {P : Tag → Prop}, (merge add third >>= merge base).Succeeds P ↔
      add.items.length + third.items.length < 4294967296 ∧
      base.items.length + (merged add third).items.length < 4294967296 ∧
      P (merged base (merged add third)) := by
    intro P
    rw [succeeds_bind, merge_succeeds_iff hadd hthird]
    exact and_congr_right fun h => merge_succeeds_iff hbase (length_merged_lt h)
  rw [MergesRight, succeeds_bind, merge_succeeds_iff hbase hadd, merge_succeeds_iff hbase hadd,
    and_and_and_comm, and_self]
  refine and_congr_right fun h => ?_
  rw [merge_succeeds_iff (length_merged_lt h) hthird, hright,
    and_iff_left (merged_assoc base add third), and_iff_right ⟨rfl, values_merged base add⟩]

def tagged (type : TagType) (n : ℕ) : Tag :=
  { Tag.new with items := replicate n ⟨type, ['x']⟩ }

theorem merge_iff_small :
    MergesRight (tagged .artist 2) (tagged .title 1) (tagged .artist 1) :=
  (merge_iff (by decide) (by decide) (by decide)).mpr (by decide)

theorem length_tagged (type : TagType) (n : ℕ) : (tagged type n).items.length = n :=
  length_replicate

/-- The sum is zero, and there is no array. -/
theorem not_merge_many : merge (tagged .artist 2147483648) (tagged .artist 2147483648) =
      .error .items ∧
    ¬ MergesRight (tagged .artist 2147483648) (tagged .artist 2147483648) Tag.new := by
  have hlength := length_tagged .artist 2147483648
  generalize tagged .artist 2147483648 = tag at hlength ⊢
  have hmerge : merge tag tag = .error .items :=
    merge_of_overflow (by omega) (by omega) (by omega)
  refine ⟨hmerge, fun h => ?_⟩
  rw [MergesRight, hmerge] at h
  exact not_succeeds_error h.1

end Tag

end Mpd
