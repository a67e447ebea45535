import Mathlib.Data.List.TakeWhile
import Mpd.General.Outcome

/-!
# Scanning an APE tag

`ape.c` finds an APEv2 tag at the end of a file and passes its items to a callback. A pointer into
the tag is modelled by the bytes from there to the end of the buffer; `remaining` is counted
separately, as in the source.

The end of a key is searched as long as more than the size of the value is left. An item of size 0
whose key does not end (`Unended`) is scanned to the end of the buffer, and `remaining` wraps.
Nothing else goes wrong (`apeScanInternal_inBuffer_iff`).
-/

namespace Mpd

open List

namespace Ape

inductive Fault
  | outside
  | wrap
  deriving DecidableEq

/-- The arguments of a callback. -/
structure Item where
  flags : ℕ
  key : List UInt8
  value : List UInt8
  size : ℕ
  deriving DecidableEq

/-- The key ends, and the value lies, within the buffer. -/
def Item.InBuffer (i : Item) : Prop :=
  0 ∈ i.key ∧ i.size ≤ i.value.length

/-! ### The scan -/

def fromLe (bytes : List UInt8) : ℕ :=
  bytes.foldr (fun b n => b.toNat + 256 * n) 0

def read32 (p : List UInt8) : Except Fault (ℕ × List UInt8) :=
  if p.length < 4 then .error .outside else .ok (fromLe (p.take 4), p.drop 4)

def skipKey (size : ℕ) : List UInt8 → ℕ → Except Fault (List UInt8 × ℕ)
  | [], remaining => if size < remaining then .error .outside else .ok ([], remaining)
  | c :: p, remaining =>
    if size < remaining ∧ c ≠ 0 then skipKey size p (remaining - 1) else .ok (c :: p, remaining)

def scanItem (p : List UInt8) (remaining : ℕ) : Except Fault (Option (Item × ℕ)) := do
  let (size, p) ← read32 p
  let (flags, key) ← read32 p
  let (p, remaining) ← skipKey size key (remaining - 8)
  if remaining = 0 then .error .wrap
  else if remaining - 1 < size then .ok none
  else .ok (some (⟨flags, key, p.tail, size⟩, remaining - 1))

def scanItems (callback : List Item → Bool) :
    ℕ → List UInt8 → ℕ → List Item → Except Fault (List Item)
  | 0, _, _, items => .ok items
  | n + 1, p, remaining, items =>
    if remaining ≤ 10 then .ok items
    else do
      match ← scanItem p remaining with
      | none => .ok items
      | some (i, remaining) =>
        let items := items ++ [i]
        if callback items then scanItems callback n (i.value.drop i.size) (remaining - i.size) items
        else .ok items

def footerId : List UInt8 :=
  "APETAGEX".toList.map fun c => c.toNat.toUInt8

def readTag (file : List UInt8) : Option (List UInt8 × ℕ) :=
  let footer := file.drop (file.length - 32)
  let remaining := fromLe ((footer.drop 12).take 4)
  if file.length < 32 ∨ footer.take 8 ≠ footerId ∨
      fromLe ((footer.drop 8).take 4) ≠ 2000 then none
  else if remaining ≤ 32 + 10 ∨ 1024 * 1024 < remaining ∨ file.length < remaining then none
  else
    some ((file.drop (file.length - remaining)).take (remaining - 32),
      fromLe ((footer.drop 16).take 4))

def apeScanInternal (callback : List Item → Bool) (file : List UInt8) :
    Except Fault (Option (List Item)) :=
  match readTag file with
  | none => .ok none
  | some (buffer, n) => do
    let items ← scanItems callback n buffer buffer.length []
    .ok (some items)

/-! ### The items of a tag -/

def Unended (p : List UInt8) : Prop :=
  fromLe (p.take 4) = 0 ∧ 0 ∉ p.drop 8
  deriving Decidable

def fromNul (p : List UInt8) : List UInt8 :=
  p.dropWhile (· ≠ 0)

def itemAt (p : List UInt8) : Option Item :=
  let size := fromLe (p.take 4)
  let key := p.drop 8
  if size < (fromNul key).length then
    some ⟨fromLe ((p.drop 4).take 4), key, (fromNul key).tail, size⟩
  else none

/-- The key of each item that is looked at has an end. -/
def KeysEnd (callback : List Item → Bool) : ℕ → List UInt8 → List Item → Prop
  | 0, _, _ => True
  | n + 1, p, items =>
    10 < p.length → ¬ Unended p ∧ ∀ i ∈ itemAt p, callback (items ++ [i]) = true →
      KeysEnd callback n (i.value.drop i.size) (items ++ [i])

variable {callback : List Item → Bool} {p : List UInt8} {size : ℕ}

theorem fromNul_eq_nil_iff : fromNul p = [] ↔ 0 ∉ p := by
  simp only [fromNul, dropWhile_eq_nil_iff, decide_eq_true_eq]
  exact ⟨fun h h0 => h 0 h0 rfl, fun h c hc => ne_of_mem_of_not_mem hc h⟩

theorem fromNul_cons_of_ne {c : UInt8} (hc : c ≠ 0) : fromNul (c :: p) = fromNul p := by
  simp [fromNul, hc]

theorem length_fromNul_le : (fromNul p).length ≤ p.length :=
  (dropWhile_sublist _).length_le

theorem inBuffer_of_itemAt {i : Item} (h : i ∈ itemAt p) : i.InBuffer := by
  rw [itemAt] at h
  split at h
  · next hsize =>
    obtain rfl := Option.some.inj h
    refine ⟨?_, ?_⟩
    · by_contra hkey
      simp [fromNul_eq_nil_iff.mpr hkey] at hsize
    · rw [length_tail]
      exact Nat.le_pred_of_lt hsize
  · cases h

theorem skipKey_of_lt (h : size < (fromNul p).length) :
    skipKey size p p.length = .ok (fromNul p, (fromNul p).length) := by
  induction p with
  | nil => cases h
  | cons c p ih =>
    by_cases hc : c = 0
    · simp [skipKey, fromNul, hc]
    · rw [fromNul_cons_of_ne hc] at h ⊢
      rw [skipKey, if_pos ⟨by have := length_fromNul_le (p := p); simp; omega, hc⟩]
      exact ih h

theorem skipKey_of_le (h : (fromNul p).length ≤ size) :
    ∃ q, skipKey size p p.length = .ok (q, min p.length size) := by
  induction p with
  | nil => exact ⟨[], by simp [skipKey]⟩
  | cons c p ih =>
    rw [skipKey]
    split_ifs with hloop
    · rw [fromNul_cons_of_ne hloop.2] at h
      have hmin : min (c :: p).length size = min p.length size := by
        have := hloop.1
        simp only [length_cons] at this ⊢
        omega
      rw [hmin]
      exact ih h
    · have hle : (c :: p).length ≤ size := by
        by_contra hlt
        have hc : c = 0 := not_not.mp fun hc => hloop ⟨not_le.mp hlt, hc⟩
        subst hc
        exact hlt h
      exact ⟨_, by rw [min_eq_left hle]⟩

/-- **What the loop body does.** It finds the item at the beginning of what remains, unless its key
does not end. -/
theorem scanItem_eq (h : 10 < p.length) : scanItem p p.length =
    if Unended p then .error .wrap else .ok ((itemAt p).map fun i => (i, i.value.length)) := by
  have hread : read32 p = .ok (fromLe (p.take 4), p.drop 4) := if_neg (by omega)
  have hread' : read32 (p.drop 4) = .ok (fromLe ((p.drop 4).take 4), p.drop 8) := by
    rw [read32, length_drop, if_neg (by omega), drop_drop]
  have hlen : p.length - 8 = (p.drop 8).length := by rw [length_drop]
  simp only [scanItem, hread, hread', Except.ok_bind, hlen]
  by_cases hkey : fromLe (p.take 4) < (fromNul (p.drop 8)).length
  · have hended : ¬ Unended p := fun hun => by
      simp [fromNul_eq_nil_iff.mpr hun.2] at hkey
    simp only [skipKey_of_lt hkey, Except.ok_bind, itemAt, if_pos hkey, if_neg hended]
    rw [if_neg (by omega), if_neg (by omega)]
    simp
  · obtain ⟨q, hq⟩ := skipKey_of_le (not_lt.mp hkey)
    simp only [hq, Except.ok_bind, itemAt, if_neg hkey]
    by_cases hzero : fromLe (p.take 4) = 0
    · have hun : Unended p := by
        rw [hzero, not_lt, Nat.le_zero, length_eq_zero_iff] at hkey
        exact ⟨hzero, fromNul_eq_nil_iff.mp hkey⟩
      simp [hun, hzero]
    · have hended : ¬ Unended p := fun hun => hzero hun.1
      rw [if_neg (by omega), if_pos (by omega), if_neg hended]
      rfl

/-- **When a tag is scanned within its buffer**: if no item that is reached has size 0 and a key
that does not end. -/
theorem scanItems_inBuffer_iff {items : List Item} (hitems : ∀ i ∈ items, i.InBuffer) (n : ℕ)
    (p : List UInt8) :
    (scanItems callback n p p.length items).Succeeds (fun r => ∀ i ∈ r, i.InBuffer) ↔
      KeysEnd callback n p items := by
  induction n generalizing p items with
  | zero => exact iff_of_true (.ok hitems) trivial
  | succ n ih =>
    rw [scanItems, KeysEnd]
    by_cases hlen : p.length ≤ 10
    · rw [if_pos hlen]
      exact iff_of_true (.ok hitems) fun hlt => absurd hlen hlt.not_ge
    · rw [if_neg hlen, forall_prop_of_true (not_le.mp hlen), scanItem_eq (not_le.mp hlen)]
      split_ifs with hun
      · simp [hun]
      · cases hitem : itemAt p with
        | none => exact iff_of_true (.ok hitems) ⟨hun, fun i hi => by cases hi⟩
        | some i =>
          have hitems' : ∀ j ∈ items ++ [i], j.InBuffer :=
            forall_mem_append.mpr ⟨hitems, forall_mem_singleton.mpr (inBuffer_of_itemAt hitem)⟩
          simp only [Option.map_some, Except.ok_bind, Option.mem_some_iff, forall_eq', hun,
            not_false_eq_true, true_and]
          split_ifs with hcall
          · rw [← length_drop, ih hitems']
            simp [hcall]
          · exact iff_of_true (.ok hitems') fun h => absurd h hcall

/-- **When a file is scanned within the buffer of its tag.** -/
theorem apeScanInternal_inBuffer_iff (callback : List Item → Bool) (file : List UInt8) :
    (apeScanInternal callback file).Succeeds (fun r => ∀ items ∈ r, ∀ i ∈ items, i.InBuffer) ↔
      ∀ buffer n, readTag file = some (buffer, n) → KeysEnd callback n buffer [] := by
  rw [apeScanInternal]
  cases htag : readTag file with
  | none => simp
  | some tag =>
    obtain ⟨buffer, n⟩ := tag
    simp only [Option.some.injEq, Prod.mk.injEq, and_imp, forall_eq', forall_apply_eq_imp_iff]
    rw [← scanItems_inBuffer_iff (forall_mem_nil _)]
    cases scanItems callback n buffer buffer.length [] <;> simp

theorem apeScanInternal_wraps :
    apeScanInternal (fun _ => true) ([0, 0, 0, 0, 0, 0, 0, 0, 97, 98, 99] ++ footerId ++
      [0xd0, 7, 0, 0, 43, 0, 0, 0, 1, 0, 0, 0] ++ List.replicate 12 0) = .error .wrap := by
  decide

end Ape

end Mpd
