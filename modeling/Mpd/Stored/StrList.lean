import Mathlib.Algebra.GroupWithZero.Nat
import Mathlib.Algebra.Order.BigOperators.Group.List
import Mathlib.Algebra.Order.Group.Nat
import Mathlib.Data.List.Perm.Subperm
import Mpd.General.LinkedList
import Mpd.General.Runs

/-!
# Lists of strings

`util/queue_common.h` keeps strings in a singly linked list with a pointer to the place where the
next entry goes, and finds the place of an index by walking along the addresses of the links. The
list is the mathematical one after every sequence of operations, and the pointer does not get stale
(`reaches_represents`). Stored playlists are edited with it.
-/

namespace Mpd

open List Function Except

variable {α : Type}

/-! ### The source -/

/-- Which address `tmalloc` gives to an entry: one that is not in use. -/
class EntryAllocator where
  address : List ℕ → ℕ
  address_notMem : ∀ used, address used ∉ used

instance : EntryAllocator where
  address used := used.sum + 1
  address_notMem used hmem := by
    have hle : used.sum + 1 ≤ used.sum := le_sum_of_mem hmem
    omega

inductive StrListFault
  /-- `assert(idx <= h->len)` or `assert(idx < h->len)` -/
  | assertion
  /-- an entry is used that is not allocated -/
  | entry (e : ℕ)
  /-- a null pointer is used -/
  | null
  /-- a loop over the entries does not end -/
  | endless
  deriving DecidableEq, Repr

/-- `struct str_list_head`, and the memory of the entries. A pointer to a pointer is the address of
`sqh_first` (`none`) or of the link of an entry. -/
structure StrList (α : Type) where
  len : ℕ
  first : Option ℕ
  last : Option ℕ
  str : ℕ → α
  next : ℕ → Option ℕ
  /-- the addresses of the entries that have been allocated and not freed -/
  allocated : List ℕ

namespace StrList

/-- `SIMPLEQ_INIT`, in a memory with any contents. -/
def init (str : ℕ → α) (next : ℕ → Option ℕ) : StrList α :=
  ⟨0, none, none, str, next, []⟩

/-- `*pptr`. -/
def read (h : StrList α) : Option ℕ → Except StrListFault (Option ℕ)
  | none => .ok h.first
  | some e => if e ∈ h.allocated then .ok (h.next e) else .error (.entry e)

/-- `*pptr = link`. -/
def write (h : StrList α) (link : Option ℕ) : Option ℕ → Except StrListFault (StrList α)
  | none => .ok { h with first := link }
  | some e =>
    if e ∈ h.allocated then .ok { h with next := update h.next e link } else .error (.entry e)

/-- An entry is allocated at the address `e` and filled in. -/
def alloc (h : StrList α) (e : ℕ) (str : α) (next : Option ℕ) : StrList α :=
  { h with
    str := update h.str e str
    next := update h.next e next
    allocated := e :: h.allocated }

section

variable [EntryAllocator]

/-- The address of the next entry. -/
def fresh (h : StrList α) : ℕ :=
  EntryAllocator.address h.allocated

/-- `str_list_insert_head` -/
def insertHead (h : StrList α) (str : α) : Except StrListFault (StrList α) := do
  let e := h.fresh
  let tmp := h.first
  let h ← (h.alloc e str tmp).write (some e) none
  .ok { h with last := if tmp = none then some e else h.last, len := h.len + 1 }

/-- `str_list_insert_tail` -/
def insertTail (h : StrList α) (str : α) : Except StrListFault (StrList α) := do
  let e := h.fresh
  let h ← (h.alloc e str none).write (some e) h.last
  .ok { h with last := some e, len := h.len + 1 }

end

/-- The loop of `str_list_get_nextptr`. -/
def getNextptr (h : StrList α) : ℕ → Option ℕ → Except StrListFault (Option ℕ)
  | 0, pptr => .ok pptr
  | idx + 1, pptr => do
    match ← h.read pptr with
    | none => .ok pptr
    | some e => h.getNextptr idx (some e)

/-- `str_list_insert_at` -/
def insertAt [EntryAllocator] (h : StrList α) (idx : ℕ) (str : α) :
    Except StrListFault (StrList α) :=
  if h.len < idx then .error .assertion else do
    let e := h.fresh
    let pptr ← h.getNextptr idx none
    let tmp ← h.read pptr
    let h ← (h.alloc e str tmp).write (some e) pptr
    .ok { h with last := if tmp = none then some e else h.last, len := h.len + 1 }

/-- `str_list_remove_index` -/
def removeIndex (h : StrList α) (idx : ℕ) : Except StrListFault (StrList α × α) :=
  if h.len ≤ idx then .error .assertion else do
    let pptr ← h.getNextptr idx none
    match ← h.read pptr with
    | none => .error .null
    | some e => do
      let ret := h.str e
      let tmp ← h.read (some e)
      let h ← { h with allocated := h.allocated.erase e }.write tmp pptr
      .ok ({ h with last := if tmp = none then pptr else h.last, len := h.len - 1 }, ret)

/-- `SIMPLEQ_FOREACH`: the strings of the entries that the loop comes by. -/
def foreach (h : StrList α) : ℕ → Option ℕ → Except StrListFault (List α)
  | _, none => .ok []
  | 0, some _ => .error .endless
  | rounds + 1, some e => do
    let next ← h.read (some e)
    let strs ← h.foreach rounds next
    .ok (h.str e :: strs)

/-- A loop that takes more rounds than there are entries comes by one of them a second time. -/
def strings (h : StrList α) : Except StrListFault (List α) :=
  h.foreach h.allocated.length h.first

/-! ### The list in memory -/

/-- The list has the entries `es` with the strings `l`. -/
structure Represents (h : StrList α) (es : List ℕ) (l : List α) : Prop where
  linked : LinkedFrom h.next h.first es
  nodup : es.Nodup
  allocated : es ⊆ h.allocated
  strings : es.map h.str = l
  len : h.len = l.length
  /-- the pointer is the address of the link of the last entry, or of the first one -/
  last : h.last = es.getLast?

variable {h : StrList α} {es es₁ es₂ : List ℕ} {l l₁ l₂ : List α}

theorem getLast?_take_succ {k : ℕ} (hk : k < es.length) :
    (es.take (k + 1)).getLast? = some es[k] := by
  rw [getLast?_take, if_neg (by omega)]
  simp [getElem?_eq_getElem hk]

theorem insertIdx_eq_take_append {idx : ℕ} (hidx : idx ≤ l.length) {str : α} :
    l.insertIdx idx str = l.take idx ++ str :: l.drop idx := by
  induction l generalizing idx with
  | nil =>
    obtain rfl := Nat.le_zero.mp hidx
    rfl
  | cons a l ih =>
    cases idx with
    | zero => rfl
    | succ idx =>
      rw [insertIdx_succ_cons, ih (Nat.le_of_succ_le_succ hidx), take_succ_cons, drop_succ_cons,
        cons_append]

theorem Represents.read_eq (hr : h.Represents es l) {k : ℕ} (hk : k ≤ es.length) :
    h.read (es.take k).getLast? = .ok es[k]? := by
  cases k with
  | zero => rw [take_zero, getLast?_nil, read, hr.linked.eq_head?, head?_eq_getElem?]
  | succ k =>
    rw [getLast?_take_succ hk, read, if_pos (hr.allocated (getElem_mem hk)),
      hr.linked.next_eq (getElem?_eq_getElem hk)]

theorem Represents.getNextptr_eq (hr : h.Represents es l) {idx k : ℕ} (hk : k + idx ≤ es.length) :
    h.getNextptr idx (es.take k).getLast? = .ok (es.take (k + idx)).getLast? := by
  induction idx generalizing k with
  | zero => rfl
  | succ idx ih =>
    rw [getNextptr, hr.read_eq (by omega), getElem?_eq_getElem (by omega), ok_bind]
    refine (congrArg (h.getNextptr idx) (getLast?_take_succ (by omega)).symm).trans ?_
    rw [ih (by omega), Nat.add_right_comm, Nat.add_assoc]

theorem write_succeeds {es' : List ℕ} {link : Option ℕ}
    (hlinked : LinkedFrom h.next h.first (es₁ ++ es₂)) (hlink : LinkedFrom h.next link es')
    (hnodup : (es₁ ++ es').Nodup) (halloc : es₁ ⊆ h.allocated) :
    (h.write link es₁.getLast?).Succeeds fun h' => LinkedFrom h'.next h'.first (es₁ ++ es') ∧
      h' = { h with first := h'.first, next := h'.next } := by
  cases hlast : es₁.getLast? with
  | none =>
    obtain rfl := getLast?_eq_none_iff.mp hlast
    exact .ok ⟨hlink, rfl⟩
  | some e =>
    rw [write, if_pos (halloc (mem_of_getLast? hlast))]
    exact .ok ⟨hlinked.splice hlink hnodup hlast, rfl⟩

theorem getLast?_append_cons (es₁ es₂ : List ℕ) (e : ℕ) : (es₁ ++ e :: es₂).getLast? =
    if es₂.head? = none then some e else (es₁ ++ es₂).getLast? := by
  cases es₂ <;> simp

theorem Represents.split_strings (hr : h.Represents (es₁ ++ es₂) (l₁ ++ l₂))
    (hlen : es₁.length = l₁.length) : es₁.map h.str = l₁ ∧ es₂.map h.str = l₂ :=
  append_inj (map_append.symm.trans hr.strings) ((length_map _).trans hlen)

/-- A new entry is linked in between `es₁` and `es₂`. -/
theorem Represents.insert_succeeds (hr : h.Represents (es₁ ++ es₂) (l₁ ++ l₂))
    (hlen : es₁.length = l₁.length) {e : ℕ} (he : e ∉ h.allocated) (str : α) :
    ((h.alloc e str es₂.head?).write (some e) es₁.getLast?).Succeeds fun h' =>
      Represents { h' with
        last := if es₂.head? = none then some e else h'.last
        len := h'.len + 1 } (es₁ ++ e :: es₂) (l₁ ++ str :: l₂) := by
  have hfresh : e ∉ es₁ ++ es₂ := fun hmem => he (hr.allocated hmem)
  have hnodup : (es₁ ++ e :: es₂).Nodup := nodup_middle.mpr (nodup_cons.mpr ⟨hfresh, hr.nodup⟩)
  have hne : ∀ x ∈ es₁ ++ es₂, x ≠ e := fun x hx heq => hfresh (heq ▸ hx)
  have halloc : es₁ ++ e :: es₂ ⊆ e :: h.allocated := by
    intro x hx
    rcases mem_cons.mp (perm_middle.mem_iff.mp hx) with rfl | hx
    · exact mem_cons_self
    · exact mem_cons_of_mem e (hr.allocated hx)
  refine (write_succeeds (hr.linked.update hfresh)
    (hr.linked.of_append.push fun hmem => hfresh (mem_append_right _ hmem)) hnodup
    fun x hx => halloc (mem_append_left _ hx)).mono ?_
  rintro h' ⟨hlinked, hframe⟩
  obtain ⟨hl₁, hl₂⟩ := hr.split_strings hlen
  rw [hframe]
  refine ⟨hlinked, hnodup, halloc, ?_, ?_, ?_⟩
  · have hsame : ∀ x ∈ es₁ ++ es₂, update h.str e str x = h.str x := fun x hx =>
      update_of_ne (hne x hx) ..
    show map (update h.str e str) _ = _
    rw [map_append, map_cons, update_self,
      map_congr_left fun x hx => hsame x (mem_append_left _ hx),
      map_congr_left fun x hx => hsame x (mem_append_right _ hx), hl₁, hl₂]
  · show h.len + 1 = _
    rw [hr.len, length_append, length_append, length_cons, Nat.add_assoc]
  · rw [getLast?_append_cons, ← hr.last]
    rfl

/-- The entry between `es₁` and `es₂` is unlinked. -/
theorem Represents.remove_succeeds {e : ℕ} {str : α}
    (hr : h.Represents (es₁ ++ e :: es₂) (l₁ ++ str :: l₂)) (hlen : es₁.length = l₁.length) :
    ({ h with allocated := h.allocated.erase e }.write es₂.head? es₁.getLast?).Succeeds
      fun h' => Represents { h' with
        last := if es₂.head? = none then es₁.getLast? else h'.last
        len := h'.len - 1 } (es₁ ++ es₂) (l₁ ++ l₂) := by
  have hnodup := nodup_middle.mp hr.nodup
  have hne : ∀ x ∈ es₁ ++ es₂, x ≠ e := fun x hx heq => (nodup_cons.mp hnodup).1 (heq ▸ hx)
  have halloc : es₁ ++ es₂ ⊆ h.allocated.erase e := fun x hx =>
    (mem_erase_of_ne (hne x hx)).mpr
      (hr.allocated (perm_middle.mem_iff.mpr (mem_cons_of_mem e hx)))
  have hlinked := hr.linked
  rw [append_cons] at hlinked
  refine (write_succeeds (h := { h with allocated := h.allocated.erase e }) hr.linked
    hlinked.of_append (nodup_cons.mp hnodup).2 fun x hx => halloc (mem_append_left _ hx)).mono ?_
  rintro h' ⟨hlinked', hframe⟩
  obtain ⟨hl₁, hl₂⟩ := hr.split_strings hlen
  rw [hframe]
  refine ⟨hlinked', (nodup_cons.mp hnodup).2, halloc, ?_, ?_, ?_⟩
  · rw [← hl₁, map_append, (cons.inj hl₂).2]
  · show h.len - 1 = _
    rw [hr.len, length_append, length_append, length_cons, ← Nat.add_assoc, Nat.add_sub_cancel]
  · show (if _ then _ else h.last) = _
    rw [hr.last, getLast?_append_cons]
    cases es₂ <;> simp

theorem foreach_eq {a : Option ℕ} {rounds : ℕ} (hlinked : LinkedFrom h.next a es)
    (halloc : es ⊆ h.allocated) (hrounds : es.length ≤ rounds) :
    h.foreach rounds a = .ok (es.map h.str) := by
  induction es generalizing a rounds with
  | nil =>
    obtain rfl : a = none := hlinked
    rw [foreach, map_nil]
  | cons e es ih =>
    obtain ⟨rfl, hlinked⟩ := hlinked
    obtain ⟨he, halloc⟩ := cons_subset.mp halloc
    obtain ⟨rounds, rfl⟩ := Nat.exists_eq_succ_of_ne_zero (Nat.ne_zero_of_lt hrounds)
    rw [foreach, read, if_pos he, ok_bind, ih hlinked halloc (Nat.le_of_succ_le_succ hrounds),
      ok_bind, map_cons]

/-! ### Operations -/

section

variable (hr : h.Represents es l)
include hr

theorem Represents.length_eq : es.length = l.length := by
  rw [← hr.strings, length_map]

theorem Represents.strings_eq : h.strings = .ok l := by
  rw [← hr.strings]
  exact foreach_eq hr.linked hr.allocated (subperm_of_subset hr.nodup hr.allocated).length_le

theorem Represents.getNextptr_first {idx : ℕ} (hidx : idx ≤ es.length) :
    h.getNextptr idx none = .ok (es.take idx).getLast? := by
  have hptr := hr.getNextptr_eq ((Nat.zero_add idx).trans_le hidx)
  rwa [take_zero, getLast?_nil, Nat.zero_add] at hptr

theorem Represents.removeIndex_succeeds {idx : ℕ} (hidx : idx < l.length) :
    (h.removeIndex idx).Succeeds fun r =>
      (∃ es, r.1.Represents es (l.eraseIdx idx)) ∧ l[idx]? = some r.2 := by
  have hlen := hr.length_eq
  have hlt : idx < es.length := hlen ▸ hidx
  have hstr : h.str es[idx] = l[idx] := by
    simp only [← hr.strings, getElem_map]
  have hnext : h.read (some es[idx]) = .ok es[idx + 1]? := by
    rw [← getLast?_take_succ hlt, hr.read_eq hlt]
  rw [removeIndex, if_neg (by rw [hr.len]; omega), hr.getNextptr_first hlt.le, ok_bind,
    hr.read_eq hlt.le, getElem?_eq_getElem hlt, ok_bind]
  dsimp only
  rw [hnext, ok_bind]
  rw [← take_append_drop idx es, ← take_append_drop idx l, drop_eq_getElem_cons hlt,
    drop_eq_getElem_cons hidx] at hr
  have hrem := hr.remove_succeeds (by rw [length_take, length_take, hlen])
  rw [head?_drop] at hrem
  rw [eraseIdx_eq_take_drop_succ, getElem?_eq_getElem hidx, ← hstr]
  exact hrem.bind fun h' hr' => .ok ⟨⟨_, hr'⟩, rfl⟩

variable [EntryAllocator]

theorem Represents.insertHead_succeeds (str : α) :
    (h.insertHead str).Succeeds fun h' => ∃ es, h'.Represents es (str :: l) := by
  rw [← nil_append es, ← nil_append l] at hr
  have hins := hr.insert_succeeds rfl (EntryAllocator.address_notMem h.allocated) str
  rw [nil_append] at hr
  rw [← hr.linked.eq_head?] at hins
  exact hins.bind fun h' hr' => .ok ⟨_, hr'⟩

theorem Represents.insertTail_succeeds (str : α) :
    (h.insertTail str).Succeeds fun h' => ∃ es, h'.Represents es (l ++ [str]) := by
  rw [← append_nil es, ← append_nil l] at hr
  have hins := hr.insert_succeeds (by simpa using hr.length_eq)
    (EntryAllocator.address_notMem h.allocated) str
  rw [append_nil] at hr
  rw [← hr.last] at hins
  exact hins.bind fun h' hr' => .ok ⟨_, hr'⟩

theorem Represents.insertAt_succeeds {idx : ℕ} (hidx : idx ≤ l.length) (str : α) :
    (h.insertAt idx str).Succeeds fun h' => ∃ es, h'.Represents es (l.insertIdx idx str) := by
  have hlen := hr.length_eq
  have hle : idx ≤ es.length := hlen ▸ hidx
  rw [insertAt, if_neg (by rw [hr.len]; omega)]
  dsimp only
  rw [hr.getNextptr_first hle, ok_bind, hr.read_eq hle, ok_bind]
  rw [← take_append_drop idx es, ← take_append_drop idx l] at hr
  have hins := hr.insert_succeeds (by rw [length_take, length_take, hlen])
    (EntryAllocator.address_notMem h.allocated) str
  rw [head?_drop, ← insertIdx_eq_take_append hidx] at hins
  exact hins.bind fun h' hr' => .ok ⟨_, hr'⟩

end

/-! ### Runs -/

inductive Op (α : Type)
  | insertHead (str : α)
  | insertTail (str : α)
  | insertAt (idx : ℕ) (str : α)
  | removeIndex (idx : ℕ)

/-- The operation on a mathematical list. -/
def Op.onList (l : List α) : Op α → List α
  | insertHead str => str :: l
  | insertTail str => l ++ [str]
  | insertAt idx str => l.insertIdx idx str
  | removeIndex idx => l.eraseIdx idx

/-- The assertions, which callers respect. -/
def Op.Allowed : Op α → StrList α × List α → Prop
  | insertHead _, _ => True
  | insertTail _, _ => True
  | insertAt idx _, (h, _) => idx ≤ h.len
  | removeIndex idx, (h, _) => idx < h.len

instance : ∀ (op : Op α) (s : StrList α × List α), Decidable (op.Allowed s)
  | .insertHead _, _ => inferInstanceAs (Decidable True)
  | .insertTail _, _ => inferInstanceAs (Decidable True)
  | .insertAt idx _, (h, _) => inferInstanceAs (Decidable (idx ≤ h.len))
  | .removeIndex idx, (h, _) => inferInstanceAs (Decidable (idx < h.len))

theorem represents_init (str : ℕ → α) (next : ℕ → Option ℕ) : (init str next).Represents [] [] :=
  ⟨rfl, nodup_nil, nil_subset _, rfl, rfl, rfl⟩

section

variable [EntryAllocator]

def Op.exec (h : StrList α) : Op α → Except StrListFault (StrList α)
  | insertHead str => h.insertHead str
  | insertTail str => h.insertTail str
  | insertAt idx str => h.insertAt idx str
  | removeIndex idx => Prod.fst <$> h.removeIndex idx

def Op.run (op : Op α) (s : StrList α × List α) : Except StrListFault (StrList α × List α) := do
  let h ← op.exec s.1
  .ok (h, op.onList s.2)

theorem Represents.run_succeeds (hr : h.Represents es l) {op : Op α} (ha : op.Allowed (h, l)) :
    (op.run (h, l)).Succeeds fun s => ∃ es, s.1.Represents es s.2 := by
  have hexec : (op.exec h).Succeeds fun h' => ∃ es, h'.Represents es (op.onList l) := by
    cases op with
    | insertHead str => exact hr.insertHead_succeeds str
    | insertTail str => exact hr.insertTail_succeeds str
    | insertAt idx str => exact hr.insertAt_succeeds (hr.len ▸ ha) str
    | removeIndex idx => exact (hr.removeIndex_succeeds (hr.len ▸ ha)).bind fun r hr' => .ok hr'.1
  exact hexec.bind fun h' ⟨es, hr'⟩ => .ok ⟨es, hr'⟩

/-- **The list is a list.** After any sequence of operations on an empty list, the entries in memory
have the strings of the mathematical list, `len` is its length, and the pointer for the next entry
is the address of the link of the last one. The next operation returns as well, and what is removed
is the string of the index. -/
theorem reaches_represents {str : ℕ → α} {next : ℕ → Option ℕ}
    (hreach : Reaches Op.run Op.Allowed (init str next, []) (h, l)) :
    (∃ es, h.Represents es l) ∧ h.strings = .ok l ∧
    (∀ op : Op α, op.Allowed (h, l) → ∃ s, op.run (h, l) = .ok s) ∧
    ∀ idx < h.len, (h.removeIndex idx).Succeeds fun r => l[idx]? = some r.2 := by
  obtain ⟨es, hr⟩ : ∃ es, h.Represents es l := by
    refine hreach.invariant (I := fun s => ∃ es, s.1.Represents es s.2)
      ⟨[], represents_init str next⟩ ?_
    rintro op ⟨h, l⟩ ha ⟨es, hr⟩
    exact (hr.run_succeeds ha).yields
  refine ⟨⟨es, hr⟩, hr.strings_eq, fun op ha => ?_, fun idx hidx => ?_⟩
  · obtain ⟨s, hs, -⟩ := hr.run_succeeds ha
    exact ⟨s, hs⟩
  · exact (hr.removeIndex_succeeds (hr.len ▸ hidx)).mono fun r hr' => hr'.2

end

/-- The last entry is removed, and one is inserted behind the new last one. -/
theorem reaches_represents_tail : ∃ h : StrList Char,
    Reaches Op.run Op.Allowed (init (fun _ => '?') fun _ => none, []) (h, ['c', 'a', 'd']) ∧
    (∃ es, h.Represents es ['c', 'a', 'd']) ∧ h.strings = .ok ['c', 'a', 'd'] := by
  obtain ⟨⟨h, l⟩, hreach, hl⟩ := exists_reaches Op.run Op.Allowed
    (init (fun _ => '?') fun _ => none, [])
    [.insertTail 'a', .insertAt 1 'b', .insertHead 'c', .removeIndex 2, .insertTail 'd']
    (P := fun s => s.2 = ['c', 'a', 'd']) (by decide)
  obtain rfl : l = ['c', 'a', 'd'] := hl
  have hrep := reaches_represents hreach
  exact ⟨h, hreach, hrep.1, hrep.2.1⟩

end StrList

end Mpd
