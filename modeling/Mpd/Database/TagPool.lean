import Mathlib.Algebra.Ring.Int.Defs
import Mathlib.Algebra.Ring.Nat
import Mathlib.Data.List.Count
import Mpd.Database.Node
import Mpd.General.Runs

/-!
# The pool of tag items

`tag_pool.c` keeps one copy of equal tag items, and counts the references to it in a byte. A copy
with 255 references gets no more of them: another copy is made then. The copies are in 4096 chains,
by a hash of type and value.

`heap` is what is in allocated memory, and `slots` are the chains as lists of addresses. The
addresses that `malloc` returns are chosen by the environment. The callers' references are kept as
a history, with the type and value that were asked for.

`slot_alloc` takes the length of a value as an `int`. As long as no value has 2^31 bytes or more,
every reference finds its type and value, every counter is right, and what is given back is found in
its chain (`along_accounted_iff`).
-/

namespace Mpd

open List Function

namespace TagPool

inductive Fault
  /-- memory is used that is not allocated -/
  | noSlot
  /-- the assertion that a slot has references -/
  | noReference
  /-- the assertion that a slot is in its chain -/
  | notInChain
  /-- memory of a negative size -/
  | badLength
  deriving DecidableEq, Repr

/-- `struct slot`, without the link of its chain. The value is followed by a NUL. -/
structure Slot where
  ref : UInt8
  type : TagType
  value : Text
  deriving DecidableEq

structure Pool where
  heap : Address → Option Slot
  slots : ℕ → List Address

/-! ### The source -/

section Source

/- How a `char` becomes an `unsigned` is up to the compiler. -/
variable (widen : Char → UInt32)

def hashStep (hash : UInt32) (c : Char) : UInt32 :=
  (hash <<< 5) + hash + widen c

def calcHashN (type : TagType) (p : Text) (length : ℕ) : UInt32 :=
  (p.take length).foldl (hashStep widen) 5381 ^^^ UInt32.ofNat type.ctorIdx

def calcHash (type : TagType) (p : Text) : UInt32 :=
  (Text.beforeNul p).foldl (hashStep widen) 5381 ^^^ UInt32.ofNat type.ctorIdx

def chainOf (hash : UInt32) : ℕ :=
  hash.toNat % 4096

def intOfSize (n : ℕ) : ℤ :=
  Int.bmod n (2 ^ 32)

namespace Pool

variable (p : Pool)

def setRef (a : Address) (slot : Slot) (ref : UInt8) : Pool :=
  { p with heap := update p.heap a (some { slot with ref := ref }) }

def slotAlloc (chain : ℕ) (type : TagType) (value : Text) (fresh : Address) :
    Except Fault (Address × Pool) :=
  let length := intOfSize value.length
  if length < 0 then .error .badLength
  else
    .ok (fresh,
      { heap := update p.heap fresh (some ⟨1, type, value.take length.toNat⟩)
        slots := update p.slots chain (fresh :: p.slots chain) })

def search (type : TagType) (value : Text) : List Address → Except Fault (Option (Address × Slot))
  | [] => .ok none
  | a :: chain =>
    match p.heap a with
    | none => .error .noSlot
    | some slot =>
      if slot.type = type ∧ value.length = (Text.beforeNul slot.value).length ∧
          value = slot.value.take value.length ∧ slot.ref < 0xff then
        if slot.ref = 0 then .error .noReference else .ok (some (a, slot))
      else search type value chain

def getItem (type : TagType) (value : Text) (fresh : Address) : Except Fault (Address × Pool) := do
  let chain := chainOf (calcHashN widen type value value.length)
  match ← p.search type value (p.slots chain) with
  | some (a, slot) => .ok (a, p.setRef a slot (slot.ref + 1))
  | none => p.slotAlloc chain type value fresh

def dupItem (item fresh : Address) : Except Fault (Address × Pool) :=
  match p.heap item with
  | none => .error .noSlot
  | some slot =>
    if slot.ref = 0 then .error .noReference
    else if slot.ref < 0xff then .ok (item, p.setRef item slot (slot.ref + 1))
    else
      -- the reference counter overflows above 0xff; duplicate the item, and start with 1
      let value := Text.beforeNul slot.value
      p.slotAlloc (chainOf (calcHashN widen slot.type value value.length)) slot.type value fresh

def unlink (a : Address) : List Address → Except Fault (List Address)
  | [] => .error .notInChain
  | b :: chain =>
    if b = a then .ok chain
    else do
      let chain ← unlink a chain
      .ok (b :: chain)

def putItem (item : Address) : Except Fault Pool :=
  match p.heap item with
  | none => .error .noSlot
  | some slot =>
    if slot.ref = 0 then .error .noReference
    else if 0 < slot.ref - 1 then .ok (p.setRef item slot (slot.ref - 1))
    else do
      let chain := chainOf (calcHash widen slot.type slot.value)
      let rest ← unlink item (p.slots chain)
      .ok
        { heap := update p.heap item none
          slots := update p.slots chain rest }

end Pool

/-! ### The callers -/

/-- A reference, with the type and value that were asked for. -/
structure Ref where
  item : Address
  type : TagType
  value : Text
  deriving DecidableEq

/-- The pool, and the references that are held. -/
structure State where
  pool : Pool
  held : List Ref

def State.init : State where
  pool := ⟨fun _ => none, fun _ => []⟩
  held := []

inductive Call
  | get (type : TagType) (value : Text) (fresh : Address)
  | dup (ref : Ref) (fresh : Address)
  | put (ref : Ref)

namespace Call

def run : Call → State → Except Fault State
  | get type value fresh, s => do
    let (item, pool) ← s.pool.getItem widen type value fresh
    .ok ⟨pool, ⟨item, type, value⟩ :: s.held⟩
  | dup ref fresh, s => do
    let (item, pool) ← s.pool.dupItem widen ref.item fresh
    .ok ⟨pool, ⟨item, ref.type, ref.value⟩ :: s.held⟩
  | put ref, s => do
    let pool ← s.pool.putItem widen ref.item
    .ok ⟨pool, s.held.erase ref⟩

/-- The reference is held, and new memory is free. -/
def Proper : Call → State → Prop
  | get _ value fresh, s => '\x00' ∉ value ∧ s.pool.heap fresh = none
  | dup ref fresh, s => ref ∈ s.held ∧ s.pool.heap fresh = none
  | put ref, s => ref ∈ s.held

instance (call : Call) (s : State) : Decidable (Proper call s) := by
  rcases call <;> dsimp only [Proper] <;> infer_instance

/-- The length of the value is an `int`. -/
def Fits : Call → Prop
  | get _ value _ => value.length < 2 ^ 31
  | dup _ _ | put _ => True

instance : DecidablePred Fits
  | get _ _ _ => inferInstanceAs (Decidable (_ < _))
  | dup _ _ | put _ => inferInstanceAs (Decidable True)

end Call

def State.references (s : State) (a : Address) : ℕ :=
  (s.held.map Ref.item).count a

/-- What is expected of the pool: every reference finds the type and value that were asked for,
every counter is right, every slot is in the chain in which it is looked for when its last reference
is given back, and nothing is left without references. -/
structure Accounted (s : State) : Prop where
  held : ∀ ref ∈ s.held, ∃ slot, s.pool.heap ref.item = some slot ∧ slot.type = ref.type ∧
    slot.value = ref.value
  counted : ∀ a slot, s.pool.heap a = some slot → slot.ref.toNat = s.references a ∧
    1 ≤ slot.ref.toNat ∧ slot.ref.toNat ≤ 255
  found : ∀ a slot, s.pool.heap a = some slot →
    a ∈ s.pool.slots (chainOf (calcHash widen slot.type slot.value))
  empty : s.held = [] → (∀ a, s.pool.heap a = none) ∧ ∀ chain, s.pool.slots chain = []

end Source

/-! ### The invariant -/

variable {widen : Char → UInt32} {p : Pool} {s : State} {a fresh : Address} {slot : Slot}
  {type : TagType} {value : Text} {ref : Ref}

theorem calcHashN_eq (h : '\x00' ∉ value) :
    calcHashN widen type value value.length = calcHash widen type value := by
  rw [calcHashN, calcHash, take_length, Text.beforeNul_eq_self h]

variable (widen) in
def Slot.chain (slot : Slot) : ℕ :=
  chainOf (calcHash widen slot.type slot.value)

variable (widen) in
/-- The chains are made up of the slots, each in its own one, and the slots are those to which
references are held. -/
structure Sound (s : State) : Prop where
  held : ∀ ref ∈ s.held, ∃ slot, s.pool.heap ref.item = some slot ∧ slot.type = ref.type ∧
    slot.value = ref.value
  counted : ∀ a slot, s.pool.heap a = some slot → slot.ref.toNat = s.references a
  referenced : ∀ a slot, s.pool.heap a = some slot → 0 < slot.ref.toNat
  chained : ∀ chain a, a ∈ s.pool.slots chain ↔
    ∃ slot, s.pool.heap a = some slot ∧ slot.chain widen = chain
  nodup : ∀ chain, (s.pool.slots chain).Nodup
  nul : ∀ a slot, s.pool.heap a = some slot → '\x00' ∉ slot.value
  fits : ∀ a slot, s.pool.heap a = some slot → slot.value.length < 2 ^ 31

theorem Sound.init : Sound widen State.init where
  held _ h := nomatch h
  counted _ _ h := nomatch h
  referenced _ _ h := nomatch h
  chained _ _ := ⟨(fun h => nomatch h), fun ⟨_, h, _⟩ => nomatch h⟩
  nodup _ := .nil
  nul _ _ h := nomatch h
  fits _ _ h := nomatch h

section

variable (h : Sound widen s) (ha : s.pool.heap a = some slot)
include h ha

theorem Sound.references_pos : 0 < s.references a := by
  rw [← h.counted a slot ha]
  exact h.referenced a slot ha

theorem Sound.ref_ne_zero : slot.ref ≠ 0 := by
  intro hzero
  have hpos := h.referenced a slot ha
  rw [hzero] at hpos
  exact absurd hpos (Nat.lt_irrefl 0)

theorem Sound.toNat_ref_sub_one : (slot.ref - 1).toNat = slot.ref.toNat - 1 :=
  UInt8.toNat_sub_of_le _ _ (UInt8.le_iff_toNat_le.mpr (h.referenced a slot ha))

end

theorem Sound.accounted (h : Sound widen s) : Accounted widen s where
  held := h.held
  counted a slot ha := ⟨h.counted a slot ha, h.referenced a slot ha, Nat.le_of_lt_succ
    slot.ref.toNat_lt⟩
  found a slot ha := (h.chained _ a).mpr ⟨slot, ha, rfl⟩
  empty hheld := by
    have hheap : ∀ a, s.pool.heap a = none := by
      intro a
      by_contra hne
      obtain ⟨slot, ha⟩ := Option.ne_none_iff_exists'.mp hne
      have hpos := h.references_pos ha
      rw [State.references, hheld] at hpos
      exact absurd hpos (Nat.lt_irrefl 0)
    refine ⟨hheap, fun chain => eq_nil_iff_forall_not_mem.mpr fun a ha => ?_⟩
    obtain ⟨slot, hslot, -⟩ := (h.chained chain a).mp ha
    rw [hheap a] at hslot
    cases hslot

/-! ### Searching -/

theorem Sound.search_succeeds (h : Sound widen s) (type : TagType) (value : Text)
    {chain : List Address}
    (hchain : ∀ a ∈ chain, ∃ slot, s.pool.heap a = some slot) :
    (s.pool.search type value chain).Succeeds fun r => ∀ a slot, r = some (a, slot) →
      s.pool.heap a = some slot ∧ slot.type = type ∧ slot.value = value ∧ slot.ref < 0xff := by
  induction chain with
  | nil => exact .ok fun a slot hr => nomatch hr
  | cons a chain ih =>
    rw [forall_mem_cons] at hchain
    obtain ⟨⟨slot, ha⟩, hchain⟩ := hchain
    simp only [Pool.search, ha]
    refine .ite ?_ fun _ => ih hchain
    rintro ⟨htype, hlength, hvalue, hlt⟩
    rw [if_neg (h.ref_ne_zero ha), Except.succeeds_ok]
    rintro _ _ ⟨⟩
    refine ⟨ha, htype, ?_, hlt⟩
    rw [Text.beforeNul_eq_self (h.nul a slot ha)] at hlength
    rw [hlength, take_length] at hvalue
    exact hvalue.symm

theorem unlink_eq {chain : List Address} (h : a ∈ chain) :
    Pool.unlink a chain = .ok (chain.erase a) := by
  induction chain with
  | nil => cases h
  | cons b chain ih =>
    rw [Pool.unlink, erase_cons]
    by_cases hb : b = a
    · rw [if_pos hb, if_pos (beq_iff_eq.mpr hb)]
    · have ha : a ∈ chain := (mem_cons.mp h).resolve_left (Ne.symm hb)
      rw [if_neg hb, if_neg (fun heq => hb (beq_iff_eq.mp heq)), ih ha]
      rfl

/-! ### Another reference, or one less -/

theorem update_eq_some_iff {heap : Address → Option Slot} {b : Address} {slot' : Slot} :
    update heap a (some slot) b = some slot' ↔
      b = a ∧ slot' = slot ∨ b ≠ a ∧ heap b = some slot' := by
  rw [update_apply]
  split
  · next hb =>
    rw [Option.some.injEq]
    exact ⟨fun h => .inl ⟨hb, h.symm⟩, fun h => (h.resolve_right fun h => h.1 hb).2.symm⟩
  · next hb => exact ⟨fun h => .inr ⟨hb, h⟩, fun h => (h.resolve_left fun h => hb h.1).2⟩

theorem heap_setRef {b : Address} {slot' : Slot} {r : UInt8} :
    (p.setRef a slot r).heap b = some slot' ↔
      b = a ∧ slot' = { slot with ref := r } ∨ b ≠ a ∧ p.heap b = some slot' :=
  update_eq_some_iff

theorem Sound.setRef (h : Sound widen s) (ha : s.pool.heap a = some slot) {r : UInt8}
    {held : List Ref} (hr : 0 < r.toNat)
    (hheld : ∀ ref ∈ held, ref ∈ s.held ∨
      ref.item = a ∧ ref.type = slot.type ∧ ref.value = slot.value)
    (hcount : ∀ b, (held.map Ref.item).count b = if b = a then r.toNat else s.references b) :
    Sound widen ⟨s.pool.setRef a slot r, held⟩ where
  held ref href := by
    by_cases hitem : ref.item = a
    · refine ⟨{ slot with ref := r }, heap_setRef.mpr (.inl ⟨hitem, rfl⟩), ?_⟩
      obtain href | ⟨-, htype, hvalue⟩ := hheld ref href
      · obtain ⟨slot', hslot', hcontents⟩ := h.held ref href
        obtain rfl : slot = slot' := Option.some.inj (ha.symm.trans (hitem ▸ hslot'))
        exact hcontents
      · exact ⟨htype.symm, hvalue.symm⟩
    · obtain ⟨slot', hslot', hcontents⟩ :=
        h.held ref ((hheld ref href).resolve_right fun hnew => hitem hnew.1)
      exact ⟨slot', heap_setRef.mpr (.inr ⟨hitem, hslot'⟩), hcontents⟩
  counted b slot' hb := by
    rw [State.references, hcount]
    obtain ⟨rfl, rfl⟩ | ⟨hne, hb⟩ := heap_setRef.mp hb
    · rw [if_pos rfl]
    · rw [if_neg hne, h.counted b slot' hb]
  referenced b slot' hb := by
    obtain ⟨rfl, rfl⟩ | ⟨-, hb⟩ := heap_setRef.mp hb
    · exact hr
    · exact h.referenced b slot' hb
  chained chain b := by
    refine (h.chained chain b).trans ?_
    constructor
    · rintro ⟨slot', hb, hchain⟩
      by_cases hne : b = a
      · obtain rfl : slot = slot' := Option.some.inj (ha.symm.trans (hne ▸ hb))
        exact ⟨_, heap_setRef.mpr (.inl ⟨hne, rfl⟩), hchain⟩
      · exact ⟨slot', heap_setRef.mpr (.inr ⟨hne, hb⟩), hchain⟩
    · rintro ⟨slot', hb, hchain⟩
      obtain ⟨rfl, rfl⟩ | ⟨-, hb⟩ := heap_setRef.mp hb
      · exact ⟨slot, ha, hchain⟩
      · exact ⟨slot', hb, hchain⟩
  nodup := h.nodup
  nul b slot' hb := by
    obtain ⟨rfl, rfl⟩ | ⟨-, hb⟩ := heap_setRef.mp hb
    · exact h.nul b slot ha
    · exact h.nul b slot' hb
  fits b slot' hb := by
    obtain ⟨rfl, rfl⟩ | ⟨-, hb⟩ := heap_setRef.mp hb
    · exact h.fits b slot ha
    · exact h.fits b slot' hb

theorem Sound.retain (h : Sound widen s) (ha : s.pool.heap a = some slot) (hlt : slot.ref < 0xff) :
    Sound widen ⟨s.pool.setRef a slot (slot.ref + 1),
      ⟨a, slot.type, slot.value⟩ :: s.held⟩ := by
  have hlt' : slot.ref.toNat < 255 := UInt8.lt_iff_toNat_lt.mp hlt
  have hr : (slot.ref + 1).toNat = slot.ref.toNat + 1 := by
    exact Nat.mod_eq_of_lt (Nat.succ_lt_succ hlt')
  refine h.setRef ha (hr ▸ Nat.succ_pos _) ?_ fun b => ?_
  · intro ref href
    obtain rfl | href := mem_cons.mp href
    · exact .inr ⟨rfl, rfl, rfl⟩
    · exact .inl href
  · rw [map_cons, count_cons, ← State.references, hr]
    by_cases hb : b = a
    · rw [if_pos hb, hb, if_pos (beq_self_eq_true a), h.counted a slot ha]
    · rw [if_neg hb, if_neg (fun heq => hb (beq_iff_eq.mp heq).symm), Nat.add_zero]

theorem count_erase (href : ref ∈ s.held) (b : Address) : s.references b =
      ((s.held.erase ref).map Ref.item).count b + if b = ref.item then 1 else 0 := by
  rw [State.references, ((perm_cons_erase href).map Ref.item).count_eq, map_cons, count_cons]
  simp only [beq_iff_eq, eq_comm (a := b)]

theorem Sound.release (h : Sound widen s) (href : ref ∈ s.held)
    (ha : s.pool.heap ref.item = some slot) (hpos : 0 < slot.ref - 1) :
    Sound widen ⟨s.pool.setRef ref.item slot (slot.ref - 1), s.held.erase ref⟩ := by
  refine h.setRef ha (UInt8.lt_iff_toNat_lt.mp hpos) ?_ fun b => ?_
  · exact fun ref' href' => .inl (mem_of_mem_erase href')
  · have hcount := count_erase href b
    by_cases hb : b = ref.item
    · rw [if_pos hb] at hcount ⊢
      rw [h.toNat_ref_sub_one ha, h.counted _ _ ha, ← hb, hcount, Nat.add_sub_cancel]
    · rw [if_neg hb] at hcount ⊢
      rw [hcount, Nat.add_zero]

/-! ### A new slot, and one that is freed -/

def Pool.insert (p : Pool) (chain : ℕ) (fresh : Address) (slot : Slot) : Pool where
  heap := update p.heap fresh (some slot)
  slots := update p.slots chain (fresh :: p.slots chain)

theorem slotAlloc_eq (hlength : value.length < 2 ^ 31) {chain : ℕ} :
    p.slotAlloc chain type value fresh = .ok (fresh, p.insert chain fresh ⟨1, type, value⟩) := by
  have hint : intOfSize value.length = value.length :=
    Int.bmod_eq_of_le (by omega) (by omega)
  have hnonneg : ¬ (value.length : ℤ) < 0 := Int.not_lt.mpr (Int.natCast_nonneg _)
  simp only [Pool.slotAlloc, hint, if_neg hnonneg, Int.toNat_natCast, take_length]
  rfl

theorem heap_insert {b : Address} {slot' : Slot} {chain : ℕ} :
    (p.insert chain a slot).heap b = some slot' ↔
      b = a ∧ slot' = slot ∨ b ≠ a ∧ p.heap b = some slot' :=
  update_eq_some_iff

theorem mem_slots_insert {b : Address} {chain chain' : ℕ} :
    b ∈ (p.insert chain a slot).slots chain' ↔
      b = a ∧ chain' = chain ∨ b ∈ p.slots chain' := by
  simp only [Pool.insert, update_apply]
  split
  · next hchain => simp [hchain]
  · next hchain => simp [hchain]

theorem Sound.insert (h : Sound widen s) (hfresh : s.pool.heap fresh = none)
    (hnul : '\x00' ∉ value) (hfits : value.length < 2 ^ 31) {chain : ℕ}
    (hchain : chain = Slot.chain widen ⟨1, type, value⟩) :
    Sound widen ⟨s.pool.insert chain fresh ⟨1, type, value⟩, ⟨fresh, type, value⟩ :: s.held⟩ := by
  have hnotMem : ∀ chain, fresh ∉ s.pool.slots chain := by
    intro chain hmem
    obtain ⟨slot, hslot, -⟩ := (h.chained chain fresh).mp hmem
    rw [hfresh] at hslot
    cases hslot
  have hheld : ∀ ref ∈ s.held, ref.item ≠ fresh := by
    rintro ref href rfl
    obtain ⟨slot, hslot, -⟩ := h.held ref href
    rw [hfresh] at hslot
    cases hslot
  have hold : ∀ b slot, s.pool.heap b = some slot → b ≠ fresh := by
    rintro b slot hb rfl
    rw [hfresh] at hb
    cases hb
  have hzero : s.references fresh = 0 := by
    rw [State.references, count_eq_zero, mem_map]
    rintro ⟨ref, href, hitem⟩
    exact hheld ref href hitem
  constructor
  · intro ref href
    obtain rfl | href := mem_cons.mp href
    · exact ⟨_, heap_insert.mpr (.inl ⟨rfl, rfl⟩), rfl, rfl⟩
    · obtain ⟨slot, hslot, hcontents⟩ := h.held ref href
      exact ⟨slot, heap_insert.mpr (.inr ⟨hheld ref href, hslot⟩), hcontents⟩
  · intro b slot hb
    rw [State.references, map_cons, count_cons, ← State.references]
    obtain ⟨rfl, rfl⟩ | ⟨hne, hb⟩ := heap_insert.mp hb
    · rw [hzero, if_pos (beq_self_eq_true b)]
      rfl
    · rw [if_neg (fun heq => hne (beq_iff_eq.mp heq).symm), h.counted b slot hb, Nat.add_zero]
  · intro b slot hb
    obtain ⟨-, rfl⟩ | ⟨-, hb⟩ := heap_insert.mp hb
    · exact Nat.one_pos
    · exact h.referenced b slot hb
  · intro chain' b
    rw [mem_slots_insert, h.chained chain' b]
    constructor
    · rintro (⟨rfl, rfl⟩ | ⟨slot, hb, hslot⟩)
      · exact ⟨_, heap_insert.mpr (.inl ⟨rfl, rfl⟩), hchain.symm⟩
      · exact ⟨slot, heap_insert.mpr (.inr ⟨hold b slot hb, hb⟩), hslot⟩
    · rintro ⟨slot, hb, hslot⟩
      obtain ⟨rfl, rfl⟩ | ⟨-, hb⟩ := heap_insert.mp hb
      · exact .inl ⟨rfl, hslot.symm.trans hchain.symm⟩
      · exact .inr ⟨slot, hb, hslot⟩
  · intro chain'
    simp only [Pool.insert, update_apply]
    split
    · exact nodup_cons.mpr ⟨hnotMem chain, h.nodup chain⟩
    · exact h.nodup chain'
  · intro b slot hb
    obtain ⟨-, rfl⟩ | ⟨-, hb⟩ := heap_insert.mp hb
    · exact hnul
    · exact h.nul b slot hb
  · intro b slot hb
    obtain ⟨-, rfl⟩ | ⟨-, hb⟩ := heap_insert.mp hb
    · exact hfits
    · exact h.fits b slot hb

def Pool.remove (p : Pool) (chain : ℕ) (a : Address) : Pool where
  heap := update p.heap a none
  slots := update p.slots chain ((p.slots chain).erase a)

theorem heap_remove {b : Address} {slot' : Slot} {chain : ℕ} :
    (p.remove chain a).heap b = some slot' ↔ b ≠ a ∧ p.heap b = some slot' := by
  simp only [Pool.remove, update_apply]
  split
  · next hb => exact ⟨(fun h => nomatch h), fun h => absurd hb h.1⟩
  · next hb => exact ⟨fun h => ⟨hb, h⟩, fun h => h.2⟩

theorem Sound.remove (h : Sound widen s) (href : ref ∈ s.held)
    (ha : s.pool.heap ref.item = some slot) (hone : slot.ref.toNat = 1) :
    Sound widen ⟨s.pool.remove (slot.chain widen) ref.item, s.held.erase ref⟩ := by
  have hlast : ∀ ref' ∈ s.held.erase ref, ref'.item ≠ ref.item := by
    intro ref' href' hitem
    have hcount := count_erase href ref.item
    rw [if_pos rfl, ← h.counted _ _ ha, hone] at hcount
    have hzero : ((s.held.erase ref).map Ref.item).count ref.item = 0 := by omega
    exact count_eq_zero.mp hzero (mem_map.mpr ⟨ref', href', hitem⟩)
  constructor
  · intro ref' href'
    obtain ⟨slot', hslot', hcontents⟩ := h.held ref' (mem_of_mem_erase href')
    exact ⟨slot', heap_remove.mpr ⟨hlast ref' href', hslot'⟩, hcontents⟩
  · intro b slot' hb
    obtain ⟨hne, hb⟩ := heap_remove.mp hb
    rw [h.counted b slot' hb, count_erase href b, if_neg hne]
    rfl
  · intro b slot' hb
    exact h.referenced b slot' (heap_remove.mp hb).2
  · intro chain b
    have hmem : b ∈ (s.pool.remove (slot.chain widen) ref.item).slots chain ↔
        b ≠ ref.item ∧ b ∈ s.pool.slots chain := by
      simp only [Pool.remove, update_apply]
      split
      · next hchain => rw [hchain, (h.nodup _).mem_erase_iff]
      · next hchain =>
        refine ⟨fun hb => ⟨?_, hb⟩, fun hb => hb.2⟩
        rintro rfl
        obtain ⟨slot', hslot', rfl⟩ := (h.chained chain _).mp hb
        exact hchain (congrArg _ (Option.some.inj (hslot'.symm.trans ha)))
    rw [hmem, h.chained chain b]
    simp only [heap_remove, and_assoc, exists_and_left]
  · intro chain
    simp only [Pool.remove, update_apply]
    split
    · exact (h.nodup _).erase _
    · exact h.nodup chain
  · intro b slot' hb
    exact h.nul b slot' (heap_remove.mp hb).2
  · intro b slot' hb
    exact h.fits b slot' (heap_remove.mp hb).2

/-! ### The calls -/

theorem Sound.live_of_mem_slots (h : Sound widen s) (chain : ℕ) :
    ∀ a ∈ s.pool.slots chain, ∃ slot, s.pool.heap a = some slot := by
  intro a ha
  obtain ⟨slot, hslot, -⟩ := (h.chained chain a).mp ha
  exact ⟨slot, hslot⟩

theorem Sound.get (h : Sound widen s) (hnul : '\x00' ∉ value) (hfresh : s.pool.heap fresh = none)
    (hfits : value.length < 2 ^ 31) :
    ((Call.get type value fresh).run widen s).Succeeds (Sound widen) := by
  refine .bind ?_ fun r hr => .ok hr
  refine (h.search_succeeds type value (h.live_of_mem_slots _)).bind fun r hr => ?_
  cases r with
  | none =>
    rw [slotAlloc_eq hfits]
    exact .ok (h.insert hfresh hnul hfits (by rw [calcHashN_eq hnul]; rfl))
  | some r =>
    obtain ⟨ha, rfl, rfl, hlt⟩ := hr _ _ rfl
    exact .ok (h.retain ha hlt)

theorem Sound.dup (h : Sound widen s) (href : ref ∈ s.held) (hfresh : s.pool.heap fresh = none) :
    ((Call.dup ref fresh).run widen s).Succeeds (Sound widen) := by
  obtain ⟨slot, ha, htype, hvalue⟩ := h.held ref href
  have hnul := h.nul _ slot ha
  refine .bind ?_ fun r hr => .ok hr
  simp only [Pool.dupItem, ha, if_neg (h.ref_ne_zero ha)]
  refine .ite (fun hlt => ?_) fun _ => ?_
  · rw [← htype, ← hvalue]
    exact .ok (h.retain ha hlt)
  · rw [Text.beforeNul_eq_self hnul, slotAlloc_eq (h.fits _ slot ha), Except.succeeds_ok, ← htype,
      ← hvalue]
    exact h.insert hfresh hnul (h.fits _ slot ha) (by rw [calcHashN_eq hnul]; rfl)

theorem Sound.put (h : Sound widen s) (href : ref ∈ s.held) :
    ((Call.put ref).run widen s).Succeeds (Sound widen) := by
  obtain ⟨slot, ha, -⟩ := h.held ref href
  refine .bind ?_ fun r hr => .ok hr
  simp only [Pool.putItem, ha, if_neg (h.ref_ne_zero ha)]
  refine .ite (fun hmore => ?_) fun hlast => ?_
  · exact .ok (h.release href ha hmore)
  · have hone : slot.ref.toNat = 1 := by
      have hpos := h.referenced _ slot ha
      have hsub := h.toNat_ref_sub_one ha
      have hle : ¬ 0 < (slot.ref - 1).toNat := fun hlt => hlast (UInt8.lt_iff_toNat_lt.mpr hlt)
      omega
    -- it is found in the chain that its hash selects
    have hmem : ref.item ∈ s.pool.slots (slot.chain widen) := (h.chained _ _).mpr ⟨slot, ha, rfl⟩
    rw [← Slot.chain, unlink_eq hmem]
    exact .ok (h.remove href ha hone)

theorem intOfSize_lt (n : ℕ) : intOfSize n < 2 ^ 31 := by
  have hlt : intOfSize n < ((2 ^ 32 : ℕ) + 1) / 2 := Int.bmod_lt (by decide)
  exact hlt.trans_eq (by decide)

theorem Sound.get_of_not_fits (h : Sound widen s) (hfits : ¬ value.length < 2 ^ 31) :
    ¬ ((Call.get type value fresh).run widen s).Succeeds (Accounted widen) := by
  intro hrun
  obtain ⟨⟨item, pool⟩, hget, hheld⟩ := Except.Succeeds.of_bind hrun
  obtain ⟨slot, hslot, -, hvalue⟩ := (Except.succeeds_ok.mp hheld).held _ mem_cons_self
  obtain ⟨r, hr, hspec⟩ := h.search_succeeds type value
    (h.live_of_mem_slots (chainOf (calcHashN widen type value value.length)))
  rw [Pool.getItem, hr, Except.ok_bind] at hget
  cases r with
  | some r =>
    obtain ⟨ha, -, rfl, -⟩ := hspec _ _ rfl
    exact hfits (h.fits _ _ ha)
  | none =>
    simp only [Pool.slotAlloc] at hget
    split at hget
    · cases hget
    · cases hget
      dsimp only at hslot hvalue
      rw [update_self] at hslot
      obtain rfl := Option.some.inj hslot
      simp only [take_eq_self_iff] at hvalue
      have hlt := intOfSize_lt value.length
      omega

variable (widen) in
/-- **The pool accounts for its references** all along a sequence of calls if and only if the
length of every value that is asked for fits into an `int`. -/
theorem along_accounted_iff {calls : List Call}
    (h : Follows (Call.run widen) Call.Proper calls State.init) :
    Along (Call.run widen) (Accounted widen) calls State.init ↔ ∀ call ∈ calls, call.Fits := by
  refine along_iff (fun s hs => hs.accounted) ?_ ?_ Sound.init h
  · intro call s hproper hs hfits
    cases call with
    | get type value fresh => exact hs.get hproper.1 hproper.2 hfits
    | dup ref fresh => exact hs.dup hproper.1 hproper.2
    | put ref => exact hs.put hproper
  · intro call s hproper hs hfits
    cases call with
    | get type value fresh => exact hs.get_of_not_fits hfits
    | dup ref fresh => exact absurd trivial hfits
    | put ref => exact absurd trivial hfits

def widenUnsigned (c : Char) : UInt32 :=
  UInt32.ofNat c.toNat

theorem along_accounted_shared :
    let shared : Ref := ⟨0, .artist, "a".toList⟩
    Along (Call.run widenUnsigned) (Accounted widenUnsigned)
      [.get .artist "a".toList 0, .get .artist "a".toList 1, .dup shared 1,
        .get .title "b".toList 1, .put shared, .put shared, .put shared] State.init :=
  (along_accounted_iff widenUnsigned (by decide)).mpr (by decide)

theorem not_along_accounted_long :
    let call := Call.get .artist (replicate (2 ^ 32) 'a') 0
    Follows (Call.run widenUnsigned) Call.Proper [call] State.init ∧
      ((call.run widenUnsigned State.init).Succeeds fun s =>
        s.pool.heap 0 = some ⟨1, .artist, []⟩) ∧
      ¬ Along (Call.run widenUnsigned) (Accounted widenUnsigned) [call] State.init := by
  have hlength : (replicate (2 ^ 32) 'a').length = 2 ^ 32 := length_replicate
  have hnul : '\x00' ∉ replicate (2 ^ 32) 'a' := by
    intro hmem
    exact absurd (eq_of_mem_replicate hmem) (by decide)
  generalize replicate (2 ^ 32) 'a' = value at hlength hnul
  refine ⟨⟨⟨hnul, rfl⟩, fun _ _ => trivial⟩, ?_, fun halong => ?_⟩
  · have hzero : intOfSize value.length = 0 := by
      rw [hlength]
      decide
    simp [Call.run, Pool.getItem, Pool.search, State.init, Pool.slotAlloc, hzero]
  · have hfits : ¬ value.length < 2 ^ 31 := by
      rw [hlength]
      decide
    exact Sound.init.get_of_not_fits hfits (halong.2.mono fun _ ht => ht.start)

end TagPool

end Mpd
