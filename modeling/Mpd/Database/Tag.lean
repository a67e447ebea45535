import Mpd.Database.Locate

/-!
# Tags

`tag.c`: the tag of a song, and adding an item to it. The value of an item is text in UTF-8 without
control characters: what a decoder passes is repaired first (`fixTagValue`). A value that has been
repaired needs no repair (`cleanValue_fixTagValue`).

What is valid UTF-8, and converting from ISO-8859-1, is left to GLib.
-/

namespace Text

def isAscii (c : Char) : Bool :=
  c ≠ '\x00' && c.toNat < 128

theorem length_beforeNul_eq_iff {s : Text} : (beforeNul s).length = s.length ↔ '\x00' ∉ s := by
  constructor
  · intro h hnul
    have heq : beforeNul s = s := (List.takeWhile_prefix _).eq_of_length h
    have hall := List.takeWhile_eq_self_iff.mp heq '\x00' hnul
    cases hall
  · intro h
    rw [beforeNul_eq_self h]

end Text

namespace Mpd

open List

/-- What GLib does with UTF-8. -/
class Utf8 where
  /-- `g_utf8_validate`: the length of the valid text at the beginning -/
  validLength : Text → ℕ
  /-- `g_convert` from ISO-8859-1, which may fail -/
  convert : Text → Option Text
  validLength_le : ∀ s, validLength s ≤ s.length
  validLength_take : ∀ s, validLength (s.take (validLength s)) = validLength s
  validLength_append : ∀ s t, validLength s = s.length → validLength t = t.length →
    validLength (s ++ t) = (s ++ t).length
  validLength_ascii : ∀ c, Text.isAscii c → validLength [c] = 1
  /-- ASCII characters may be replaced by others -/
  validLength_map : ∀ (f : Char → Char) (s : Text),
    (∀ c, Text.isAscii c → Text.isAscii (f c)) → (∀ c ≠ '\x00', Text.isAscii c = false → f c = c) →
    validLength s = s.length → validLength (s.map f) = s.length
  nul_notMem : ∀ s, validLength s = s.length → '\x00' ∉ s
  validLength_convert : ∀ s t, convert s = some t → '\x00' ∉ s → validLength t = t.length
  convert_ne_nil : ∀ s t, convert s = some t → s ≠ [] → t ≠ []

/-- A system in which every character is valid. -/
instance : Utf8 where
  validLength s := (Text.beforeNul s).length
  convert _ := none
  validLength_le s := (List.takeWhile_prefix _).length_le
  validLength_take s := by
    have htake : s.take (Text.beforeNul s).length = Text.beforeNul s :=
      (prefix_iff_eq_take.mp (List.takeWhile_prefix _)).symm
    rw [htake, Text.beforeNul, Text.beforeNul, takeWhile_takeWhile]
    simp
  validLength_append s t hs ht := by
    rw [Text.length_beforeNul_eq_iff] at hs ht ⊢
    rw [mem_append, not_or]
    exact ⟨hs, ht⟩
  validLength_ascii c hc := by
    rw [Text.isAscii, Bool.and_eq_true, decide_eq_true_eq] at hc
    exact Text.length_beforeNul_eq_iff.mpr fun h => hc.1 (mem_singleton.mp h).symm
  validLength_map f s hascii hother hs := by
    rw [Text.length_beforeNul_eq_iff] at hs
    refine (Text.length_beforeNul_eq_iff.mpr ?_).trans (length_map f)
    rw [mem_map]
    rintro ⟨c, hc, hnul⟩
    cases hisAscii : Text.isAscii c with
    | true =>
      have h := hascii c hisAscii
      rw [hnul] at h
      cases h
    | false =>
      have hne : c ≠ '\x00' := fun h => hs (h ▸ hc)
      exact hne ((hother c hne hisAscii).symm.trans hnul)
  nul_notMem s hs := Text.length_beforeNul_eq_iff.mp hs
  validLength_convert _ _ h := nomatch h
  convert_ne_nil _ _ h := nomatch h

section Values

variable [Utf8]

def Utf8.Valid (s : Text) : Prop :=
  validLength s = s.length
  deriving Decidable

def patchUtf8 : ℕ → Text → Text
  | 0, s => s
  | rounds + 1, s =>
    let n := Utf8.validLength s
    if n = s.length then s else s.take n ++ '?' :: patchUtf8 rounds (s.drop (n + 1))

def fixUtf8 (s : Text) : Text :=
  if Utf8.Valid s then s
  else
    -- no, it's not - try to import it from ISO-Latin-1
    match Utf8.convert s with
    | some t => Text.beforeNul t
    | none => patchUtf8 s.length s

def charIsNonPrintable (c : Char) : Bool :=
  c.toNat < 0x20

def clearChar (c : Char) : Char :=
  if charIsNonPrintable c then ' ' else c

def clearNonPrintable (s : Text) : Text :=
  s.map clearChar

def fixTagValue (s : Text) : Text :=
  clearNonPrintable (fixUtf8 s)

/-! ### What a repaired value is -/

/-- A value that needs no repair. -/
structure CleanValue (s : Text) : Prop where
  valid : Utf8.Valid s
  printable : ∀ c ∈ s, charIsNonPrintable c = false

omit [Utf8] in
theorem clearChar_of_printable {c : Char} (h : charIsNonPrintable c = false) : clearChar c = c := by
  rw [clearChar, h, if_neg Bool.false_ne_true]

theorem CleanValue.fixTagValue_eq {s : Text} (h : CleanValue s) : fixTagValue s = s := by
  rw [fixTagValue, fixUtf8, if_pos h.valid, clearNonPrintable]
  conv_rhs => rw [← map_id s]
  exact map_congr_left fun c hc => clearChar_of_printable (h.printable c hc)

theorem valid_patchUtf8 (rounds : ℕ) (s : Text) (hrounds : s.length ≤ rounds) :
    Utf8.Valid (patchUtf8 rounds s) := by
  induction rounds generalizing s with
  | zero =>
    obtain rfl := eq_nil_of_length_eq_zero (Nat.le_zero.mp hrounds)
    exact Nat.le_zero.mp (Utf8.validLength_le [])
  | succ rounds ih =>
    rw [patchUtf8]
    split
    · next hvalid => exact hvalid
    · next hinvalid =>
      have hle := Utf8.validLength_le s
      have htake : Utf8.Valid (s.take (Utf8.validLength s)) := by
        rw [Utf8.Valid, Utf8.validLength_take, length_take_of_le hle]
      have hrest : Utf8.Valid (patchUtf8 rounds (s.drop (Utf8.validLength s + 1))) := by
        refine ih _ ?_
        rw [length_drop]
        omega
      exact Utf8.validLength_append _ _ htake
        (Utf8.validLength_append ['?'] _ (Utf8.validLength_ascii '?' rfl) hrest)

theorem patchUtf8_ne_nil (rounds : ℕ) {s : Text} (h : s ≠ []) : patchUtf8 rounds s ≠ [] := by
  cases rounds with
  | zero => exact h
  | succ rounds =>
    rw [patchUtf8]
    split
    · exact h
    · exact append_ne_nil_of_right_ne_nil _ (cons_ne_nil _ _)

theorem valid_fixUtf8 {s : Text} (hnul : '\x00' ∉ s) : Utf8.Valid (fixUtf8 s) := by
  rw [fixUtf8]
  split
  · next hvalid => exact hvalid
  · split
    · next t ht =>
      have hvalid := Utf8.validLength_convert s t ht hnul
      rwa [Text.beforeNul_eq_self (Utf8.nul_notMem t hvalid)]
    · exact valid_patchUtf8 _ _ le_rfl

theorem fixUtf8_ne_nil {s : Text} (h : s ≠ []) (hnul : '\x00' ∉ s) : fixUtf8 s ≠ [] := by
  rw [fixUtf8]
  split
  · exact h
  · split
    · next t ht =>
      have hvalid := Utf8.validLength_convert s t ht hnul
      rw [Text.beforeNul_eq_self (Utf8.nul_notMem t hvalid)]
      exact Utf8.convert_ne_nil s t ht h
    · exact patchUtf8_ne_nil _ h

/-- **A repaired value needs no repair.** -/
theorem cleanValue_fixTagValue {s : Text} (hnul : '\x00' ∉ s) : CleanValue (fixTagValue s) where
  valid := by
    have hmap := Utf8.validLength_map clearChar (fixUtf8 s) ?_ ?_ (valid_fixUtf8 hnul)
    · exact hmap.trans (length_map _).symm
    · intro c hc
      rw [clearChar]
      split
      · rfl
      · exact hc
    · intro c hne hc
      refine clearChar_of_printable (decide_eq_false fun hlt => ?_)
      rw [Text.isAscii, Bool.and_eq_false_iff, decide_eq_false_iff_not,
        decide_eq_false_iff_not, not_not] at hc
      exact hc.elim hne fun h => h (hlt.trans (by decide))
  printable c hc := by
    obtain ⟨c₀, -, rfl⟩ := mem_map.mp hc
    rw [clearChar]
    split
    · rfl
    · next hprintable => exact (Bool.not_eq_true _).mp hprintable

theorem fixTagValue_ne_nil {s : Text} (h : s ≠ []) (hnul : '\x00' ∉ s) : fixTagValue s ≠ [] := by
  rw [fixTagValue, clearNonPrintable, ne_eq, map_eq_nil_iff]
  exact fixUtf8_ne_nil h hnul

end Values

/-! ### Tags -/

/-- `struct tag_item`. -/
structure TagItem where
  type : TagType
  value : Text
  deriving DecidableEq, Repr

/-- `struct tag`. -/
structure Tag where
  /-- the duration of the song in seconds, or `-1` -/
  time : Int32
  /-- does the file have an embedded playlist? -/
  hasPlaylist : Bool
  items : List TagItem
  deriving DecidableEq, Repr

namespace Tag

def new : Tag where
  time := -1
  hasPlaylist := false
  items := []

def addItem [Utf8] (ignored : TagType → Bool) (tag : Tag) (type : TagType) (value : Text) : Tag :=
  if ignored type then tag
  else if value = [] then tag
  else { tag with items := tag.items ++ [⟨type, fixTagValue value⟩] }

def nameParse (name : Text) : Option TagType :=
  (tagItemNames.find? fun item => name = item.2.toList).map Prod.fst

end Tag

def TagType.itemName (type : TagType) : Text :=
  ((tagItemNames.find? fun item => item.1 = type).map fun item => item.2.toList).getD []

theorem Tag.nameParse_itemName (type : TagType) : Tag.nameParse type.itemName = some type := by
  cases type <;> decide

end Mpd
