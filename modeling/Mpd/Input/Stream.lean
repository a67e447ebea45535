import Mathlib.Data.List.Basic

/-!
# Input streams

An input stream is read from its offset on. A read may return less than it is asked for, but it
returns nothing only at the end of the stream.
-/

namespace Mpd

/-- A stream: its content, where it is read, and how much it has to offer to each of the next
reads. -/
structure InputStream (α : Type) where
  content : List α
  offset : ℕ
  seekable : Bool
  offers : ℕ → ℕ

namespace InputStream

variable {α : Type}

def rest (s : InputStream α) : List α :=
  s.content.drop s.offset

def read (s : InputStream α) (length : ℕ) : List α × InputStream α :=
  let data := s.rest.take (min length (max 1 (s.offers 0)))
  (data, { s with offset := s.offset + data.length, offers := fun k => s.offers (k + 1) })

theorem length_read (s : InputStream α) (length : ℕ) :
    (s.read length).1.length = min (min length (max 1 (s.offers 0))) s.rest.length :=
  List.length_take

theorem append_rest_read (s : InputStream α) (length : ℕ) :
    (s.read length).1 ++ (s.read length).2.rest = s.rest := by
  have hrest : (s.read length).2.rest = s.rest.drop (s.read length).1.length := by
    rw [rest, rest, List.drop_drop]
    rfl
  rw [hrest, length_read, ← List.drop_eq_drop_min]
  exact List.take_append_drop _ _

end InputStream

end Mpd
