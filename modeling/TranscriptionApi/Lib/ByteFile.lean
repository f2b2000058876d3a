import Mathlib.Data.List.Basic

/-!
A file that is open for reading: its bytes and a position, which a seek may put
behind the end. All there is to know of a reader is `left`, the bytes a long
enough read would still give.
-/

namespace TranscriptionApi.Lib

structure ByteFile where
  bytes : List UInt8
  pos : ℕ

namespace ByteFile

variable (f : ByteFile) (n : ℕ)

/-- The bytes that are still to come. -/
def left : List UInt8 := f.bytes.drop f.pos

/-- `fp.read(n)`: at the end of the file it gives less, and behind it nothing. -/
def read : List UInt8 × ByteFile :=
  (f.left.take n, { f with pos := f.pos + (f.left.take n).length })

/-- `fp.seek(n, 1)`. -/
def skip : ByteFile := { f with pos := f.pos + n }

/-- `fp.seek(0)`. -/
def rewind : ByteFile := { f with pos := 0 }

@[simp] theorem read_fst : (f.read n).1 = f.left.take n := rfl

@[simp] theorem left_read : (f.read n).2.left = f.left.drop n := by
  show f.bytes.drop (f.pos + (f.left.take n).length) = f.left.drop n
  rw [← List.drop_drop]
  show f.left.drop (f.left.take n).length = f.left.drop n
  rw [List.length_take]
  rcases Nat.le_total n f.left.length with hle | hle
  · rw [Nat.min_eq_left hle]
  · rw [Nat.min_eq_right hle, List.drop_length, List.drop_eq_nil_of_le hle]

@[simp] theorem left_skip : (f.skip n).left = f.left.drop n := by
  rw [left, left, List.drop_drop]
  rfl

@[simp] theorem left_rewind : f.rewind.left = f.bytes := rfl

@[simp] theorem bytes_read : (f.read n).2.bytes = f.bytes := rfl

end ByteFile

end TranscriptionApi.Lib
