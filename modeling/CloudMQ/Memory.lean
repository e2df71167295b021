import CloudMQ.Buffer

/-!
A memory with absolute access, as the array behind a byte buffer: bytes are put at a position,
and a window of it can be read at any time. What a window holds after a put is the old part and
the new bytes, as long as it ends where the put does.
-/

namespace CloudMQ.Memory

open CloudMQ.Buffer

abbrev Cells := ℕ → UInt8

/-- The bytes are put at a position. -/
def write (m : Cells) (pos : ℕ) (bs : Bytes) : Cells := fun i =>
  if pos ≤ i then (bs[i - pos]?).getD (m i) else m i

/-- The window of `len` bytes from a position. -/
def slice (m : Cells) (pos len : ℕ) : Bytes := (List.range len).map fun i => m (pos + i)

def getLongAt (m : Cells) (pos : ℕ) : Int64 :=
  Int64.ofBitVec (BitVec.ofNat 64 (ofBigEndian (slice m pos 8)))

def getIntAt (m : Cells) (pos : ℕ) : Int32 :=
  Int32.ofBitVec (BitVec.ofNat 32 (ofBigEndian (slice m pos 4)))

variable {m : Cells} {pos len : ℕ} {bs : Bytes}

@[simp] lemma length_slice (m : Cells) (pos len : ℕ) : (slice m pos len).length = len := by
  simp [slice]

@[simp] lemma slice_zero (m : Cells) (pos : ℕ) : slice m pos 0 = [] := rfl

lemma slice_add (m : Cells) (pos a b : ℕ) :
    slice m pos (a + b) = slice m pos a ++ slice m (pos + a) b := by
  simp [slice, List.range_add, Nat.add_assoc]

lemma slice_congr {m' : Cells} {pos' : ℕ} (h : ∀ i < len, m (pos + i) = m' (pos' + i)) :
    slice m pos len = slice m' pos' len :=
  List.map_congr_left fun i hi => h i (List.mem_range.mp hi)

/-- A window inside a window. -/
lemma slice_slice {a b : ℕ} (h : a + b ≤ len) :
    slice m (pos + a) b = ((slice m pos len).drop a).take b := by
  obtain ⟨c, rfl⟩ := Nat.exists_eq_add_of_le h
  rw [Nat.add_assoc, slice_add, slice_add]
  simp

lemma slice_write_self (m : Cells) (pos : ℕ) (bs : Bytes) :
    slice (write m pos bs) pos bs.length = bs := by
  refine List.ext_getElem (by simp) fun i h1 h2 => ?_
  simp [slice, write, h2]

lemma slice_write_before {a : ℕ} (h : a + len ≤ pos) :
    slice (write m pos bs) a len = slice m a len := by
  refine slice_congr fun i hi => ?_
  rw [write, if_neg (by omega)]

/-- A window that ends where the put ends. -/
lemma slice_write {a : ℕ} (h : a ≤ pos) :
    slice (write m pos bs) a (pos - a + bs.length) = slice m a (pos - a) ++ bs := by
  rw [slice_add, slice_write_before (by omega), Nat.add_sub_cancel' h, slice_write_self]

lemma getLongAt_of_slice {x : Int64} (h : slice m pos 8 = putLong x) : getLongAt m pos = x := by
  have hrun := getLong_putLong x []
  rw [getLong_of_append (length_putLong x), Option.some.injEq, Prod.mk.injEq] at hrun
  rw [getLongAt, h]
  exact hrun.1

lemma getIntAt_of_slice {x : Int32} (h : slice m pos 4 = putInt x) : getIntAt m pos = x := by
  have hrun := getInt_putInt x []
  rw [getInt_of_append (length_putInt x), Option.some.injEq, Prod.mk.injEq] at hrun
  rw [getIntAt, h]
  exact hrun.1

end CloudMQ.Memory
