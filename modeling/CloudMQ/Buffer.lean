import Mathlib.Tactic

/-!
Big-endian numbers in a byte sequence, and readers of byte sequences.

A reader takes the unread bytes and gives back a value with what is left; it fails when the
bytes run out. Every number is written most significant byte first, and reading undoes
writing whatever follows.
-/

namespace CloudMQ.Buffer

abbrev Bytes := List UInt8

/-- The last `k` base-256 digits of `n`, most significant first. -/
def bigEndian : ℕ → ℕ → Bytes
  | 0, _ => []
  | k + 1, n => bigEndian k (n / 256) ++ [UInt8.ofNat n]

/-- The number a byte sequence spells. -/
def ofBigEndian (bs : Bytes) : ℕ := bs.foldl (fun acc b => acc * 256 + b.toNat) 0

@[simp] lemma length_bigEndian (k n : ℕ) : (bigEndian k n).length = k := by
  induction k generalizing n with
  | zero => rfl
  | succ k ih => simp [bigEndian, ih]

lemma ofBigEndian_snoc (bs : Bytes) (b : UInt8) :
    ofBigEndian (bs ++ [b]) = ofBigEndian bs * 256 + b.toNat := by
  simp [ofBigEndian, List.foldl_append]

lemma ofBigEndian_bigEndian (k n : ℕ) : ofBigEndian (bigEndian k n) = n % 256 ^ k := by
  induction k generalizing n with
  | zero => simp [bigEndian, ofBigEndian, Nat.mod_one]
  | succ k ih =>
    have hb : (UInt8.ofNat n).toNat = n % 256 := by simp
    rw [bigEndian, ofBigEndian_snoc, ih, hb, pow_succ, Nat.mul_comm (256 ^ k) 256, Nat.mod_mul]
    omega

lemma ofBigEndian_lt (bs : Bytes) : ofBigEndian bs < 256 ^ bs.length := by
  induction bs using List.reverseRecOn with
  | nil => simp [ofBigEndian]
  | append_singleton bs b ih =>
    have hb : b.toNat < 256 := b.toNat_lt
    rw [ofBigEndian_snoc, List.length_append, List.length_singleton, pow_succ]
    omega

lemma bigEndian_ofBigEndian (bs : Bytes) : bigEndian bs.length (ofBigEndian bs) = bs := by
  induction bs using List.reverseRecOn with
  | nil => rfl
  | append_singleton bs b ih =>
    have hb : b.toNat < 256 := b.toNat_lt
    have hdiv : (ofBigEndian bs * 256 + b.toNat) / 256 = ofBigEndian bs := by omega
    have hmod : UInt8.ofNat (ofBigEndian bs * 256 + b.toNat) = b := by
      apply UInt8.toNat_inj.mp
      simp
    rw [ofBigEndian_snoc, List.length_append, List.length_singleton, bigEndian, hdiv, ih, hmod]

/-! ### Readers -/

/-- A reader of unread bytes. -/
structure Reader (α : Type) where
  run : Bytes → Option (α × Bytes)

namespace Reader

variable {α β : Type}

def pure (a : α) : Reader α := ⟨fun bs => some (a, bs)⟩

def bind (m : Reader α) (f : α → Reader β) : Reader β where
  run bs := match m.run bs with
    | none => none
    | some (a, rest) => (f a).run rest

instance : Monad Reader where
  pure := Reader.pure
  bind := Reader.bind

/-- The reader that always fails. -/
def fail : Reader α := ⟨fun _ => none⟩

/-- Turn a missing value into a failure. -/
def ofOption : Option α → Reader α
  | none => fail
  | some a => pure a

@[simp] lemma run_pure (a : α) (bs : Bytes) : (Pure.pure a : Reader α).run bs = some (a, bs) := rfl

@[simp] lemma run_fail (bs : Bytes) : (fail : Reader α).run bs = none := rfl

@[simp] lemma run_ofOption_some (a : α) (bs : Bytes) :
    (ofOption (some a)).run bs = some (a, bs) := rfl

@[simp] lemma run_ofOption_none (bs : Bytes) : (ofOption (none : Option α)).run bs = none := rfl

lemma run_bind_of_some {m : Reader α} {f : α → Reader β} {bs rest : Bytes} {a : α}
    (h : m.run bs = some (a, rest)) : (m >>= f).run bs = (f a).run rest := by
  change (Reader.bind m f).run bs = (f a).run rest
  simp [Reader.bind, h]

lemma run_bind_of_none {m : Reader α} {f : α → Reader β} {bs : Bytes}
    (h : m.run bs = none) : (m >>= f).run bs = none := by
  change (Reader.bind m f).run bs = none
  simp [Reader.bind, h]

lemma run_bind_eq_some {m : Reader α} {f : α → Reader β} {bs rest : Bytes} {b : β}
    (h : (m >>= f).run bs = some (b, rest)) :
    ∃ a mid, m.run bs = some (a, mid) ∧ (f a).run mid = some (b, rest) := by
  cases hm : m.run bs with
  | none => rw [run_bind_of_none hm] at h; exact absurd h (by simp)
  | some p =>
    obtain ⟨a, mid⟩ := p
    rw [run_bind_of_some hm] at h
    exact ⟨a, mid, rfl, h⟩

/-- A reader that looks at nothing but the bytes it uses up. -/
def Local (m : Reader α) : Prop :=
  ∀ bs a rest, m.run bs = some (a, rest) →
    ∃ used, bs = used ++ rest ∧ ∀ tail, m.run (used ++ tail) = some (a, tail)

lemma local_pure (a : α) : Local (Pure.pure a : Reader α) := by
  intro bs b rest h
  simp only [run_pure, Option.some.injEq, Prod.mk.injEq] at h
  obtain ⟨rfl, rfl⟩ := h
  exact ⟨[], rfl, fun _ => rfl⟩

lemma local_ofOption (o : Option α) : Local (ofOption o) := by
  cases o with
  | none => intro bs a rest h; simp at h
  | some a => exact local_pure a

lemma Local.bind {m : Reader α} {f : α → Reader β} (hm : Local m)
    (hf : ∀ a, Local (f a)) : Local (m >>= f) := by
  intro bs b rest h
  obtain ⟨a, mid, h1, h2⟩ := run_bind_eq_some h
  obtain ⟨u, hu, hu'⟩ := hm bs a mid h1
  obtain ⟨v, hv, hv'⟩ := hf a mid b rest h2
  refine ⟨u ++ v, by rw [hu, hv, List.append_assoc], fun tail => ?_⟩
  rw [List.append_assoc, run_bind_of_some (hu' _), hv']

end Reader

/-- Take the next `n` bytes. -/
def getBytes (n : ℕ) : Reader Bytes where
  run bs := if n ≤ bs.length then some (bs.take n, bs.drop n) else none

lemma getBytes_append {n : ℕ} {a : Bytes} (h : a.length = n) (r : Bytes) :
    (getBytes n).run (a ++ r) = some (a, r) := by
  subst h
  simp [getBytes]

lemma getBytes_eq_some {n : ℕ} {bs a r : Bytes} (h : (getBytes n).run bs = some (a, r)) :
    bs = a ++ r ∧ a.length = n := by
  simp only [getBytes] at h
  split at h
  · next hn =>
    simp only [Option.some.injEq, Prod.mk.injEq] at h
    obtain ⟨rfl, rfl⟩ := h
    exact ⟨(List.take_append_drop n bs).symm, by simp [hn]⟩
  · exact absurd h (by simp)

lemma getBytes_isSome {n : ℕ} {bs : Bytes} (h : n ≤ bs.length) :
    (getBytes n).run bs = some (bs.take n, bs.drop n) := if_pos h

lemma local_getBytes (n : ℕ) : (getBytes n).Local := by
  intro bs a rest h
  obtain ⟨h1, h2⟩ := getBytes_eq_some h
  exact ⟨a, h1, fun tail => getBytes_append h2 tail⟩

/-! ### The number formats -/

def putInt (x : Int32) : Bytes := bigEndian 4 x.toBitVec.toNat
def putLong (x : Int64) : Bytes := bigEndian 8 x.toBitVec.toNat
/-- The two low bytes of an `int`, as `putShort((short) x)` writes them. -/
def putShort (x : ℕ) : Bytes := bigEndian 2 x

def getInt : Reader Int32 := do
  let a ← getBytes 4
  return Int32.ofBitVec (BitVec.ofNat 32 (ofBigEndian a))

def getLong : Reader Int64 := do
  let a ← getBytes 8
  return Int64.ofBitVec (BitVec.ofNat 64 (ofBigEndian a))

/-- The next byte as a signed `byte`. -/
def getByte : Reader ℤ := do
  let a ← getBytes 1
  return (BitVec.ofNat 8 (ofBigEndian a)).toInt

/-- The next two bytes as a signed `short`. -/
def getShort : Reader ℤ := do
  let a ← getBytes 2
  return (BitVec.ofNat 16 (ofBigEndian a)).toInt

@[simp] lemma length_putInt (x : Int32) : (putInt x).length = 4 := by simp [putInt]
@[simp] lemma length_putLong (x : Int64) : (putLong x).length = 8 := by simp [putLong]
@[simp] lemma length_putShort (x : ℕ) : (putShort x).length = 2 := by simp [putShort]

lemma getInt_of_append {a r : Bytes} (h : a.length = 4) :
    getInt.run (a ++ r) = some (Int32.ofBitVec (BitVec.ofNat 32 (ofBigEndian a)), r) := by
  rw [getInt, Reader.run_bind_of_some (getBytes_append h r), Reader.run_pure]

lemma getLong_of_append {a r : Bytes} (h : a.length = 8) :
    getLong.run (a ++ r) = some (Int64.ofBitVec (BitVec.ofNat 64 (ofBigEndian a)), r) := by
  rw [getLong, Reader.run_bind_of_some (getBytes_append h r), Reader.run_pure]

lemma getInt_putInt (x : Int32) (r : Bytes) : getInt.run (putInt x ++ r) = some (x, r) := by
  have hx : x.toBitVec.toNat < 2 ^ 32 := x.toBitVec.isLt
  have hmod : x.toBitVec.toNat % 256 ^ 4 = x.toBitVec.toNat := Nat.mod_eq_of_lt (by omega)
  rw [getInt_of_append (length_putInt x), putInt, ofBigEndian_bigEndian, hmod, BitVec.ofNat_toNat,
    BitVec.setWidth_eq, Int32.ofBitVec_toBitVec]

lemma getLong_putLong (x : Int64) (r : Bytes) : getLong.run (putLong x ++ r) = some (x, r) := by
  have hx : x.toBitVec.toNat < 2 ^ 64 := x.toBitVec.isLt
  have hmod : x.toBitVec.toNat % 256 ^ 8 = x.toBitVec.toNat := Nat.mod_eq_of_lt (by omega)
  rw [getLong_of_append (length_putLong x), putLong, ofBigEndian_bigEndian, hmod,
    BitVec.ofNat_toNat, BitVec.setWidth_eq, Int64.ofBitVec_toBitVec]

/-- A `byte` written from an `int` comes back with its low eight bits, signed. -/
lemma getByte_ofNat (n : ℕ) (r : Bytes) :
    getByte.run ([UInt8.ofNat n] ++ r) = some ((BitVec.ofNat 8 n).toInt, r) := by
  have hn : BitVec.ofNat 8 (ofBigEndian [UInt8.ofNat n]) = BitVec.ofNat 8 n := by
    apply BitVec.eq_of_toNat_eq
    simp [ofBigEndian]
  rw [getByte, Reader.run_bind_of_some (getBytes_append (n := 1) rfl r), Reader.run_pure, hn]

lemma getShort_putShort (n : ℕ) (r : Bytes) :
    getShort.run (putShort n ++ r) = some ((BitVec.ofNat 16 n).toInt, r) := by
  have hn : BitVec.ofNat 16 (ofBigEndian (putShort n)) = BitVec.ofNat 16 n := by
    apply BitVec.eq_of_toNat_eq
    simp [putShort, ofBigEndian_bigEndian]
  rw [getShort, Reader.run_bind_of_some (getBytes_append (length_putShort n) r),
    Reader.run_pure, hn]

lemma getInt_eq_some {bs r : Bytes} {x : Int32} (h : getInt.run bs = some (x, r)) :
    bs = putInt x ++ r := by
  obtain ⟨a, mid, ha, hx⟩ := Reader.run_bind_eq_some h
  simp only [Reader.run_pure, Option.some.injEq, Prod.mk.injEq] at hx
  obtain ⟨rfl, rfl⟩ := hx
  obtain ⟨rfl, hlen⟩ := getBytes_eq_some ha
  have hlt := ofBigEndian_lt a
  rw [hlen] at hlt
  have hput : putInt (Int32.ofBitVec (BitVec.ofNat 32 (ofBigEndian a))) = a := by
    rw [putInt, Int32.toBitVec_ofBitVec, BitVec.toNat_ofNat, Nat.mod_eq_of_lt (by omega), ← hlen,
      bigEndian_ofBigEndian]
  rw [hput]

lemma getLong_eq_some {bs r : Bytes} {x : Int64} (h : getLong.run bs = some (x, r)) :
    bs = putLong x ++ r := by
  obtain ⟨a, mid, ha, hx⟩ := Reader.run_bind_eq_some h
  simp only [Reader.run_pure, Option.some.injEq, Prod.mk.injEq] at hx
  obtain ⟨rfl, rfl⟩ := hx
  obtain ⟨rfl, hlen⟩ := getBytes_eq_some ha
  have hlt := ofBigEndian_lt a
  rw [hlen] at hlt
  have hput : putLong (Int64.ofBitVec (BitVec.ofNat 64 (ofBigEndian a))) = a := by
    rw [putLong, Int64.toBitVec_ofBitVec, BitVec.toNat_ofNat, Nat.mod_eq_of_lt (by omega), ← hlen,
      bigEndian_ofBigEndian]
  rw [hput]

/-- The byte that is read, unsigned. -/
lemma getByte_eq_some {bs r : Bytes} {x : ℤ} (h : getByte.run bs = some (x, r)) :
    ∃ n : ℕ, n < 256 ∧ bs = [UInt8.ofNat n] ++ r ∧ x = (BitVec.ofNat 8 n).toInt := by
  obtain ⟨a, mid, ha, hx⟩ := Reader.run_bind_eq_some h
  simp only [Reader.run_pure, Option.some.injEq, Prod.mk.injEq] at hx
  obtain ⟨rfl, rfl⟩ := hx
  obtain ⟨rfl, hlen⟩ := getBytes_eq_some ha
  have hlt := ofBigEndian_lt a
  rw [hlen] at hlt
  have hput : [UInt8.ofNat (ofBigEndian a)] = a := by
    have h1 := bigEndian_ofBigEndian a
    rwa [hlen] at h1
  exact ⟨_, by omega, by rw [hput], rfl⟩

/-- The two bytes that are read, unsigned. -/
lemma getShort_eq_some {bs r : Bytes} {x : ℤ} (h : getShort.run bs = some (x, r)) :
    ∃ n : ℕ, n < 65536 ∧ bs = putShort n ++ r ∧ x = (BitVec.ofNat 16 n).toInt := by
  obtain ⟨a, mid, ha, hx⟩ := Reader.run_bind_eq_some h
  simp only [Reader.run_pure, Option.some.injEq, Prod.mk.injEq] at hx
  obtain ⟨rfl, rfl⟩ := hx
  obtain ⟨rfl, hlen⟩ := getBytes_eq_some ha
  have hlt := ofBigEndian_lt a
  rw [hlen] at hlt
  have hput : putShort (ofBigEndian a) = a := by
    rw [putShort, ← hlen, bigEndian_ofBigEndian]
  exact ⟨_, by omega, by rw [hput], rfl⟩

lemma local_getInt : getInt.Local :=
  (local_getBytes 4).bind fun _ => Reader.local_pure _
lemma local_getLong : getLong.Local :=
  (local_getBytes 8).bind fun _ => Reader.local_pure _
lemma local_getByte : getByte.Local :=
  (local_getBytes 1).bind fun _ => Reader.local_pure _
lemma local_getShort : getShort.Local :=
  (local_getBytes 2).bind fun _ => Reader.local_pure _

/-- Overwrite the bytes of `bs` from position `pos` on with `new`. -/
def overwrite (bs : Bytes) (pos : ℕ) (new : Bytes) : Bytes :=
  bs.take pos ++ new ++ bs.drop (pos + new.length)

lemma length_overwrite {bs : Bytes} {pos : ℕ} {new : Bytes} (h : pos + new.length ≤ bs.length) :
    (overwrite bs pos new).length = bs.length := by
  simp [overwrite, List.length_append, List.length_take, List.length_drop]
  omega

lemma drop_overwrite {bs : Bytes} {pos : ℕ} (new : Bytes) (h : pos ≤ bs.length) :
    (overwrite bs pos new).drop pos = new ++ bs.drop (pos + new.length) := by
  have hl : (bs.take pos).length = pos := by simp [h]
  rw [overwrite, List.append_assoc, List.drop_append_of_le_length (by omega),
    List.drop_of_length_le (by omega), List.nil_append]

end CloudMQ.Buffer
