import Mathlib.Tactic

/-!
Cyclic redundancy checks, lowest bit first, of any width and polynomial.

One step moves the register down by a bit and subtracts the polynomial when the bit that falls out
is set. A step is linear in exclusive or, so that the steps of a long word are those of its bytes,
each from its own place: several bytes are taken at once through one table for each place.
-/

namespace CloudMQ.Crc

variable {w : ℕ} (P : BitVec w)

/-- One step of the register. -/
def shift (c : BitVec w) : BitVec w := if c.getLsbD 0 then (c >>> 1) ^^^ P else c >>> 1

/-- So many steps. -/
def shifts (n : ℕ) (c : BitVec w) : BitVec w := (shift P)^[n] c

/-- A byte is put into the low bits, and leaves after eight steps. -/
def byte (c : BitVec w) (b : BitVec 8) : BitVec w := shifts P 8 (c ^^^ b.setWidth w)

/-- The bytes as one word, the first one lowest. -/
def littleEndian (w : ℕ) : List (BitVec 8) → BitVec w
  | [] => 0#w
  | b :: bs => b.setWidth w ^^^ (littleEndian w bs <<< 8)

/-! ### On numbers -/

/-- One step of a register that is a number. -/
def shiftNat (P c : ℕ) : ℕ := (c >>> 1) ^^^ (P * (c % 2))

lemma toNat_shift (c : BitVec w) : (shift P c).toNat = shiftNat P.toNat c.toNat := by
  have hbit : c.getLsbD 0 = decide (c.toNat % 2 = 1) := Nat.testBit_zero c.toNat
  unfold shift shiftNat
  rw [hbit]
  by_cases hodd : c.toNat % 2 = 1
  · simp [hodd]
  · simp [show c.toNat % 2 = 0 by omega]

lemma toNat_shifts (n : ℕ) (c : BitVec w) :
    (shifts P n c).toNat = (shiftNat P.toNat)^[n] c.toNat :=
  Function.Semiconj.iterate_right (f := BitVec.toNat) (fun c => toNat_shift P c) n c

/-! ### Linearity -/

lemma shifts_zero (c : BitVec w) : shifts P 0 c = c := rfl

lemma shifts_add (m n : ℕ) (c : BitVec w) : shifts P (m + n) c = shifts P m (shifts P n c) :=
  Function.iterate_add_apply (shift P) m n c

lemma shifts_succ (n : ℕ) (c : BitVec w) : shifts P (n + 1) c = shift P (shifts P n c) :=
  Function.iterate_succ_apply' (shift P) n c

lemma shift_xor (a b : BitVec w) : shift P (a ^^^ b) = shift P a ^^^ shift P b := by
  unfold shift
  rw [BitVec.getLsbD_xor, BitVec.ushiftRight_xor_distrib]
  cases a.getLsbD 0 <;> cases b.getLsbD 0
  · simp
  · simp [BitVec.xor_assoc]
  · simp [BitVec.xor_assoc, BitVec.xor_comm P]
  · -- the polynomial is subtracted twice
    simp only [Bool.xor_self, Bool.false_eq_true, if_false, if_true]
    rw [BitVec.xor_comm (b >>> 1) P, BitVec.xor_assoc, ← BitVec.xor_assoc P P, BitVec.xor_self,
      BitVec.zero_xor]

lemma shifts_xor (n : ℕ) (a b : BitVec w) :
    shifts P n (a ^^^ b) = shifts P n a ^^^ shifts P n b := by
  induction n with
  | zero => rfl
  | succ n ih => rw [shifts_succ, shifts_succ, shifts_succ, ih, shift_xor]

/-- Bits that are clear fall out without a trace. -/
lemma shifts_of_clear {n : ℕ} {c : BitVec w} (h : ∀ i < n, c.getLsbD i = false) :
    shifts P n c = c >>> n := by
  induction n with
  | zero => simp [shifts_zero]
  | succ n ih =>
    have hlow : (c >>> n).getLsbD 0 = false := by
      simpa using h n (Nat.lt_succ_self n)
    rw [shifts_succ, ih fun i hi => h i (Nat.lt_succ_of_lt hi), shift, hlow, BitVec.shiftRight_add]
    rfl

@[simp] lemma shifts_of_zero (n : ℕ) : shifts P n 0#w = 0#w := by
  rw [shifts_of_clear P (by simp), BitVec.zero_ushiftRight]

/-- A word that stands higher gets to its place first. -/
lemma shifts_shiftLeft {k n : ℕ} {c : BitVec w} (h : ∀ i, w ≤ i + k → c.getLsbD i = false) :
    shifts P (n + k) (c <<< k) = shifts P n c := by
  have hback : (c <<< k) >>> k = c := by
    apply BitVec.eq_of_getLsbD_eq
    intro i hi
    rw [BitVec.getLsbD_ushiftRight, BitVec.getLsbD_shiftLeft]
    by_cases hw : k + i < w
    · simp [hw]
    · simp [hw, h i (by omega)]
  have hclear : ∀ i < k, (c <<< k).getLsbD i = false := by
    intro i hi
    simp [BitVec.getLsbD_shiftLeft, hi]
  rw [shifts_add, shifts_of_clear P hclear, hback]

/-! ### One byte through a table -/

/-- **A byte at a time.** The byte that falls out selects the word of a table, and the others move
down. -/
theorem byte_eq_table (c : BitVec w) (b : BitVec 8) :
    byte P c b =
      (c >>> 8) ^^^ shifts P 8 (((c ^^^ b.setWidth w).setWidth 8).setWidth w) := by
  have hsplit : c ^^^ b.setWidth w =
      ((c >>> 8) <<< 8) ^^^ ((c ^^^ b.setWidth w).setWidth 8).setWidth w := by
    apply BitVec.eq_of_getLsbD_eq
    intro i hi
    by_cases h8 : i < 8
    · simp [h8, hi]
    · have h8' : 8 + (i - 8) = i := by omega
      simp [h8, hi, h8', BitVec.getLsbD_of_ge b i (by omega)]
  have hclear : ∀ i, w ≤ i + 8 → (c >>> 8).getLsbD i = false := by
    intro i hi
    rw [BitVec.getLsbD_ushiftRight, BitVec.getLsbD_of_ge c (8 + i) (by omega)]
  have hhigh : shifts P 8 ((c >>> 8) <<< 8) = c >>> 8 := by
    have h := shifts_shiftLeft P (n := 0) hclear
    rwa [Nat.zero_add, shifts_zero] at h
  rw [byte]
  conv_lhs => rw [hsplit, shifts_xor, hhigh]

/-! ### Several bytes at once -/

lemma getLsbD_littleEndian_of_le (bs : List (BitVec 8)) :
    ∀ i, 8 * bs.length ≤ i → (littleEndian w bs).getLsbD i = false := by
  induction bs with
  | nil => simp [littleEndian]
  | cons b bs ih =>
    intro i hi
    rw [List.length_cons] at hi
    have hhigh := ih (i - 8) (by omega)
    simp only [littleEndian, BitVec.getLsbD_xor, BitVec.getLsbD_setWidth, BitVec.getLsbD_shiftLeft,
      BitVec.getLsbD_of_ge b i (by omega), hhigh]
    simp

/-- The steps of the bytes behind the first are the ones that are left of their word. -/
lemma shifts_littleEndian_shiftLeft {bs : List (BitVec 8)} (hbs : 8 * (bs.length + 1) ≤ w) (n : ℕ) :
    shifts P (n + 8) (littleEndian w bs <<< 8) = shifts P n (littleEndian w bs) :=
  shifts_shiftLeft P fun i hi => getLsbD_littleEndian_of_le bs i (by omega)

/-- **A word at a time.** As many bytes as fit into the register may be put into it at once. -/
theorem foldl_byte {bs : List (BitVec 8)} (hbs : 8 * bs.length ≤ w) (c : BitVec w) :
    bs.foldl (byte P) c = shifts P (8 * bs.length) (c ^^^ littleEndian w bs) := by
  induction bs generalizing c with
  | nil => simp [littleEndian, shifts_zero]
  | cons b bs ih =>
    rw [List.length_cons] at hbs
    rw [List.foldl_cons, ih (by omega), byte, List.length_cons, littleEndian, Nat.mul_succ,
      ← BitVec.xor_assoc, shifts_xor, shifts_xor P (8 * bs.length + 8),
      shifts_littleEndian_shiftLeft P hbs, shifts_add]

/-- **One table for each place.** The steps of a word are those of its bytes, of which the first
one takes the most. -/
theorem shifts_littleEndian {bs : List (BitVec 8)} (hbs : 8 * bs.length ≤ w) (n : ℕ) :
    shifts P (n + 8 * bs.length) (littleEndian w bs) =
      ((List.range bs.length).map fun j =>
        shifts P (n + 8 * (bs.length - j)) ((bs.getD j 0).setWidth w)).foldr (· ^^^ ·) 0#w := by
  induction bs with
  | nil => simp [littleEndian, shifts_of_zero]
  | cons b bs ih =>
    rw [List.length_cons] at hbs
    rw [List.length_cons, littleEndian, shifts_xor, Nat.mul_succ, ← Nat.add_assoc,
      shifts_littleEndian_shiftLeft P hbs, ih (by omega), List.range_succ_eq_map, List.map_cons,
      List.map_map, List.foldr_cons]
    congr 1
    congr 1
    refine List.map_congr_left fun j hj => ?_
    have hlt := List.mem_range.mp hj
    simp only [Function.comp_apply, List.getD_cons_succ]
    congr 2
    omega

/-- The places of the bytes do not overlap. -/
lemma littleEndian_cons (b : BitVec 8) (bs : List (BitVec 8)) :
    littleEndian w (b :: bs) = b.setWidth w + (littleEndian w bs <<< 8) := by
  have hand : b.setWidth w &&& (littleEndian w bs <<< 8) = 0#w := by
    apply BitVec.eq_of_getLsbD_eq
    intro i hi
    by_cases h8 : i < 8
    · simp [h8]
    · simp [BitVec.getLsbD_of_ge b i (by omega)]
  rw [BitVec.add_eq_or_of_and_eq_zero _ _ hand, littleEndian]
  apply BitVec.eq_of_getLsbD_eq
  intro i hi
  have hbit := congrArg (fun x : BitVec w => x.getLsbD i) hand
  simp only [BitVec.getLsbD_and, BitVec.getLsbD_zero] at hbit
  rw [BitVec.getLsbD_xor, BitVec.getLsbD_or]
  revert hbit
  cases (b.setWidth w).getLsbD i <;> cases (littleEndian w bs <<< 8).getLsbD i <;> simp

lemma toNat_littleEndian {bs : List (BitVec 8)} (hbs : 8 * bs.length ≤ w) :
    (littleEndian w bs).toNat < 2 ^ (8 * bs.length) ∧
      (littleEndian w bs).toNat = bs.foldr (fun b n => b.toNat + 256 * n) 0 := by
  induction bs with
  | nil => simp [littleEndian]
  | cons b bs ih =>
    rw [List.length_cons] at hbs ⊢
    obtain ⟨hlt, heq⟩ := ih (by omega)
    have hb := b.isLt
    have hpow : 2 ^ (8 * (bs.length + 1)) = 256 * 2 ^ (8 * bs.length) := by
      rw [Nat.mul_succ, Nat.pow_add, Nat.mul_comm]
    have hle : 2 ^ (8 * (bs.length + 1)) ≤ 2 ^ w := Nat.pow_le_pow_right (by norm_num) hbs
    have hbw : b.toNat % 2 ^ w = b.toNat := Nat.mod_eq_of_lt (by omega)
    have hshift : (littleEndian w bs).toNat * 256 % 2 ^ w = (littleEndian w bs).toNat * 256 :=
      Nat.mod_eq_of_lt (by omega)
    have hsum : (littleEndian w (b :: bs)).toNat = b.toNat + 256 * (littleEndian w bs).toNat := by
      rw [littleEndian_cons, BitVec.toNat_add, BitVec.toNat_setWidth, BitVec.toNat_shiftLeft,
        Nat.shiftLeft_eq, hbw, show (2 : ℕ) ^ 8 = 256 by norm_num, hshift, Nat.mul_comm 256]
      exact Nat.mod_eq_of_lt (by omega)
    exact ⟨by omega, by rw [hsum, heq, List.foldr_cons]⟩

/-- The bytes of a word, the lowest one first. -/
def bytes : ℕ → BitVec w → List (BitVec 8)
  | 0, _ => []
  | k + 1, c => c.setWidth 8 :: bytes k (c >>> 8)

@[simp] lemma length_bytes (k : ℕ) (c : BitVec w) : (bytes k c).length = k := by
  induction k generalizing c with
  | zero => rfl
  | succ k ih => rw [bytes, List.length_cons, ih]

lemma littleEndian_bytes {k : ℕ} (hk : w ≤ 8 * k) (c : BitVec w) :
    littleEndian w (bytes k c) = c := by
  suffices h : ∀ k (c : BitVec w), (∀ i, 8 * k ≤ i → c.getLsbD i = false) →
      littleEndian w (bytes k c) = c from
    h k c fun i hi => BitVec.getLsbD_of_ge c i (by omega)
  intro k
  induction k with
  | zero =>
    intro c hc
    apply BitVec.eq_of_getLsbD_eq
    intro i hi
    simp [bytes, littleEndian, hc i (Nat.zero_le i)]
  | succ k ih =>
    intro c hc
    rw [bytes, littleEndian, ih (c >>> 8) fun i hi => by
      rw [BitVec.getLsbD_ushiftRight]
      exact hc _ (by omega)]
    apply BitVec.eq_of_getLsbD_eq
    intro i hi
    by_cases h8 : i < 8
    · simp [h8, hi]
    · have h8' : 8 + (i - 8) = i := by omega
      simp [h8, hi, h8']

end CloudMQ.Crc
