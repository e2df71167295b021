import CloudMQ.Buffer

/-!
UTF-8 text: writing, and reading with replacement.

Text is a list of Unicode scalar values. Reading never fails: a malformed sequence becomes
one replacement character. Reading undoes writing, also in front of other bytes, and never
gives more characters than it had bytes; so a text cut well before its end cannot read back
as the whole.
-/

namespace CloudMQ.Utf8

open CloudMQ.Buffer

abbrev Text := List Char

instance (s : Text) (l : List Text) : Decidable (s ∈ l) := inferInstance

def utf8Encode (s : Text) : Bytes := s.flatMap String.utf8EncodeChar

def replacement : Char := Char.ofNat 0xFFFD

def isCont (b : UInt8) : Bool := 0x80 ≤ b.toNat && b.toNat < 0xC0

/-- A value that a sequence of three bytes may stand for. -/
def isThree (v : ℕ) : Bool := 0x800 ≤ v && !(0xD800 ≤ v && v < 0xE000)

/-- A value that a sequence of four bytes may stand for. -/
def isFour (v : ℕ) : Bool := 0x10000 ≤ v && v ≤ 0x10FFFF

/-- The character at the front and the number of bytes it takes, when it is well formed. -/
def decodeChar? : Bytes → Option (Char × ℕ)
  | [] => none
  | b0 :: bs =>
    if b0.toNat < 0x80 then some (Char.ofNat b0.toNat, 1)
    else if 0xC2 ≤ b0.toNat ∧ b0.toNat < 0xE0 then
      match bs with
      | b1 :: _ =>
        if isCont b1 then some (Char.ofNat (b0.toNat % 32 * 64 + b1.toNat % 64), 2) else none
      | _ => none
    else if 0xE0 ≤ b0.toNat ∧ b0.toNat < 0xF0 then
      match bs with
      | b1 :: b2 :: _ =>
        let v := b0.toNat % 16 * 4096 + b1.toNat % 64 * 64 + b2.toNat % 64
        if isCont b1 && isCont b2 && isThree v then some (Char.ofNat v, 3) else none
      | _ => none
    else if 0xF0 ≤ b0.toNat ∧ b0.toNat < 0xF8 then
      match bs with
      | b1 :: b2 :: b3 :: _ =>
        let v := b0.toNat % 8 * 262144 + b1.toNat % 64 * 4096 + b2.toNat % 64 * 64 +
          b3.toNat % 64
        if isCont b1 && isCont b2 && isCont b3 && isFour v then some (Char.ofNat v, 4) else none
      | _ => none
    else none

def startsWithCont : Bytes → Bool
  | b :: _ => isCont b
  | [] => false

/-- How many bytes one replacement character stands for: the longest start of a well-formed
sequence, and the three bytes of an encoded surrogate. -/
def malformedLength : Bytes → ℕ
  | b0 :: b1 :: bs =>
    let x0 := b0.toNat
    let x1 := b1.toNat
    let third := startsWithCont bs
    if !isCont b1 then 1
    else if x0 = 0xE0 && x1 < 0xA0 then 1
    else if 0xE0 ≤ x0 && x0 < 0xF0 then (if third && x0 = 0xED && 0xA0 ≤ x1 then 3 else 2)
    else if x0 = 0xF0 && x1 < 0x90 then 1
    else if x0 = 0xF4 && 0x90 ≤ x1 then 1
    else if 0xF0 ≤ x0 && x0 ≤ 0xF4 then (if third then 3 else 2)
    else 1
  | _ => 1

/-- Skip `n` bytes, then read to the end. -/
def decodeSkip : ℕ → Bytes → Text
  | _, [] => []
  | n + 1, _ :: r => decodeSkip n r
  | 0, b :: r =>
    match decodeChar? (b :: r) with
    | some (c, k) => c :: decodeSkip (k - 1) r
    | none => replacement :: decodeSkip (malformedLength (b :: r) - 1) r

def utf8Decode (bs : Bytes) : Text := decodeSkip 0 bs

lemma decodeSkip_eq_drop (n : ℕ) (bs : Bytes) : decodeSkip n bs = utf8Decode (bs.drop n) := by
  induction bs generalizing n with
  | nil => simp [decodeSkip, utf8Decode]
  | cons b r ih =>
    cases n with
    | zero => simp [utf8Decode]
    | succ n => rw [decodeSkip, ih, List.drop_succ_cons]

lemma length_decodeSkip_le (n : ℕ) (bs : Bytes) : (decodeSkip n bs).length ≤ bs.length := by
  induction bs generalizing n with
  | nil => simp [decodeSkip]
  | cons b r ih =>
    cases n with
    | succ n =>
      have := ih n
      simp only [decodeSkip, List.length_cons]; omega
    | zero =>
      rw [decodeSkip]
      split
      · next c k _ =>
        have := ih (k - 1)
        simp only [List.length_cons]; omega
      · have := ih (malformedLength (b :: r) - 1)
        simp only [List.length_cons]; omega

lemma length_utf8Decode_le (bs : Bytes) : (utf8Decode bs).length ≤ bs.length :=
  length_decodeSkip_le 0 bs

/-! ### Reading undoes writing -/

lemma length_encodeChar_le (c : Char) : (String.utf8EncodeChar c).length ≤ 4 := by
  simp only [String.utf8EncodeChar]
  split_ifs <;> simp

lemma toNat_ofNat_of_lt {n : ℕ} (h : n < 256) : (UInt8.ofNat n).toNat = n := by
  simp [Nat.mod_eq_of_lt h]

lemma isCont_ofNat (n : ℕ) : isCont (UInt8.ofNat (n % 64 + 128)) = true := by
  have : n % 64 + 128 < 256 := by omega
  simp only [isCont, toNat_ofNat_of_lt this, Bool.and_eq_true, decide_eq_true_eq]
  omega

lemma cont_mod (n : ℕ) : (UInt8.ofNat (n % 64 + 128)).toNat % 64 = n % 64 := by
  rw [toNat_ofNat_of_lt (by omega)]; omega

lemma char_range (c : Char) :
    c.val.toNat < 0xD800 ∨ (0xDFFF < c.val.toNat ∧ c.val.toNat < 0x110000) := by
  have h := c.valid
  simpa [UInt32.isValidChar, Nat.isValidChar] using h

lemma ofNat_val (c : Char) : Char.ofNat c.val.toNat = c := Char.ofNat_toNat c

/-- One character reads back, whatever follows it. -/
lemma decodeChar?_encode (c : Char) (r : Bytes) :
    decodeChar? (String.utf8EncodeChar c ++ r) =
      some (c, (String.utf8EncodeChar c).length) := by
  have hr := char_range c
  have hc := ofNat_val c
  simp only [String.utf8EncodeChar]
  generalize c.val.toNat = v at hr hc
  split_ifs with h1 h2 h3
  · -- one byte
    have e0 := toNat_ofNat_of_lt (n := v) (by omega)
    simp only [List.cons_append, List.nil_append, decodeChar?, e0]
    rw [if_pos (by omega), hc]
    rfl
  · -- two bytes
    have e0 := toNat_ofNat_of_lt (n := v / 64 % 32 + 192) (by omega)
    simp only [List.cons_append, List.nil_append, decodeChar?, e0, isCont_ofNat, cont_mod]
    rw [if_neg (by omega), if_pos (by omega), if_pos trivial,
      show (v / 64 % 32 + 192) % 32 * 64 + v % 64 = v by omega, hc]
    rfl
  · -- three bytes
    have e0 := toNat_ofNat_of_lt (n := v / 4096 % 16 + 224) (by omega)
    simp only [List.cons_append, List.nil_append, decodeChar?, e0, isCont_ofNat, cont_mod]
    have hv : (v / 4096 % 16 + 224) % 16 * 4096 + v / 64 % 64 * 64 + v % 64 = v := by omega
    have h3' : isThree v = true := by
      simp only [isThree, Bool.and_eq_true, decide_eq_true_eq, Bool.not_eq_true',
        Bool.and_eq_false_iff, decide_eq_false_iff_not]
      omega
    rw [if_neg (by omega), if_neg (by omega), if_pos (by omega), hv, h3']
    simp [hc]
  · -- four bytes
    have e0 := toNat_ofNat_of_lt (n := v / 262144 % 8 + 240) (by omega)
    simp only [List.cons_append, List.nil_append, decodeChar?, e0, isCont_ofNat, cont_mod]
    have hv : (v / 262144 % 8 + 240) % 8 * 262144 + v / 4096 % 64 * 4096 + v / 64 % 64 * 64 +
        v % 64 = v := by omega
    have h4 : isFour v = true := by
      simp only [isFour, Bool.and_eq_true, decide_eq_true_eq]
      omega
    rw [if_neg (by omega), if_neg (by omega), if_neg (by omega), if_pos (by omega), hv, h4]
    simp [hc]

lemma utf8Decode_char_append (c : Char) (r : Bytes) :
    utf8Decode (String.utf8EncodeChar c ++ r) = c :: utf8Decode r := by
  have h := decodeChar?_encode c r
  rcases he : String.utf8EncodeChar c with _ | ⟨b, t⟩
  · rw [he] at h; simp at h
    have : (String.utf8EncodeChar c).length ≠ 0 := by
      simp only [String.utf8EncodeChar]; split_ifs <;> simp
    rw [he] at this; simp at this
  · rw [he, List.cons_append] at h
    rw [List.cons_append, utf8Decode, decodeSkip, h]
    simp only [List.length_cons, Nat.add_sub_cancel]
    rw [decodeSkip_eq_drop, List.drop_append_of_le_length le_rfl, List.drop_length,
      List.nil_append]

/-- **Reading undoes writing**, in front of any bytes. -/
theorem utf8Decode_encode_append (s : Text) (r : Bytes) :
    utf8Decode (utf8Encode s ++ r) = s ++ utf8Decode r := by
  induction s with
  | nil => simp [utf8Encode]
  | cons c s ih =>
    have hstep : utf8Encode (c :: s) ++ r =
        String.utf8EncodeChar c ++ (utf8Encode s ++ r) := by
      simp [utf8Encode, List.append_assoc]
    rw [hstep, utf8Decode_char_append, ih, List.cons_append]

theorem utf8Decode_encode (s : Text) : utf8Decode (utf8Encode s) = s := by
  have h := utf8Decode_encode_append s []
  simpa [utf8Decode, decodeSkip] using h

@[simp] lemma utf8Encode_nil : utf8Encode [] = [] := rfl

lemma utf8Encode_append (s t : Text) : utf8Encode (s ++ t) = utf8Encode s ++ utf8Encode t := by
  simp [utf8Encode]

lemma utf8Encode_eq_nil {s : Text} : utf8Encode s = [] ↔ s = [] := by
  constructor
  · intro h
    have := utf8Decode_encode s
    rw [h] at this
    simpa [utf8Decode, decodeSkip] using this.symm
  · rintro rfl; rfl

lemma length_utf8Encode_le (s : Text) : (utf8Encode s).length ≤ 4 * s.length := by
  induction s with
  | nil => simp
  | cons c s ih =>
    have hc := length_encodeChar_le c
    have : utf8Encode (c :: s) = String.utf8EncodeChar c ++ utf8Encode s := by simp [utf8Encode]
    rw [this, List.length_append, List.length_cons]
    omega

/-- A cut text is the writing of its whole characters and at most three further bytes. -/
lemma take_utf8Encode (s : Text) (k : ℕ) :
    ∃ s₁ s₂ : Text, ∃ p : Bytes, s = s₁ ++ s₂ ∧ (utf8Encode s).take k = utf8Encode s₁ ++ p ∧
      p.length ≤ 3 := by
  induction s generalizing k with
  | nil => exact ⟨[], [], [], rfl, by simp, by simp⟩
  | cons c s ih =>
    have hs : utf8Encode (c :: s) = String.utf8EncodeChar c ++ utf8Encode s := by simp [utf8Encode]
    have hc := length_encodeChar_le c
    rcases Nat.lt_or_ge k (String.utf8EncodeChar c).length with hk | hk
    · -- the cut falls inside this character
      refine ⟨[], c :: s, (String.utf8EncodeChar c).take k, rfl, ?_, ?_⟩
      · rw [hs, List.take_append_of_le_length hk.le]; simp
      · rw [List.length_take]; omega
    · obtain ⟨s₁, s₂, p, hsplit, htake, hp⟩ := ih (k - (String.utf8EncodeChar c).length)
      refine ⟨c :: s₁, s₂, p, by simp [hsplit], ?_, hp⟩
      rw [hs, List.take_append, List.take_of_length_le hk, htake]
      simp [utf8Encode]

/-- **A text cut more than twelve bytes before its end does not read back.** -/
theorem utf8Decode_take_ne {s : Text} {k : ℕ} (h : k + 12 < (utf8Encode s).length) :
    utf8Decode ((utf8Encode s).take k) ≠ s := by
  obtain ⟨s₁, s₂, p, hsplit, htake, hp⟩ := take_utf8Encode s k
  intro heq
  rw [htake, utf8Decode_encode_append] at heq
  have htail : utf8Decode p = s₂ := by
    rw [hsplit] at heq
    exact List.append_cancel_left heq
  have hlen : s₂.length ≤ 3 := by
    rw [← htail]
    exact (length_utf8Decode_le p).trans hp
  have h2 := length_utf8Encode_le s₂
  have hk : (utf8Encode s₁).length ≤ k := by
    have := congrArg List.length htake
    rw [List.length_take, List.length_append] at this
    omega
  have htotal : (utf8Encode s).length = (utf8Encode s₁).length + (utf8Encode s₂).length := by
    rw [hsplit, utf8Encode_append, List.length_append]
  omega

end CloudMQ.Utf8
