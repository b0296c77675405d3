import Mathlib.Tactic.SplitIfs
import PackIndex.Text.Utf8

/-!
# Reading UTF-8 back

The bytes of a character are read back as that character, whatever follows them.
-/

namespace PackIndex.Utf8

variable {onBad : Option Char} {b : UInt8} {missing bits low high : Nat} {rest : List UInt8}

/-! ### One byte -/

theorem decodeFrom_single (h : lead? b.toNat = some (0, bits, low, high)) :
    decodeFrom onBad none (b :: rest) = (decodeFrom onBad none rest).map (Char.ofNat bits :: ·) := by
  simp [decodeFrom, h]

theorem decodeFrom_first (h : lead? b.toNat = some (missing + 1, bits, low, high)) :
    decodeFrom onBad none (b :: rest) =
      decodeFrom onBad (some (missing + 1, bits, low, high)) rest := by
  simp [decodeFrom, h]

theorem decodeFrom_next (h : low ≤ b.toNat ∧ b.toNat ≤ high) :
    decodeFrom onBad (some (missing + 2, bits, low, high)) (b :: rest) =
      decodeFrom onBad (some (missing + 1, bits * 64 + (b.toNat - 0x80), 0x80, 0xBF)) rest := by
  simp [decodeFrom, h]

theorem decodeFrom_last (h : low ≤ b.toNat ∧ b.toNat ≤ high) :
    decodeFrom onBad (some (1, bits, low, high)) (b :: rest) =
      (decodeFrom onBad none rest).map (Char.ofNat (bits * 64 + (b.toNat - 0x80)) :: ·) := by
  simp [decodeFrom, h]

theorem toNat_ofNat {n : Nat} (h : n < 256) : (UInt8.ofNat n).toNat = n := by
  simp [Nat.mod_eq_of_lt h]

/-! ### One character -/

variable {n : Nat}

theorem lead?_of_two (h : 0x80 ≤ n) (h' : n < 0x800) :
    lead? (0xC0 + n / 64) = some (1, n / 64, 0x80, 0xBF) := by
  have hfirst : ¬ 0xC0 + n / 64 < 0x80 := by omega
  have hrange : 0xC2 ≤ 0xC0 + n / 64 ∧ 0xC0 + n / 64 ≤ 0xDF := by omega
  rw [lead?, if_neg hfirst, if_pos hrange, Nat.add_sub_cancel_left]

theorem lead?_of_three (h : 0x800 ≤ n) (h' : n < 0x10000) (hvalid : n < 0xD800 ∨ 0xDFFF < n) :
    ∃ low high, lead? (0xE0 + n / 4096) = some (2, n / 4096, low, high) ∧
      low ≤ 0x80 + n / 64 % 64 ∧ 0x80 + n / 64 % 64 ≤ high := by
  by_cases hzero : n / 4096 = 0
  · exact ⟨0xA0, 0xBF, by rw [hzero]; rfl, by omega, by omega⟩
  · by_cases hsurrogate : n / 4096 = 0xD
    · exact ⟨0x80, 0x9F, by rw [hsurrogate]; rfl, by omega, by omega⟩
    · refine ⟨0x80, 0xBF, ?_, by omega, by omega⟩
      have hrange : 0xE1 ≤ 0xE0 + n / 4096 ∧ 0xE0 + n / 4096 ≤ 0xEF := by omega
      rw [lead?, if_neg (by omega), if_neg (by omega), if_neg (by omega), if_neg (by omega),
        if_pos hrange, Nat.add_sub_cancel_left]

/-- Of four bytes the second tells overlong forms and what no character has apart. -/
theorem lead?_of_four (h : 0x10000 ≤ n) (h' : n < 0x110000) :
    ∃ low high, lead? (0xF0 + n / 262144) = some (3, n / 262144, low, high) ∧
      low ≤ 0x80 + n / 4096 % 64 ∧ 0x80 + n / 4096 % 64 ≤ high := by
  by_cases hzero : n / 262144 = 0
  · exact ⟨0x90, 0xBF, by rw [hzero]; rfl, by omega, by omega⟩
  · by_cases hlast : n / 262144 = 4
    · exact ⟨0x80, 0x8F, by rw [hlast]; rfl, by omega, by omega⟩
    · refine ⟨0x80, 0xBF, ?_, by omega, by omega⟩
      have hrange : 0xF1 ≤ 0xF0 + n / 262144 ∧ 0xF0 + n / 262144 ≤ 0xF3 := by omega
      rw [lead?, if_neg (by omega), if_neg (by omega), if_neg (by omega), if_neg (by omega),
        if_neg (by omega), if_neg (by omega), if_pos hrange, Nat.add_sub_cancel_left]

theorem decodeFrom_encodeChar (onBad : Option Char) (c : Char) (rest : List UInt8) :
    decodeFrom onBad none (encodeChar c ++ rest) = (decodeFrom onBad none rest).map (c :: ·) := by
  have hchar : Char.ofNat c.toNat = c := Char.ofNat_toNat c
  have hvalid : c.toNat < 0xD800 ∨ 0xDFFF < c.toNat ∧ c.toNat < 0x110000 := c.valid
  unfold encodeChar
  generalize c.toNat = n at hchar hvalid
  have htail (m : Nat) : (UInt8.ofNat (0x80 + m % 64)).toNat = 0x80 + m % 64 :=
    toNat_ofNat (by omega)
  have hrange (m : Nat) : 0x80 ≤ (UInt8.ofNat (0x80 + m % 64)).toNat ∧
      (UInt8.ofNat (0x80 + m % 64)).toNat ≤ 0xBF := by
    rw [htail]
    omega
  simp only
  -- one case for each length of an encoding; the bits of all bytes make up the number again
  split_ifs with hone htwo hthree
  · have hlead : lead? n = some (0, n, 0x80, 0xBF) := if_pos hone
    rw [List.singleton_append, decodeFrom_single (by rw [toNat_ofNat (by omega), hlead]), hchar]
  · have hlead := lead?_of_two (Nat.le_of_not_lt hone) htwo
    have hbits : n / 64 * 64 + (0x80 + n % 64 - 0x80) = n := by omega
    rw [List.cons_append, List.singleton_append,
      decodeFrom_first (by rw [toNat_ofNat (by omega), hlead]), decodeFrom_last (hrange n), htail,
      hbits, hchar]
  · obtain ⟨low, high, hlead, hlow, hhigh⟩ :=
      lead?_of_three (Nat.le_of_not_lt htwo) hthree (hvalid.imp_right And.left)
    have hbits : (n / 4096 * 64 + (0x80 + n / 64 % 64 - 0x80)) * 64 + (0x80 + n % 64 - 0x80) = n := by
      omega
    rw [List.cons_append, List.cons_append, List.singleton_append,
      decodeFrom_first (by rw [toNat_ofNat (by omega), hlead]),
      decodeFrom_next (by rw [htail]; exact ⟨hlow, hhigh⟩), decodeFrom_last (hrange n), htail, htail,
      hbits, hchar]
  · obtain ⟨low, high, hlead, hlow, hhigh⟩ := lead?_of_four (n := n) (by omega) (by omega)
    have hbits : ((n / 262144 * 64 + (0x80 + n / 4096 % 64 - 0x80)) * 64 +
        (0x80 + n / 64 % 64 - 0x80)) * 64 + (0x80 + n % 64 - 0x80) = n := by omega
    rw [List.cons_append, List.cons_append, List.cons_append, List.singleton_append,
      decodeFrom_first (by rw [toNat_ofNat (by omega), hlead]),
      decodeFrom_next (by rw [htail]; exact ⟨hlow, hhigh⟩), decodeFrom_next (hrange (n / 64)),
      decodeFrom_last (hrange n), htail, htail, htail, hbits, hchar]

/-! ### Texts -/

theorem decodeFrom_encodeChars (onBad : Option Char) (cs : List Char) (rest : List UInt8) :
    decodeFrom onBad none (encodeChars cs ++ rest) = (decodeFrom onBad none rest).map (cs ++ ·) := by
  induction cs with
  | nil => simp [encodeChars]
  | cons c cs ih =>
    have hcons : encodeChars (c :: cs) ++ rest = encodeChar c ++ (encodeChars cs ++ rest) := by
      simp [encodeChars]
    rw [hcons, decodeFrom_encodeChar, ih, Option.map_map]
    rfl

/-- Replacing ill-formed pieces, every sequence of bytes has a text. -/
theorem decodeFrom_isSome (bad : Char) (pending : Pending) (bytes : List UInt8) :
    (decodeFrom (some bad) pending bytes).isSome = true := by
  induction bytes generalizing pending with
  | nil => cases pending <;> simp [decodeFrom]
  | cons b rest ih =>
    rcases pending with _ | ⟨missing, bits, low, high⟩
    · simp only [decodeFrom]
      split <;> simp [ih]
    · simp only [decodeFrom]
      split_ifs
      · simp [ih]
      · exact ih _
      · simp only [Option.bind_some]
        split <;> simp [ih]

theorem decodeLossyChars_append (cs : List Char) (rest : List UInt8) :
    decodeLossyChars (encodeChars cs ++ rest) = cs ++ decodeLossyChars rest := by
  obtain ⟨text, htext⟩ :=
    Option.isSome_iff_exists.mp (decodeFrom_isSome (Char.ofNat 0xFFFD) none rest)
  rw [decodeLossyChars, decodeLossyChars, decodeFrom_encodeChars, htext]
  rfl

theorem decodeLossyChars_encodeChars (cs : List Char) : decodeLossyChars (encodeChars cs) = cs := by
  have h := decodeLossyChars_append cs []
  rwa [List.append_nil, show decodeLossyChars [] = [] from rfl, List.append_nil] at h

end PackIndex.Utf8
