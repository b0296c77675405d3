import PackIndex.Proofs.Text.Utf8
import PackIndex.Text.Percent

/-!
# Decoding what was percent-encoded

Decoding takes a percent-encoded text back, whatever stands behind it, and leaves every character
but `%` alone.
-/

namespace PackIndex.Percent

variable {c : Char} {cs rest : List Char}

/-! ### Bytes -/

theorem hexValue?_hexDigit {n : Nat} (h : n < 16) : hexValue? (hexDigit n) = some n := by
  have hall : ∀ n < 16, hexValue? (hexDigit n) = some n := by decide
  exact hall n h

theorem isPlain_hexDigit {n : Nat} (h : n < 16) : isPlain (hexDigit n) = true := by
  have hall : ∀ n < 16, isPlain (hexDigit n) = true := by decide
  exact hall n h

theorem ne_percent_of_isPlain (h : isPlain c = true) : c ≠ '%' := by
  rintro rfl
  exact absurd h (by decide)

theorem toBytes_encodeByte (b : UInt8) (rest : List Char) :
    toBytes (encodeByte b ++ rest) = b :: toBytes rest := by
  have hb : b.toNat < 256 := b.toNat_lt
  have hhigh : b.toNat / 16 < 16 := by omega
  have hlow : b.toNat % 16 < 16 := by omega
  have hvalue : 16 * (b.toNat / 16) + b.toNat % 16 = b.toNat := by omega
  simp only [encodeByte, List.cons_append, List.nil_append, toBytes, hexValue?_hexDigit hhigh,
    hexValue?_hexDigit hlow, hvalue, UInt8.ofNat_toNat]

theorem toBytes_cons_of_ne (h : c ≠ '%') (rest : List Char) :
    toBytes (c :: rest) = Utf8.encodeChar c ++ toBytes rest := by
  rw [toBytes]
  rintro a b more he
  exact absurd he h

theorem toBytes_flatMap_encodeByte (bytes : List UInt8) (rest : List Char) :
    toBytes (bytes.flatMap encodeByte ++ rest) = bytes ++ toBytes rest := by
  induction bytes with
  | nil => rfl
  | cons b bytes ih =>
    rw [List.flatMap_cons, List.append_assoc, toBytes_encodeByte, ih, List.cons_append]

theorem toBytes_encodeChars (cs rest : List Char) :
    toBytes (encodeChars cs ++ rest) = Utf8.encodeChars cs ++ toBytes rest := by
  induction cs with
  | nil => rfl
  | cons c cs ih =>
    simp only [encodeChars, Utf8.encodeChars, List.flatMap_cons, List.append_assoc] at ih ⊢
    rw [← ih, encodeChar]
    split
    · next hplain => exact toBytes_cons_of_ne (ne_percent_of_isPlain hplain) _
    · exact toBytes_flatMap_encodeByte _ _

theorem toBytes_of_not_mem (h : '%' ∉ cs) : toBytes cs = Utf8.encodeChars cs := by
  induction cs with
  | nil => rfl
  | cons c cs ih =>
    rw [List.mem_cons, not_or] at h
    rw [toBytes_cons_of_ne (Ne.symm h.1), ih h.2, Utf8.encodeChars, Utf8.encodeChars,
      List.flatMap_cons]

/-! ### Characters -/

theorem mem_encodeChars (h : c ∈ encodeChars cs) : isPlain c = true ∨ c = '%' := by
  obtain ⟨d, -, hc⟩ := List.mem_flatMap.mp h
  unfold encodeChar at hc
  split at hc
  · next hplain => exact Or.inl (List.mem_singleton.mp hc ▸ hplain)
  · obtain ⟨b, -, hb⟩ := List.mem_flatMap.mp hc
    have hlt : b.toNat < 256 := b.toNat_lt
    simp only [encodeByte, List.mem_cons, List.not_mem_nil, or_false] at hb
    rcases hb with rfl | rfl | rfl
    · exact Or.inr rfl
    · exact Or.inl (isPlain_hexDigit (by omega))
    · exact Or.inl (isPlain_hexDigit (by omega))

theorem decodeChars_eq (cs : List Char) : decodeChars cs = Utf8.decodeLossyChars (toBytes cs) := by
  unfold decodeChars
  split
  · rfl
  · next h => rw [toBytes_of_not_mem h, Utf8.decodeLossyChars_encodeChars]

theorem decodeChars_encodeChars_append (cs rest : List Char) :
    decodeChars (encodeChars cs ++ rest) = cs ++ decodeChars rest := by
  rw [decodeChars_eq, decodeChars_eq, toBytes_encodeChars, Utf8.decodeLossyChars_append]

theorem decodeChars_cons_of_ne (h : c ≠ '%') (rest : List Char) :
    decodeChars (c :: rest) = c :: decodeChars rest := by
  have hone : Utf8.encodeChar c = Utf8.encodeChars [c] := by simp [Utf8.encodeChars]
  rw [decodeChars_eq, decodeChars_eq, toBytes_cons_of_ne h, hone, Utf8.decodeLossyChars_append]
  rfl

theorem decode_encode (s : String) : decode (encode s) = s := by
  have h := decodeChars_encodeChars_append s.toList []
  rw [List.append_nil, show decodeChars [] = [] from rfl, List.append_nil] at h
  rw [decode, encode, String.toList_ofList, h, String.ofList_toList]

end PackIndex.Percent
