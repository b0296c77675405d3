import PackIndex.Json.Reader
import PackIndex.Json.Writer

/-!
# Strings of JSON texts

A string that was written is read back, whatever stands behind it, and the text of a string holds no
control character.
-/

namespace PackIndex.Json

variable {c e : Char} {cs rest : List Char}

def codeOf? : List Char → Option Nat
  | [a, b, c, d] => hex4? a b c d
  | _ => none

theorem codeOf?_hexDigits : ∀ n < 0x20, codeOf? (Text.hexDigits 4 n) = some n := by decide

def consChar (c : Char) (read : List Char × List Char) : List Char × List Char :=
  (c :: read.1, read.2)

/-! ### Reading one character -/

theorem stringBody_letter (h : simpleEscape? c = some e) (rest : List Char) :
    stringBody ('\\' :: c :: rest) = (stringBody rest).map (consChar e) := by
  rw [stringBody]
  · rw [h]
    rfl
  · rintro a b x y more rfl -
    cases h

theorem stringBody_code {n : Nat} {ds : List Char} (h : codeOf? ds = some n) (hn : n < 0xD800)
    (rest : List Char) : stringBody ('\\' :: 'u' :: (ds ++ rest)) =
      (stringBody rest).map (consChar (Char.ofNat n)) := by
  obtain ⟨a, b, x, y, rfl⟩ : ∃ a b x y, ds = [a, b, x, y] := by
    unfold codeOf? at h
    split at h
    · exact ⟨_, _, _, _, rfl⟩
    · cases h
  have hcode : hex4? a b x y = some n := h
  have hhigh : isHighSurrogate n = false := by
    rw [isHighSurrogate, decide_eq_false (Nat.not_le.mpr hn), Bool.false_and]
  have hlow : isLowSurrogate n = false := by
    rw [isLowSurrogate, decide_eq_false (by omega), Bool.false_and]
  simp only [List.cons_append, List.nil_append, stringBody, hcode, hhigh, hlow]
  rfl

theorem stringBody_plain (hquote : c ≠ '"') (hslash : c ≠ '\\') (hc : ¬ c.toNat < 0x20)
    (rest : List Char) : stringBody (c :: rest) = (stringBody rest).map (consChar c) := by
  rw [stringBody, if_neg hc]
  · rfl
  · exact hquote
  · exact fun _ _ _ _ _ h _ => hslash h
  · exact fun _ _ h _ => hslash h

theorem escapeChar_cases (c : Char) :
    (∃ x, simpleEscape? x = some c ∧ escapeChar c = ['\\', x]) ∨
      (c.toNat < 0x20 ∧ escapeChar c = '\\' :: 'u' :: Text.hexDigits 4 c.toNat) ∨
      (c ≠ '"' ∧ c ≠ '\\' ∧ ¬ c.toNat < 0x20 ∧ escapeChar c = [c]) := by
  have hcontrol {n : Nat} (h : c.toNat = n) : c = Char.ofNat n := by rw [← h, Char.ofNat_toNat]
  unfold escapeChar
  split
  · next h => exact Or.inl ⟨'"', by rw [h]; rfl, rfl⟩
  next hquote =>
  split
  · next h => exact Or.inl ⟨'\\', by rw [h]; rfl, rfl⟩
  next hslash =>
  split
  · next h => exact Or.inl ⟨'n', by rw [h]; rfl, rfl⟩
  split
  · next h => exact Or.inl ⟨'r', by rw [h]; rfl, rfl⟩
  split
  · next h => exact Or.inl ⟨'t', by rw [h]; rfl, rfl⟩
  split
  · next h => exact Or.inl ⟨'b', by rw [hcontrol h]; rfl, rfl⟩
  split
  · next h => exact Or.inl ⟨'f', by rw [hcontrol h]; rfl, rfl⟩
  split
  · next h => exact Or.inr (Or.inl ⟨h, rfl⟩)
  · next h => exact Or.inr (Or.inr ⟨hquote, hslash, h, rfl⟩)

theorem stringBody_escapeChar (c : Char) (rest : List Char) :
    stringBody (escapeChar c ++ rest) = (stringBody rest).map (consChar c) := by
  rcases escapeChar_cases c with ⟨x, hx, h⟩ | ⟨hcontrol, h⟩ | ⟨hquote, hslash, hplain, h⟩
  · rw [h]
    exact stringBody_letter hx rest
  · have hread := stringBody_code (codeOf?_hexDigits _ hcontrol) (by omega) rest
    rw [Char.ofNat_toNat] at hread
    rw [h]
    exact hread
  · rw [h]
    exact stringBody_plain hquote hslash hplain rest

theorem stringBody_written (cs rest : List Char) :
    stringBody (cs.flatMap escapeChar ++ '"' :: rest) = some (cs, rest) := by
  induction cs with
  | nil => rw [List.flatMap_nil, List.nil_append, stringBody]
  | cons c cs ih =>
    rw [List.flatMap_cons, List.append_assoc, stringBody_escapeChar, ih]
    rfl

/-! ### The characters of a string -/

/-- Whether none of the characters is a control character, which can be computed. -/
def isPlain (cs : List Char) : Bool := cs.all fun c => 0x20 ≤ c.toNat

theorem le_of_isPlain (h : isPlain cs = true) : ∀ c ∈ cs, 0x20 ≤ c.toNat :=
  fun c hc => of_decide_eq_true (List.all_eq_true.mp h c hc)

theorem isPlain_hexDigits : ∀ n < 0x20, isPlain (Text.hexDigits 4 n) = true := by decide

theorem le_of_simpleEscape? {x : Char} (h : simpleEscape? x = some c) : 0x20 ≤ x.toNat := by
  unfold simpleEscape? at h
  split at h <;> first | decide | cases h

theorem le_of_mem_escapeChar (h : e ∈ escapeChar c) : 0x20 ≤ e.toNat := by
  rcases escapeChar_cases c with ⟨x, hx, heq⟩ | ⟨hcontrol, heq⟩ | ⟨-, -, hplain, heq⟩
  · rw [heq, List.mem_cons, List.mem_singleton] at h
    rcases h with rfl | rfl
    · decide
    · exact le_of_simpleEscape? hx
  · rw [heq, List.mem_cons, List.mem_cons] at h
    rcases h with rfl | rfl | h
    · decide
    · decide
    · exact le_of_isPlain (isPlain_hexDigits _ hcontrol) e h
  · rw [heq, List.mem_singleton] at h
    rw [h]
    exact Nat.not_lt.mp hplain

theorem le_of_mem_stringText {s : String} (h : c ∈ (stringText s).toList) : 0x20 ≤ c.toNat := by
  rw [stringText, String.toList_ofList, List.mem_cons, List.mem_append, List.mem_singleton] at h
  rcases h with rfl | h | rfl
  · decide
  · obtain ⟨d, -, hd⟩ := List.mem_flatMap.mp h
    exact le_of_mem_escapeChar hd
  · decide

end PackIndex.Json
