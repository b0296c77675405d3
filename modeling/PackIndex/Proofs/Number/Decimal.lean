import Mathlib.Algebra.Order.Field.Basic
import Mathlib.Data.Rat.Cast.Order
import Mathlib.Tactic.FieldSimp
import PackIndex.Number.Text
import PackIndex.Proofs.Text.Splitting
import PackIndex.Proofs.Text.Trim
import PackIndex.Text.Decimal

/-!
# Decimals

A decimal is written as digits, a point and more digits, with no zero that could be left out but for
one on either side of the point. Its text determines it. A number with a fixed count of places is
such a decimal, of the same value, as soon as the zeros at its end are dropped.
-/

namespace PackIndex

/-! ### Reading digits -/

namespace Text

theorem natOfDigits_eq (ds : List Char) : natOfDigits ds = Nat.ofDigitChars 10 ds 0 := rfl

theorem natOfDigits_append (ds es : List Char) :
    natOfDigits (ds ++ es) = 10 ^ es.length * natOfDigits ds + natOfDigits es := by
  rw [natOfDigits_eq, Nat.ofDigitChars_append, Nat.ofDigitChars_eq_ofDigitChars_zero]
  rfl

theorem natOfDigits_zeros (count : Nat) : natOfDigits (List.replicate count '0') = 0 := by
  rw [natOfDigits_eq, Nat.ofDigitChars_replicate_zero, Nat.mul_zero]

end Text

/-! ### Writing digits -/

namespace Number

variable {n : Nat} {ds : List Char} {c : Char}

theorem natOfDigits_digits (n : Nat) : Text.natOfDigits (digits n) = n :=
  Nat.ofDigitChars_ten_toDigits

theorem isDigit_of_mem_digits (h : c ∈ digits n) : Text.isDigit c = true :=
  Nat.isDigit_of_mem_toDigits (by decide) (by decide) h

theorem eq_zero_of_head?_digits (h : (digits n).head? = some '0') : n = 0 := by
  induction n using Nat.strongRecOn with
  | ind n ih =>
    rw [digits, Nat.toDigits_eq_if (by decide)] at h
    split at h
    · next hsmall =>
      have hchar : Nat.digitChar n = '0' := by simpa using h
      have hvalue := Nat.toNat_digitChar_sub_48_of_lt_ten hsmall
      rw [hchar] at hvalue
      exact hvalue.symm
    · next hlarge =>
      rw [List.head?_append_of_ne_nil _ Nat.toDigits_ne_nil] at h
      have hzero := ih (n / 10) (by omega) h
      omega

theorem length_padLeft (width : Nat) (fill : Char) (cs : List Char) :
    (padLeft width fill cs).length = max width cs.length := by
  rw [padLeft, List.length_append, List.length_replicate]
  omega

theorem natOfDigits_padLeft (width : Nat) (cs : List Char) :
    Text.natOfDigits (padLeft width '0' cs) = Text.natOfDigits cs := by
  rw [padLeft, Text.natOfDigits_append, Text.natOfDigits_zeros, Nat.mul_zero, Nat.zero_add]

theorem isDigit_of_mem_padLeft {width : Nat} (h : c ∈ padLeft width '0' (digits n)) :
    Text.isDigit c = true := by
  rcases List.mem_append.mp h with hzero | hdigit
  · rw [(List.mem_replicate.mp hzero).2]
    rfl
  · exact isDigit_of_mem_digits hdigit

/-! ### Dropping final zeros -/

/-- Places without the zeros at their end, but at least one. -/
def leanPlaces (ds : List Char) : List Char :=
  if Text.dropEndWhile (· == '0') ds = [] then ['0'] else Text.dropEndWhile (· == '0') ds

theorem exists_final_zeros (ds : List Char) : ∃ count,
    ds = Text.dropEndWhile (· == '0') ds ++ List.replicate count '0' := by
  refine ⟨(ds.rtakeWhile (· == '0')).length, ?_⟩
  have hzeros : ds.rtakeWhile (· == '0') =
      List.replicate (ds.rtakeWhile (· == '0')).length '0' :=
    List.eq_replicate_of_mem fun c hc => by simpa using List.mem_rtakeWhile_imp hc
  rw [Text.dropEndWhile_eq, ← hzeros, List.rdropWhile_append_rtakeWhile]

theorem leanPlaces_ne_nil (ds : List Char) : leanPlaces ds ≠ [] := by
  unfold leanPlaces
  split
  · exact List.cons_ne_nil _ _
  · assumption

theorem isDigit_of_mem_leanPlaces (hds : ∀ c ∈ ds, Text.isDigit c = true)
    (h : c ∈ leanPlaces ds) : Text.isDigit c = true := by
  unfold leanPlaces at h
  split at h
  · rw [List.mem_singleton.mp h]
    rfl
  · exact hds c ((List.rdropWhile_prefix _ ds).subset h)

theorem leanPlaces_lean (h : (leanPlaces ds).getLast? = some '0') : leanPlaces ds = ['0'] := by
  unfold leanPlaces at h ⊢
  split
  · rfl
  · next hne =>
    rw [if_neg hne, List.getLast?_eq_getLast_of_ne_nil hne, Option.some.injEq] at h
    exact absurd (beq_iff_eq.mpr h) (List.rdropWhile_last_not _ ds hne)

theorem length_leanPlaces_le (ds : List Char) : (leanPlaces ds).length ≤ max 1 ds.length := by
  unfold leanPlaces
  split
  · exact Nat.le_max_left _ _
  · exact ((List.rdropWhile_prefix _ ds).length_le).trans (Nat.le_max_right _ _)

theorem value_leanPlaces (ds : List Char) :
    (Text.natOfDigits (leanPlaces ds) : ℚ) / 10 ^ (leanPlaces ds).length =
      Text.natOfDigits ds / 10 ^ ds.length := by
  obtain ⟨count, hzeros⟩ := exists_final_zeros ds
  have hvalue : Text.natOfDigits ds =
      10 ^ count * Text.natOfDigits (Text.dropEndWhile (· == '0') ds) := by
    conv_lhs => rw [hzeros]
    rw [Text.natOfDigits_append, List.length_replicate, Text.natOfDigits_zeros, Nat.add_zero]
  have hlength : ds.length = (Text.dropEndWhile (· == '0') ds).length + count := by
    conv_lhs => rw [hzeros]
    rw [List.length_append, List.length_replicate]
  rw [hvalue, hlength]
  unfold leanPlaces
  split
  · next hnil =>
    rw [hnil]
    simp [Text.natOfDigits, Text.digitValue]
  · push_cast
    rw [pow_add]
    field_simp

end Number

/-- A decimal in its shortest form. -/
structure Decimal where
  whole : List Char
  places : List Char
  whole_ne_nil : whole ≠ []
  places_ne_nil : places ≠ []
  isDigit_whole : ∀ c ∈ whole, Text.isDigit c = true
  isDigit_places : ∀ c ∈ places, Text.isDigit c = true
  whole_lean : whole.head? = some '0' → whole = ['0']
  places_lean : places.getLast? = some '0' → places = ['0']

namespace Decimal

variable {d e : Decimal}

def text (d : Decimal) : String := String.ofList (d.whole ++ '.' :: d.places)

def value (d : Decimal) : ℚ :=
  Text.natOfDigits d.whole + Text.natOfDigits d.places / 10 ^ d.places.length

theorem point_notMem_whole (d : Decimal) : '.' ∉ d.whole :=
  fun h => absurd (d.isDigit_whole '.' h) (by decide)

theorem eq_of_text (h : d.text = e.text) : d = e := by
  have hchars : d.whole ++ '.' :: d.places = e.whole ++ '.' :: e.places := String.ofList_injective h
  have hd : Text.cut? '.' (d.whole ++ '.' :: d.places) = some (d.whole, d.places) :=
    Text.cut?_eq_some_iff.mpr ⟨rfl, d.point_notMem_whole⟩
  have he : Text.cut? '.' (d.whole ++ '.' :: d.places) = some (e.whole, e.places) :=
    Text.cut?_eq_some_iff.mpr ⟨hchars, e.point_notMem_whole⟩
  obtain ⟨hwhole, hplaces⟩ := Prod.mk.inj (Option.some.inj (hd.symm.trans he))
  obtain ⟨whole, places⟩ := d
  obtain ⟨whole', places'⟩ := e
  obtain rfl : whole = whole' := hwhole
  obtain rfl : places = places' := hplaces
  rfl

/-! ### A fixed count of places -/

section OfPlaces

variable (places n : Nat)

/-- The digits of a number, with at least one in front of the places. -/
def paddedDigits : List Char := Number.padLeft (places + 1) '0' (Number.digits n)

def wholeDigits : List Char :=
  (paddedDigits places n).take ((paddedDigits places n).length - places)

def placeDigits : List Char :=
  (paddedDigits places n).drop ((paddedDigits places n).length - places)

theorem wholeDigits_append : wholeDigits places n ++ placeDigits places n = paddedDigits places n :=
  List.take_append_drop _ _

theorem length_wholeDigits :
    (wholeDigits places n).length = max (places + 1) (Number.digits n).length - places := by
  rw [wholeDigits, List.length_take, paddedDigits, Number.length_padLeft]
  omega

theorem length_placeDigits : (placeDigits places n).length = places := by
  rw [placeDigits, List.length_drop, paddedDigits, Number.length_padLeft]
  omega

theorem isDigit_of_mem_paddedDigits : ∀ c ∈ paddedDigits places n, Text.isDigit c = true :=
  fun _ => Number.isDigit_of_mem_padLeft

theorem isDigit_of_mem_placeDigits : ∀ c ∈ placeDigits places n, Text.isDigit c = true :=
  fun c hc => isDigit_of_mem_paddedDigits places n c (List.mem_of_mem_drop hc)

/-- A zero in front is the only digit before the point: without it there would be none. -/
theorem wholeDigits_lean (h : (wholeDigits places n).head? = some '0') :
    wholeDigits places n = ['0'] := by
  have hlength := length_wholeDigits places n
  rcases Nat.lt_or_ge (places + 1) (Number.digits n).length with hlong | hshort
  · have hdigits : paddedDigits places n = Number.digits n := by
      rw [paddedDigits, Number.padLeft, Nat.sub_eq_zero_of_le hlong.le, List.replicate_zero,
        List.nil_append]
    have hhead : (Number.digits n).head? = some '0' := by
      rw [← hdigits, ← wholeDigits_append, List.head?_append, h]
      rfl
    obtain rfl := Number.eq_zero_of_head?_digits hhead
    exact absurd hlong (by simp [Number.digits])
  · obtain ⟨c, hc⟩ := List.length_eq_one_iff.mp (show (wholeDigits places n).length = 1 by omega)
    rw [hc, List.head?_cons] at h
    rw [hc, Option.some.inj h]

def ofPlaces : Decimal where
  whole := wholeDigits places n
  places := Number.leanPlaces (placeDigits places n)
  whole_ne_nil := by
    refine List.ne_nil_of_length_pos ?_
    rw [length_wholeDigits]
    omega
  places_ne_nil := Number.leanPlaces_ne_nil _
  isDigit_whole c hc := isDigit_of_mem_paddedDigits places n c (List.mem_of_mem_take hc)
  isDigit_places _ hc := Number.isDigit_of_mem_leanPlaces (isDigit_of_mem_placeDigits places n) hc
  whole_lean := wholeDigits_lean places n
  places_lean := Number.leanPlaces_lean

theorem length_places_ofPlaces : (ofPlaces places n).places.length ≤ max 1 places := by
  have h := Number.length_leanPlaces_le (placeDigits places n)
  rwa [length_placeDigits] at h

theorem value_ofPlaces : (ofPlaces places n).value = n / 10 ^ places := by
  have hdigits : 10 ^ places * Text.natOfDigits (wholeDigits places n) +
      Text.natOfDigits (placeDigits places n) = n := by
    have happend := Text.natOfDigits_append (wholeDigits places n) (placeDigits places n)
    rwa [wholeDigits_append, length_placeDigits, paddedDigits, Number.natOfDigits_padLeft,
      Number.natOfDigits_digits, eq_comm] at happend
  have hvalue := Number.value_leanPlaces (placeDigits places n)
  rw [length_placeDigits] at hvalue
  calc (ofPlaces places n).value = Text.natOfDigits (wholeDigits places n) +
        Text.natOfDigits (placeDigits places n) / 10 ^ places := by rw [value, ofPlaces, hvalue]
    _ = (10 ^ places * Text.natOfDigits (wholeDigits places n) +
        Text.natOfDigits (placeDigits places n) : ℕ) / 10 ^ places := by
      push_cast
      field_simp
    _ = n / 10 ^ places := by rw [hdigits]

end OfPlaces

end Decimal

end PackIndex
