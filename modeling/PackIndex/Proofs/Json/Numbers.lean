import PackIndex.Json.Reader
import PackIndex.Json.Writer
import PackIndex.Proofs.Number.Decimal
import PackIndex.Proofs.Number.Shortest

/-!
# Numbers of JSON texts

The text of a number is a numeral: a sign, whole digits, places and a power of ten. A numeral is read
up to the first character that cannot continue it. The numeral of a whole number denotes that number,
and the numeral of a double a number that is rounded to the double, so that both are read back.
-/

namespace PackIndex.Json

variable {limits : Limits} {c : Char} {ds rest : List Char} {rank : Nat}

/-- Whether no value goes on with these characters: they are the end of a text, or start with what
stands behind an item or member. -/
def Ends (rest : List Char) : Prop := ∀ c ∈ rest.head?, c = ',' ∨ c = ']' ∨ c = '}'

/-- A number as it is spelled behind its sign. -/
structure Numeral where
  whole : List Char
  places : List Char
  power : Option Int
  whole_ne_nil : whole ≠ []
  isDigit_whole : ∀ c ∈ whole, Text.isDigit c = true
  isDigit_places : ∀ c ∈ places, Text.isDigit c = true
  whole_lean : whole.head? = some '0' → whole = ['0']

namespace Numeral

def fraction (m : Numeral) : List Char := if m.places = [] then [] else '.' :: m.places

def exponent (m : Numeral) : List Char :=
  match m.power with
  | none => []
  | some power => 'e' :: (if power < 0 then '-' else '+') :: Number.digits power.natAbs

def chars (m : Numeral) : List Char := m.whole ++ (m.fraction ++ m.exponent)

def digits (m : Numeral) : Nat := Text.natOfDigits (m.whole ++ m.places)

def scale (m : Numeral) : Int := m.power.getD 0 - m.places.length

def value? (limits : Limits) (negative : Bool) (m : Numeral) : Option Value :=
  if m.places = [] ∧ m.power = none then
    integer? limits (if negative then -(m.digits : Int) else m.digits)
  else finite? (Binary64.ofDecimal negative m.digits m.scale)

end Numeral

def sign (negative : Bool) : List Char := if negative then ['-'] else []

/-! ### Reading a numeral -/

theorem Ends.isDigit_head? (h : Ends rest) : ∀ c ∈ rest.head?, Text.isDigit c = false := by
  intro c hc
  rcases h c hc with rfl | rfl | rfl <;> decide

theorem spanDigits_append (hds : ∀ c ∈ ds, Text.isDigit c = true)
    (hrest : ∀ c ∈ rest.head?, Text.isDigit c = false) :
    Text.spanDigits (ds ++ rest) = (ds, rest) := by
  rw [Text.spanDigits, List.takeWhile_append_of_pos hds, List.dropWhile_append_of_pos hds]
  cases rest with
  | nil => rw [List.takeWhile_nil, List.dropWhile_nil, List.append_nil]
  | cons c rest =>
    have hc : ¬ Text.isDigit c = true := by rw [hrest c rfl]; decide
    rw [List.takeWhile_cons_of_neg hc, List.dropWhile_cons_of_neg hc, List.append_nil]

theorem digits_ne_nil (n : Nat) : Number.digits n ≠ [] := Nat.toDigits_ne_nil

namespace Numeral

variable (m : Numeral)

theorem head?_fraction (hends : Ends rest) : ∀ c ∈ (m.fraction ++ (m.exponent ++ rest)).head?,
    Text.isDigit c = false := by
  unfold fraction exponent
  split
  · cases m.power with
    | none => exact hends.isDigit_head?
    | some _ => rintro c ⟨⟩; decide
  · rintro c ⟨⟩
    decide

theorem head?_exponent (hends : Ends rest) : ∀ c ∈ (m.exponent ++ rest).head?,
    Text.isDigit c = false ∧ c ≠ '.' := by
  unfold exponent
  cases m.power with
  | none =>
    intro c hc
    rcases hends c hc with rfl | rfl | rfl <;> decide
  | some _ => rintro c ⟨⟩; decide

theorem fraction?_chars (hends : Ends rest) :
    fraction? (m.fraction ++ (m.exponent ++ rest)) = some (m.places, m.exponent ++ rest) := by
  have hhead := m.head?_exponent hends
  unfold fraction
  split
  · next hnil =>
    rw [List.nil_append, hnil]
    cases hrest : m.exponent ++ rest with
    | nil => rfl
    | cons c cs =>
      rw [hrest] at hhead
      rw [fraction?]
      rintro more ⟨⟩
      exact (hhead '.' rfl).2 rfl
  · next hne =>
    rw [List.cons_append, fraction?, spanDigits_append m.isDigit_places fun c hc => (hhead c hc).1]
    obtain ⟨d, ds, hds⟩ := List.exists_cons_of_ne_nil hne
    rw [hds]

theorem exponent?_chars (hends : Ends rest) :
    exponent? (m.exponent ++ rest) = some (m.power, rest) := by
  unfold exponent
  cases m.power with
  | none =>
    rw [List.nil_append]
    cases rest with
    | nil => rfl
    | cons c cs =>
      have hletter : ¬ (c = 'e' ∨ c = 'E') := by
        rcases hends c rfl with rfl | rfl | rfl <;> decide
      simp only [exponent?, if_neg hletter]
  | some power =>
    have hspan := spanDigits_append (fun c => Number.isDigit_of_mem_digits (n := power.natAbs))
      hends.isDigit_head?
    obtain ⟨d, ds, hds⟩ := List.exists_cons_of_ne_nil (digits_ne_nil power.natAbs)
    have hvalue := Number.natOfDigits_digits power.natAbs
    simp only [List.cons_append, exponent?, true_or, if_true]
    rw [hds] at hspan hvalue ⊢
    by_cases hsign : power < 0
    · simp only [if_pos hsign, hspan, hvalue, if_true]
      rw [show -(power.natAbs : Int) = power by omega]
    · simp only [if_neg hsign, hspan, hvalue, Bool.false_eq_true, if_false]
      rw [show (power.natAbs : Int) = power by omega]

theorem head?_whole (rest : List Char) : (m.whole ++ rest).head? ≠ some '-' := by
  obtain ⟨d, ds, hds⟩ := List.exists_cons_of_ne_nil m.whole_ne_nil
  have hdigit := m.isDigit_whole d (by rw [hds]; exact List.mem_cons_self)
  rw [hds, List.cons_append, List.head?_cons, ne_eq, Option.some.injEq]
  rintro rfl
  exact absurd hdigit (by decide)

theorem number?_chars (negative : Bool) (hends : Ends rest) :
    number? limits (sign negative ++ (m.chars ++ rest)) =
      (m.value? limits negative).map (·, rest) := by
  have hspan := spanDigits_append m.isDigit_whole (m.head?_fraction hends)
  have hwhole : ¬ (m.whole = [] ∨ m.whole.length > 1 ∧ m.whole.head? = some '0') := by
    rintro (hnil | ⟨hlong, hzero⟩)
    · exact m.whole_ne_nil hnil
    · rw [m.whole_lean hzero] at hlong
      exact absurd hlong (by decide)
  have hvalue : (if m.places = [] ∧ m.power = none then
        (integer? limits (if negative then -(Text.natOfDigits m.whole : Int)
          else Text.natOfDigits m.whole)).bind fun v => some (v, rest)
      else (finite? (Binary64.ofDecimal negative (Text.natOfDigits (m.whole ++ m.places))
        (m.power.getD 0 - m.places.length))).bind fun v => some (v, rest)) =
      (m.value? limits negative).map (·, rest) := by
    unfold value? digits scale
    split
    · next hint => rw [hint.1, List.append_nil, Option.map_eq_bind]; rfl
    · rw [Option.map_eq_bind]; rfl
  -- without a sign the first digit must not be taken for one
  have hhead := m.head?_whole (m.fraction ++ (m.exponent ++ rest))
  unfold chars sign number?
  cases negative with
  | false =>
    simp only [Bool.false_eq_true, if_false, List.nil_append, List.append_assoc]
    split
    · next heq =>
      rw [heq] at hhead
      exact absurd rfl hhead
    · simp only [hspan, if_neg hwhole, m.fraction?_chars hends, m.exponent?_chars hends,
        Option.bind_eq_bind, Option.bind_some]
      exact hvalue
  | true =>
    simp only [if_true, List.cons_append, List.nil_append, List.append_assoc, hspan, if_neg hwhole,
      m.fraction?_chars hends, m.exponent?_chars hends, Option.bind_eq_bind, Option.bind_some]
    exact hvalue

/-! ### The characters of a numeral -/

theorem exists_head (negative : Bool) : ∃ c cs, sign negative ++ m.chars = c :: cs ∧
    (c = '-' ∨ Text.isDigit c = true) := by
  cases negative with
  | true => exact ⟨'-', m.chars, rfl, Or.inl rfl⟩
  | false =>
    obtain ⟨d, ds, hds⟩ := List.exists_cons_of_ne_nil m.whole_ne_nil
    refine ⟨d, ds ++ (m.fraction ++ m.exponent), ?_, Or.inr (m.isDigit_whole d ?_)⟩
    · rw [chars, hds]
      rfl
    · rw [hds]
      exact List.mem_cons_self

theorem ne_of_head {x : Char} (hc : c = '-' ∨ Text.isDigit c = true)
    (hx : x ≠ '-' ∧ Text.isDigit x = false) : c ≠ x := by
  rintro rfl
  rcases hc with hc | hc
  · exact hx.1 hc
  · exact absurd hc (by rw [hx.2]; decide)

theorem le_of_isDigit (h : Text.isDigit c = true) : 0x20 ≤ c.toNat := by
  rw [Text.isDigit, Bool.and_eq_true, decide_eq_true_eq, Char.le_def] at h
  have hzero : (0x30 : UInt32).toNat ≤ c.val.toNat := UInt32.le_iff_toNat_le.mp h.1
  exact Nat.le_trans (by decide) hzero

theorem le_of_mem_chars {negative : Bool} (h : c ∈ sign negative ++ m.chars) : 0x20 ≤ c.toNat := by
  have hdigits {ds : List Char} (hds : ∀ c ∈ ds, Text.isDigit c = true) :
      ∀ c ∈ ds, 0x20 ≤ c.toNat := fun c hc => le_of_isDigit (hds c hc)
  unfold sign chars fraction exponent at h
  rcases List.mem_append.mp h with h | h
  · split at h
    · rw [List.mem_singleton.mp h]
      decide
    · cases h
  rcases List.mem_append.mp h with h | h
  · exact hdigits m.isDigit_whole c h
  rcases List.mem_append.mp h with h | h
  · split at h
    · cases h
    · rcases List.mem_cons.mp h with rfl | h
      · decide
      · exact hdigits m.isDigit_places c h
  · cases hpower : m.power with
    | none =>
      rw [hpower] at h
      cases h
    | some power =>
      rw [hpower] at h
      rcases List.mem_cons.mp h with rfl | h
      · decide
      rcases List.mem_cons.mp h with rfl | h
      · split <;> decide
      · exact hdigits (fun _ => Number.isDigit_of_mem_digits) c h

end Numeral

/-! ### The numerals of whole numbers -/

theorem digits_lean {n : Nat} (h : (Number.digits n).head? = some '0') :
    Number.digits n = ['0'] := by
  rw [Number.eq_zero_of_head?_digits h]
  rfl

/-- The numeral of a whole number. -/
def Numeral.ofNat (n : Nat) : Numeral where
  whole := Number.digits n
  places := []
  power := none
  whole_ne_nil := digits_ne_nil n
  isDigit_whole _ := Number.isDigit_of_mem_digits
  isDigit_places := nofun
  whole_lean := digits_lean

theorem toList_intText (n : Int) :
    (Number.intText n).toList = sign (n < 0) ++ (Numeral.ofNat n.natAbs).chars := by
  have hchars : (Numeral.ofNat n.natAbs).chars = Number.digits n.natAbs := List.append_nil _
  have htext : (Number.natText n.natAbs).toList = Number.digits n.natAbs := String.toList_ofList
  unfold Number.intText sign
  rw [hchars]
  by_cases hneg : n < 0
  · rw [if_pos hneg, if_pos (decide_eq_true hneg), String.toList_append, htext]
    rfl
  · rw [if_neg hneg, if_neg (by simpa using hneg), htext]
    rfl

theorem value?_ofNat (limits : Limits) (n : Int) :
    (Numeral.ofNat n.natAbs).value? limits (n < 0) = integer? limits n := by
  have hdigits : (Numeral.ofNat n.natAbs).digits = n.natAbs := by
    rw [Numeral.digits, Numeral.ofNat, List.append_nil, Number.natOfDigits_digits]
  rw [Numeral.value?, if_pos ⟨rfl, rfl⟩, hdigits]
  congr 1
  simp only [decide_eq_true_eq]
  split <;> omega

/-! ### The numerals of doubles -/

/-- Whether a text spells a number, and not as a whole one. -/
def Spells (q : ℚ) (text : List Char) : Prop :=
  ∃ m : Numeral, m.chars = text ∧ ¬ (m.places = [] ∧ m.power = none) ∧
    (m.digits : ℚ) * 10 ^ m.scale = q

section Layout

variable {n : Nat} {e : Int}

theorem digits_head (hn : n ≠ 0) : (Number.digits n).head? ≠ some '0' :=
  fun h => hn (Number.eq_zero_of_head?_digits h)

theorem isDigit_of_mem_zeros {count : Nat} (h : c ∈ List.replicate count '0') :
    Text.isDigit c = true := by
  rw [(List.mem_replicate.mp h).2]
  rfl

namespace Numeral

theorem chars_of_places {m : Numeral} (hplaces : m.places ≠ []) (hpower : m.power = none) :
    m.chars = m.whole ++ '.' :: m.places := by
  rw [chars, fraction, if_neg hplaces, exponent, hpower, List.append_nil]

variable (n) (zeros p : Nat) (hn : n ≠ 0) (hp : 0 < p) (power : Option Int)

def below : Numeral where
  whole := ['0']
  places := List.replicate zeros '0' ++ Number.digits n
  power := none
  whole_ne_nil := List.cons_ne_nil _ _
  isDigit_whole := List.forall_mem_singleton.mpr rfl
  isDigit_places _ h := (List.mem_append.mp h).elim isDigit_of_mem_zeros Number.isDigit_of_mem_digits
  whole_lean _ := rfl

theorem digits_below : (below n zeros).digits = n := by
  rw [digits, below, Text.natOfDigits_append, Text.natOfDigits_append, Text.natOfDigits_zeros,
    Number.natOfDigits_digits, Nat.mul_zero, Nat.zero_add]
  exact Nat.zero_add n

def above : Numeral where
  whole := Number.digits n ++ List.replicate zeros '0'
  places := ['0']
  power := none
  whole_ne_nil := List.append_ne_nil_of_left_ne_nil (digits_ne_nil n) _
  isDigit_whole _ h := (List.mem_append.mp h).elim Number.isDigit_of_mem_digits isDigit_of_mem_zeros
  isDigit_places := List.forall_mem_singleton.mpr rfl
  whole_lean h := by
    rw [List.head?_append_of_ne_nil _ (digits_ne_nil n)] at h
    exact absurd h (digits_head hn)

theorem digits_above : (above n zeros hn).digits = n * 10 ^ (zeros + 1) := by
  rw [digits, above, Text.natOfDigits_append, Text.natOfDigits_append, Text.natOfDigits_zeros,
    Number.natOfDigits_digits, List.length_replicate, Nat.pow_succ]
  change 10 ^ 1 * (10 ^ zeros * n + 0) + 0 = _
  ring

def around : Numeral where
  whole := (Number.digits n).take p
  places := (Number.digits n).drop p
  power := power
  whole_ne_nil h := (List.take_eq_nil_iff.mp h).elim hp.ne' (digits_ne_nil n)
  isDigit_whole _ h := Number.isDigit_of_mem_digits (List.mem_of_mem_take h)
  isDigit_places _ h := Number.isDigit_of_mem_digits (List.mem_of_mem_drop h)
  whole_lean h := by
    rw [List.head?_take, if_neg hp.ne'] at h
    exact absurd h (digits_head hn)

theorem digits_around : (around n p hn hp power).digits = n := by
  rw [digits, around, List.take_append_drop, Number.natOfDigits_digits]

end Numeral

theorem spells_positional (hn : n ≠ 0) :
    Spells (n * 10 ^ e) (Number.positional (Number.digits n) (e + (Number.digits n).length)) := by
  unfold Number.positional
  split
  · next hpoint =>
    have hplaces : (Numeral.below n (e + (Number.digits n).length).natAbs).places ≠ [] :=
      List.append_ne_nil_of_right_ne_nil _ (digits_ne_nil n)
    refine ⟨_, Numeral.chars_of_places hplaces rfl, fun h => hplaces h.1, ?_⟩
    rw [Numeral.digits_below, Numeral.scale, Numeral.below, List.length_append,
      List.length_replicate, Option.getD_none]
    congr 2
    omega
  next hpoint =>
  simp only
  split
  · next hshort =>
    generalize hzeros : (e + (Number.digits n).length).natAbs - (Number.digits n).length = zeros
    refine ⟨.above n zeros hn, Numeral.chars_of_places (List.cons_ne_nil _ _) rfl,
      fun h => List.cons_ne_nil _ _ h.1, ?_⟩
    rw [Numeral.digits_above, Numeral.scale, Numeral.above, Option.getD_none, List.length_singleton]
    obtain rfl : e = zeros := by omega
    push_cast
    rw [pow_succ, ← mul_assoc, zpow_neg_one, zpow_natCast, mul_inv_cancel_right₀ (by norm_num)]
  · next hlong =>
    generalize hp : (e + (Number.digits n).length).natAbs = p at hlong
    have hplaces : (Numeral.around n p hn (by omega) none).places ≠ [] := by
      rw [Numeral.around, ne_eq, List.drop_eq_nil_iff]
      exact hlong
    refine ⟨_, Numeral.chars_of_places hplaces rfl, fun h => hplaces h.1, ?_⟩
    rw [Numeral.digits_around, Numeral.scale, Numeral.around, List.length_drop, Option.getD_none]
    congr 2
    omega

theorem spells_scientific (hn : n ≠ 0) : Spells (n * 10 ^ e)
    (Number.scientific .json (Number.digits n) (e + (Number.digits n).length - 1)) := by
  have hlength := List.length_pos_iff.mpr (digits_ne_nil n)
  have hpower (k : Nat) :
      Number.padLeft NumberStyle.json.exponentDigits '0' (Number.digits k) = Number.digits k := by
    have hone : 1 - (Number.digits k).length = 0 :=
      Nat.sub_eq_zero_of_le (List.length_pos_iff.mpr (digits_ne_nil k))
    rw [Number.padLeft, NumberStyle.json, hone, List.replicate_zero, List.nil_append]
  refine ⟨.around n 1 hn Nat.one_pos (some (e + (Number.digits n).length - 1)), ?_,
    fun h => Option.some_ne_none _ h.2, ?_⟩
  · generalize e + (Number.digits n).length - 1 = power
    have hsign : (if power < 0 then ['-'] else if NumberStyle.json.exponentPlus then ['+'] else []) =
        [if power < 0 then '-' else '+'] := by
      split <;> rfl
    have hmantissa : (if (Number.digits n).length ≤ 1 then Number.digits n
        else (Number.digits n).take 1 ++ '.' :: (Number.digits n).drop 1) =
        (Number.digits n).take 1 ++
          (if (Number.digits n).drop 1 = [] then [] else '.' :: (Number.digits n).drop 1) := by
      by_cases hshort : (Number.digits n).length ≤ 1
      · rw [if_pos hshort, if_pos (List.drop_eq_nil_of_le hshort), List.append_nil,
          List.take_of_length_le hshort]
      · rw [if_neg hshort, if_neg (hshort ∘ List.drop_eq_nil_iff.mp)]
    rw [Number.scientific, hpower, hsign, hmantissa, List.append_assoc]
    rfl
  · rw [Numeral.digits_around, Numeral.scale, Numeral.around, List.length_drop, Option.getD_some]
    congr 2
    omega

end Layout

theorem exists_numeral (hfinite : rank < infinityRank) :
    ∃ m : Numeral, m.chars = Number.magnitudeText .json rank ∧
      ¬ (m.places = [] ∧ m.power = none) ∧
      ∀ negative, Binary64.ofDecimal negative m.digits m.scale = Binary64.ofRank negative rank := by
  rcases Nat.eq_zero_or_pos rank with rfl | hrank
  · have hzero : ∀ c ∈ ['0'], Text.isDigit c = true := List.forall_mem_singleton.mpr rfl
    exact ⟨⟨['0'], ['0'], none, List.cons_ne_nil _ _, hzero, hzero, fun _ => rfl⟩, rfl, nofun,
      fun _ => rfl⟩
  · have hround := Binary64.roundsTo_shortest hrank hfinite
    generalize hshortest : Binary64.shortest rank = found at hround
    obtain ⟨n, e⟩ := found
    have hn : n ≠ 0 := by
      rintro rfl
      exact absurd hround.pos (by simp)
    have hspells : Spells (n * 10 ^ e) (Number.magnitudeText .json rank) := by
      rw [Number.magnitudeText, if_neg hrank.ne', hshortest]
      simp only
      split
      · exact spells_positional hn
      · exact spells_scientific hn
    obtain ⟨m, hchars, hplaces, hvalue⟩ := hspells
    refine ⟨m, hchars, hplaces, fun negative => Binary64.ofDecimal_eq negative hrank hfinite ?_⟩
    rwa [hvalue]

theorem exists_numeral_text {x : Binary64} (hx : x.isFinite = true) :
    ∃ (negative : Bool) (m : Numeral), (x.text .json).toList = sign negative ++ m.chars ∧
      ∀ limits, m.value? limits negative = some (.float x) := by
  cases x with
  | nan => cases hx
  | signed negative rank hrank =>
    have hfinite : rank < infinityRank := of_decide_eq_true hx
    obtain ⟨m, hchars, hplaces, hvalue⟩ := exists_numeral hfinite
    refine ⟨negative, m, ?_, fun limits => ?_⟩
    · rw [Binary64.text, if_neg hfinite.ne, hchars, String.toList_ofList]
      cases negative <;> rfl
    · have hself : Binary64.ofRank negative rank = .signed negative rank hrank := by
        simp only [Binary64.ofRank, Nat.min_eq_left hrank]
      rw [Numeral.value?, if_neg hplaces, hvalue, hself, finite?, if_pos hx]

theorem text_of_not_isFinite {x : Binary64} (hx : ¬ x.isFinite = true) : x.text .json = "null" := by
  cases x with
  | nan => rfl
  | signed negative rank hrank =>
    have hinfinite : rank = infinityRank :=
      Nat.le_antisymm hrank (Nat.not_lt.mp fun h => hx (decide_eq_true h))
    rw [Binary64.text, if_pos hinfinite]
    cases negative <;> rfl

end PackIndex.Json
