import PackIndex.Proofs.Result
import PackIndex.Proofs.Text.Splitting
import PackIndex.Url.Basic

/-!
# Host parts that cannot be read

A URL is split whatever it says, unless its host part is malformed: one kind of bracket occurs
without the other, the first text in brackets is no address, or a character would be normalized to
a delimiter.
-/

namespace PackIndex

namespace HostAddress

variable {cs : List Char}

theorem isDigit_of_isIPv4 (h : isIPv4 cs = true) {c : Char} (hc : c ∈ cs) (hpoint : c ≠ '.') :
    Text.isDigit c = true := by
  obtain ⟨octet, hoctet, hmem⟩ := Text.mem_splitChars_of_mem hc hpoint
  have hall : (Text.splitChars '.' cs).all isOctet = true := ((Bool.and_eq_true _ _).mp h).2
  have hdigits : isOctet octet = true := List.all_eq_true.mp hall octet hoctet
  simp only [isOctet, Bool.and_eq_true, List.all_eq_true] at hdigits
  exact hdigits.1.1.1.2 c hmem

/-- A text without colons is one group, and an IPv6 address has three at least. -/
theorem not_isIPv6_of_notMem (hcolon : ':' ∉ cs) : isIPv6 cs = false := by
  have hgroups (address : List Char) (h : ∀ c ∈ address, c ∈ cs) :
      (Text.splitChars ':' address).length = 1 := by
    rw [Text.splitChars_of_notMem fun hmem => hcolon (h _ hmem)]
    rfl
  unfold isIPv6
  cases hcut : Text.cut? '%' cs with
  | none => simp only [hgroups cs fun _ => id]; split <;> simp
  | some parts =>
    obtain ⟨address, zone⟩ := parts
    obtain ⟨rfl, -⟩ := Text.cut?_eq_some_iff.mp hcut
    simp only [hgroups address fun _ => List.mem_append_left _]
    split <;> simp

theorem not_isIPv6_of_isIPv4 (h : isIPv4 cs = true) : isIPv6 cs = false := by
  apply not_isIPv6_of_notMem
  intro hcolon
  have := isDigit_of_isIPv4 h hcolon (by decide)
  exact absurd this (by decide)

theorem areGroups_cons {group : List Char} {groups : List (List Char)} (hne : group ≠ [])
    (h : areGroups (group :: groups) = true) : isGroup group = true := by
  unfold areGroups at h
  simp only at h
  split at h
  · simp only [List.all_cons, Bool.and_eq_true] at h
    exact h.2.1
  · simp only [List.take_succ_cons, isSide, List.all_cons, Bool.and_eq_true, Bool.or_eq_true,
      decide_eq_true_eq, List.cons.injEq] at h
    rcases h.1.1.2 with hempty | hall
    · exact absurd hempty.1 hne
    · exact hall.1

theorem expandFinalIPv4?_cons_cons {group next : List Char} {rest groups : List (List Char)}
    (h : expandFinalIPv4? (group :: next :: rest) = some groups) :
    ∃ others, groups = group :: others := by
  unfold expandFinalIPv4? at h
  split at h
  · split at h
    · split at h
      · obtain rfl := Option.some.inj h
        exact ⟨_, rfl⟩
      · cases h
    · obtain rfl := Option.some.inj h
      exact ⟨_, rfl⟩
  · cases h

theorem isIPv6_cons {c : Char} (hcolon : c ≠ ':') (hzone : c ≠ '%') (h : isIPv6 (c :: cs) = true) :
    (Percent.hexValue? c).isSome = true := by
  have haddress (address : List Char) (groups : List (List Char))
      (hexpand : expandFinalIPv4? (Text.splitChars ':' (c :: address)) = some groups)
      (hlength : 3 ≤ (Text.splitChars ':' (c :: address)).length)
      (hgroups : areGroups groups = true) : (Percent.hexValue? c).isSome = true := by
    obtain ⟨piece, pieces, -, hsplit⟩ := Text.splitChars_cons_of_ne hcolon address
    rw [hsplit] at hexpand hlength
    cases pieces with
    | nil => simp at hlength
    | cons next rest =>
      obtain ⟨others, rfl⟩ := expandFinalIPv4?_cons_cons hexpand
      have hgroup := areGroups_cons (List.cons_ne_nil _ _) hgroups
      simp only [isGroup, List.all_cons, Bool.and_eq_true] at hgroup
      exact hgroup.1.2.1
  unfold isIPv6 at h
  rw [Text.cut?, if_neg hzone] at h
  cases hcut : Text.cut? '%' cs with
  | none =>
    simp only [hcut, Option.map_none, Bool.and_eq_true] at h
    split at h
    · simp at h
    · next groups hexpand =>
      simp only [Bool.and_eq_true, decide_eq_true_eq] at h
      exact haddress cs groups hexpand h.2.1.1 h.2.2
  | some parts =>
    simp only [hcut, Option.map_some, Bool.and_eq_true] at h
    split at h
    · simp at h
    · next groups hexpand =>
      simp only [Bool.and_eq_true, decide_eq_true_eq] at h
      exact haddress parts.1 groups hexpand h.2.1.1 h.2.2

end HostAddress

namespace Url

variable {cs host : List Char}

theorem head?_of_isFutureAddress (h : isFutureAddress cs = true) : cs.head? = some 'v' := by
  unfold isFutureAddress at h
  split at h
  · rfl
  · cases h

/-- Text in brackets is right if it is an address of version 6 or of a future version. -/
theorem checkBracketed_eq_ok_iff : checkBracketed cs = .ok () ↔
    HostAddress.isIPv6 cs = true ∨ isFutureAddress cs = true := by
  unfold checkBracketed
  by_cases hv : cs.head? = some 'v'
  · obtain ⟨rest, rfl⟩ := List.head?_eq_some_iff.mp hv
    have hnot : HostAddress.isIPv6 ('v' :: rest) ≠ true := fun h =>
      absurd (HostAddress.isIPv6_cons (by decide) (by decide) h) (by decide)
    cases hfuture : isFutureAddress ('v' :: rest) <;> simp [hnot]
  · have hnot : isFutureAddress cs ≠ true := fun h => hv (head?_of_isFutureAddress h)
    simp only [hv, hnot]
    cases hfour : HostAddress.isIPv4 cs with
    | true => simp [HostAddress.not_isIPv6_of_isIPv4 hfour]
    | false => cases HostAddress.isIPv6 cs <;> simp

/-- What makes a host part unreadable. -/
inductive MalformedHost (host : List Char) : Prop where
  /-- One kind of bracket occurs without the other. -/
  | unbalanced : ¬ ('[' ∈ host ↔ ']' ∈ host) → MalformedHost host
  /-- The text after the first opening bracket and before a closing one is no address. -/
  | noAddress {before after : List Char} : host = before ++ '[' :: after → '[' ∉ before →
      ¬ (HostAddress.isIPv6 (after.takeWhile (· ≠ ']')) = true ∨
        isFutureAddress (after.takeWhile (· ≠ ']')) = true) → MalformedHost host
  /-- A character turns into a delimiter under compatibility normalization. -/
  | lookalike {c : Char} : c ∈ host → c.toNat ∈ delimiterLookalikes → MalformedHost host

theorem checkBrackets_eq_ok_iff : checkBrackets host = .ok () ↔
    ('[' ∈ host ↔ ']' ∈ host) ∧ ∀ before after, host = before ++ '[' :: after → '[' ∉ before →
      HostAddress.isIPv6 (after.takeWhile (· ≠ ']')) = true ∨
        isFutureAddress (after.takeWhile (· ≠ ']')) = true := by
  unfold checkBrackets
  by_cases hbalance : '[' ∈ host ↔ ']' ∈ host
  · rw [if_neg (not_not_intro (propext hbalance))]
    simp only [hbalance, true_and]
    cases hcut : Text.cut? '[' host with
    | none =>
      have hnone := Text.cut?_eq_none_iff.mp hcut
      refine iff_of_true rfl fun before after hhost _ => ?_
      exact absurd (hhost ▸ List.mem_append_right _ List.mem_cons_self) hnone
    | some parts =>
      obtain ⟨before, after⟩ := parts
      simp only [checkBracketed_eq_ok_iff]
      constructor
      · intro haddress before' after' hhost hbefore
        obtain ⟨rfl, rfl⟩ := Prod.mk.inj
          (Option.some.inj (hcut.symm.trans (Text.cut?_eq_some_iff.mpr ⟨hhost, hbefore⟩)))
        exact haddress
      · intro hall
        obtain ⟨hhost, hbefore⟩ := Text.cut?_eq_some_iff.mp hcut
        exact hall before after hhost hbefore
  · rw [if_pos fun h => hbalance (iff_of_eq h)]
    simp [hbalance]

theorem checkHost_eq_ok_iff :
    checkHost host = .ok () ↔ ∀ c ∈ host, c.toNat ∉ delimiterLookalikes := by
  unfold checkHost
  by_cases h : (host.any fun c => delimiterLookalikes.contains c.toNat) = true
  · rw [if_pos h]
    simp only [List.any_eq_true, List.contains_iff_mem] at h
    obtain ⟨c, hc, hmem⟩ := h
    exact iff_of_false (by simp) fun hall => hall c hc hmem
  · rw [if_neg h]
    simp only [List.any_eq_true, List.contains_iff_mem, not_exists, not_and] at h
    exact iff_of_true rfl h

def hostOf (url : String) : List Char := (cutHost (cutScheme (clean url.toList)).2).1

theorem split_eq_ok_iff {url : String} :
    (∃ parts, split url = .ok parts) ↔
      checkBrackets (hostOf url) = .ok () ∧ checkHost (hostOf url) = .ok () := by
  unfold split hostOf
  simp only
  cases checkBrackets (cutHost (cutScheme (clean url.toList)).2).1 with
  | error e => simp
  | ok _ => cases checkHost (cutHost (cutScheme (clean url.toList)).2).1 <;> simp

/-- A URL cannot be split exactly if its host part is malformed. -/
theorem split_eq_error_iff {url : String} :
    (∃ e, split url = .error e) ↔ MalformedHost (hostOf url) := by
  have hnot : (∃ e, split url = .error e) ↔ ¬ ∃ parts, split url = .ok parts := by
    cases split url <;> simp
  rw [hnot, split_eq_ok_iff, checkBrackets_eq_ok_iff, checkHost_eq_ok_iff]
  constructor
  · intro h
    by_contra hgood
    refine h ⟨⟨?_, fun before after hhost hbefore => ?_⟩, fun c hc hmem => ?_⟩
    · exact not_not.mp fun hb => hgood (.unbalanced hb)
    · exact not_not.mp fun ha => hgood (.noAddress hhost hbefore ha)
    · exact hgood (.lookalike hc hmem)
  · rintro hmalformed ⟨⟨hbalance, haddress⟩, hplain⟩
    cases hmalformed with
    | unbalanced hb => exact hb hbalance
    | noAddress hhost hbefore ha => exact ha (haddress _ _ hhost hbefore)
    | lookalike hc hmem => exact hplain _ hc hmem

end Url

end PackIndex
