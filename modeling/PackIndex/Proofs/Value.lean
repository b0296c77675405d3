import Mathlib.Data.List.Nodup
import PackIndex.Value

/-!
# Values and mappings

What holds of every value is proved by an induction that goes through lists and mappings. A mapping
whose keys differ is what its pairs set one after the other, and an update takes the new value of a
key where there is one.
-/

namespace PackIndex

/-- A property that the items of lists and the values of mappings pass on holds of every value. -/
@[elab_as_elim]
theorem Value.nested {P : Value → Prop} (null : P .null) (bool : ∀ b, P (.bool b))
    (int : ∀ n, P (.int n)) (float : ∀ x, P (.float x)) (str : ∀ s, P (.str s))
    (list : ∀ items, (∀ v ∈ items, P v) → P (.list items))
    (tuple : ∀ items, (∀ v ∈ items, P v) → P (.tuple items))
    (dict : ∀ fields, (∀ field ∈ fields, P field.2) → P (.dict fields))
    (path : ∀ p, P (.path p)) (sentinel : ∀ s, P (.sentinel s))
    (foreign : ∀ typeName text quotedText hasMembers,
      P (.foreign typeName text quotedText hasMembers)) (v : Value) : P v :=
  @Value.rec P (fun items => ∀ v ∈ items, P v) (fun fields => ∀ field ∈ fields, P field.2)
    (fun field => P field.2) null bool int float str list tuple dict path sentinel foreign
    nofun (fun _ _ hv hitems => List.forall_mem_cons.mpr ⟨hv, hitems⟩)
    nofun (fun _ _ hfield hfields => List.forall_mem_cons.mpr ⟨hfield, hfields⟩)
    (fun _ _ hv => hv) v

namespace Fields

variable {key : String} {v : Value} {fields new : Fields}

def keys (fields : Fields) : List String := fields.map Prod.fst

theorem get?_eq_none_iff : get? key fields = none ↔ key ∉ keys fields := by
  induction fields with
  | nil => exact iff_of_true rfl List.not_mem_nil
  | cons field rest ih =>
    obtain ⟨k, v⟩ := field
    rw [get?, keys, List.map_cons, List.mem_cons, not_or]
    by_cases h : k = key
    · rw [if_pos h]
      exact iff_of_false (Option.some_ne_none v) fun hne => hne.1 h.symm
    · rw [if_neg h, ih]
      exact ⟨fun hrest => ⟨Ne.symm h, hrest⟩, And.right⟩

theorem get?_of_mem (h : (keys fields).Nodup) (hmem : (key, v) ∈ fields) :
    get? key fields = some v := by
  induction fields with
  | nil => cases hmem
  | cons field rest ih =>
    obtain ⟨k, w⟩ := field
    obtain ⟨hk, hrest⟩ := List.nodup_cons.mp h
    rw [get?]
    rcases List.mem_cons.mp hmem with heq | hmem
    · obtain ⟨rfl, rfl⟩ := Prod.mk.inj heq
      rw [if_pos rfl]
    · have hne : k ≠ key := by
        rintro rfl
        exact hk (List.mem_map.mpr ⟨(k, v), hmem, rfl⟩)
      rw [if_neg hne, ih hrest hmem]

theorem mem_of_get? (h : get? key fields = some v) : (key, v) ∈ fields := by
  induction fields with
  | nil => cases h
  | cons field rest ih =>
    obtain ⟨k, w⟩ := field
    rw [get?] at h
    split at h
    · next heq =>
      obtain rfl := Option.some.inj h
      rw [heq]
      exact List.mem_cons_self
    · exact List.mem_cons_of_mem _ (ih h)

theorem set_of_notMem (h : key ∉ keys fields) (v : Value) :
    set key v fields = fields ++ [(key, v)] := by
  induction fields with
  | nil => rfl
  | cons field rest ih =>
    obtain ⟨k, w⟩ := field
    obtain ⟨hk, hrest⟩ := not_or.mp (mt List.mem_cons.mpr h)
    rw [set, if_neg (Ne.symm hk), ih hrest, List.cons_append]

theorem keys_set_of_mem (h : key ∈ keys fields) (v : Value) :
    keys (set key v fields) = keys fields := by
  induction fields with
  | nil => cases h
  | cons field rest ih =>
    obtain ⟨k, w⟩ := field
    rw [set]
    split
    · rfl
    · next hne => exact congrArg (k :: ·) (ih ((List.mem_cons.mp h).resolve_left (Ne.symm hne)))

theorem nodup_keys_set (h : (keys fields).Nodup) (key : String) (v : Value) :
    (keys (set key v fields)).Nodup := by
  by_cases hkey : key ∈ keys fields
  · rwa [keys_set_of_mem hkey]
  · rw [set_of_notMem hkey, keys, List.map_append, List.map_singleton, ← List.concat_eq_append]
    exact h.concat hkey

theorem nodup_keys_update (h : (keys fields).Nodup) (new : Fields) :
    (keys (update fields new)).Nodup := by
  induction new generalizing fields with
  | nil => exact h
  | cons field rest ih => exact ih (nodup_keys_set h _ _)

theorem update_cons (fields : Fields) (key : String) (v : Value) (new : Fields) :
    update fields ((key, v) :: new) = update (set key v fields) new := rfl

theorem get?_update (h : (keys new).Nodup) (name : String) (fields : Fields) :
    get? name (update fields new) = (get? name new).or (get? name fields) := by
  induction new generalizing fields with
  | nil => rfl
  | cons field rest ih =>
    obtain ⟨k, v⟩ := field
    obtain ⟨hk, hrest⟩ := List.nodup_cons.mp h
    rw [update_cons, ih hrest, get?]
    by_cases hname : k = name
    · subst hname
      rw [if_pos rfl, get?_eq_none_iff.mpr hk, get?_set_self]
      rfl
    · rw [if_neg hname, get?_set_of_ne (Ne.symm hname)]

theorem update_eq_append (h : (keys (fields ++ new)).Nodup) : update fields new = fields ++ new := by
  induction new generalizing fields with
  | nil => exact (List.append_nil fields).symm
  | cons field rest ih =>
    obtain ⟨k, v⟩ := field
    have hsplit : fields ++ (k, v) :: rest = fields ++ [(k, v)] ++ rest := by
      rw [List.append_assoc, List.singleton_append]
    have hk : k ∉ keys fields := by
      rw [keys, List.map_append, List.map_cons] at h
      exact fun hmem => (List.nodup_append.mp h).2.2 k hmem k List.mem_cons_self rfl
    rw [update_cons, set_of_notMem hk, ih (hsplit ▸ h), ← hsplit]

end Fields

end PackIndex
