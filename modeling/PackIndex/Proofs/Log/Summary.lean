import PackIndex.Log.Summary
import PackIndex.Validation.Issue

/-!
# What is withheld from logs

The value of a summarized key is replaced by a summary wherever mappings alone lead to it, however
deep. The items of a list that is short enough to be logged are not looked into, so what stands under
such a key inside of an item is logged as it is. These are all the summarized keys that are logged
with more than a summary.
-/

namespace PackIndex

def Value.at? : List Place → Value → Option Value
  | [], v => some v
  | .field key :: rest, .dict fields => (Fields.get? key fields).bind (at? rest)
  | .index n :: rest, .list items => items[n]?.bind (at? rest)
  | .index n :: rest, .tuple items => items[n]?.bind (at? rest)
  | _ :: _, _ => none

theorem Value.at?_str (s : String) (p : Place) (rest : List Place) :
    (Value.str s).at? (p :: rest) = none := by
  cases p <;> rfl

namespace LogFields

attribute [local irreducible] Home.shorten Home.marker?

variable {home key name : String} {room n : Nat} {fields inner : Fields} {items : List Value}
  {place rest : List Place} {v : Value}

def entry (home : String) (room : Nat) (key : String) (v : Value) : Value :=
  if isSummarized key then .str (summary v) else filterValue home room v

theorem get?_filterFields (home : String) (room : Nat) (key : String) (fields : Fields) :
    Fields.get? key (filterFields home room fields) =
      (Fields.get? key fields).map (entry home room key) := by
  induction fields with
  | nil => rfl
  | cons field rest ih =>
    obtain ⟨k, v⟩ := field
    rw [filterFields, Fields.get?, Fields.get?, ih]
    by_cases h : k = key
    · rw [if_pos h, if_pos h, Option.map_some, entry, h]
    · rw [if_neg h, if_neg h]

theorem shortenText_str (home s : String) :
    shortenText home (.str s) = .str (Home.shorten home s) := rfl

theorem shortenText_sentinel (home : String) (s : Sentinel) :
    shortenText home (.sentinel s) = match Home.marker? home with
      | some _ => .str (Home.shorten home s.word)
      | none => .sentinel s := rfl

theorem at?_shortenText (hne : place ≠ []) (v : Value) :
    (shortenText home v).at? place = v.at? place := by
  obtain ⟨p, rest, rfl⟩ := List.exists_cons_of_ne_nil hne
  cases v with
  | str s => rw [shortenText_str, Value.at?_str, Value.at?_str]
  | sentinel s =>
    have hnone : (Value.sentinel s).at? (p :: rest) = none := by cases p <;> rfl
    rw [shortenText_sentinel]
    cases Home.marker? home with
    | some _ => exact (Value.at?_str _ p rest).trans hnone.symm
    | none => rfl
  | _ => rfl

/-- What can be asked for inside of the items of a logged list is what the items hold. -/
theorem at?_shortened_items (hne : rest ≠ []) (n : Nat) (items : List Value) :
    ((items.map (shortenText home))[n]?.bind fun v => v.at? rest) =
      items[n]?.bind fun v => v.at? rest := by
  rw [List.getElem?_map]
  cases items[n]? with
  | none => rfl
  | some v => exact at?_shortenText hne v

/-- The places in an item of a list that is logged item by item, `room` being how many mappings may
still be nested. -/
inductive InItem : Nat → Fields → List Place → Prop
  | item (room : Nat) {fields : Fields} {key : String} {v : Value} {items : List Value}
      (hv : Fields.get? key fields = some v) (hkey : isSummarized key = false)
      (hitems : v = .list items ∨ v = .tuple items) (hshort : items.length ≤ maxItems) (n : Nat)
      (rest : List Place) : InItem room fields (.field key :: .index n :: rest)
  | field {room : Nat} {fields inner : Fields} {key : String} {place : List Place}
      (hv : Fields.get? key fields = some (.dict inner)) (hkey : isSummarized key = false)
      (h : InItem room inner place) : InItem (room + 1) fields (.field key :: place)

theorem at?_filterFields_cons (hkey : isSummarized key = false)
    (hv : Fields.get? key fields = some v) (place : List Place) :
    (Value.dict (filterFields home room fields)).at? (.field key :: place) =
      (filterValue home room v).at? place := by
  rw [Value.at?, get?_filterFields, hv, Option.map_some, Option.bind_some, entry, hkey]
  rfl

theorem at?_of_inItem (h : InItem room fields place) (key : String) :
    (Value.dict (filterFields home room fields)).at? (place ++ [.field key]) =
      (Value.dict fields).at? (place ++ [.field key]) := by
  induction h with
  | item room hv hkey hitems hshort n rest =>
    rw [List.cons_append, at?_filterFields_cons hkey hv, Value.at?, hv, Option.bind_some]
    have hrest : rest ++ [Place.field key] ≠ [] := List.append_ne_nil_of_right_ne_nil _ (by simp)
    rcases hitems with rfl | rfl
    all_goals
      rw [filterValue, if_pos hshort]
      exact at?_shortened_items hrest n _
  | field hv hkey _ ih =>
    rw [List.cons_append, at?_filterFields_cons hkey hv, Value.at?, hv, Option.bind_some]
    exact ih

theorem filterValue_items (home : String) (room : Nat)
    (hitems : v = .list items ∨ v = .tuple items) : filterValue home room v =
      if items.length ≤ maxItems then .list (items.map (shortenText home))
      else .str ("[list:" ++ Number.natText items.length ++ " items]") := by
  rcases hitems with rfl | rfl <;> rfl

theorem at?_items (hitems : v = .list items ∨ v = .tuple items) (n : Nat) (rest : List Place) :
    v.at? (.index n :: rest) = items[n]?.bind fun item => item.at? rest := by
  rcases hitems with rfl | rfl <;> rfl

/-- What is logged for a list has summarized keys inside only if the list is short, and then in its
items. -/
theorem exists_index_of_at?_filterValue (hitems : v = .list items ∨ v = .tuple items) {w : Value}
    (h : (filterValue home room v).at? (place ++ [.field key]) = some w) :
    items.length ≤ maxItems ∧ ∃ n rest, place = .index n :: rest ∧
      v.at? (place ++ [.field key]) = some w := by
  have hne (rest : List Place) : rest ++ [Place.field key] ≠ [] :=
    List.append_ne_nil_of_right_ne_nil _ (List.cons_ne_nil _ _)
  obtain ⟨p, rest, hplace⟩ := List.exists_cons_of_ne_nil (hne place)
  rw [filterValue_items home room hitems] at h
  split at h
  · next hshort =>
    refine ⟨hshort, ?_⟩
    cases place with
    | nil => cases h
    | cons p rest =>
      cases p with
      | field name => cases h
      | index n =>
        refine ⟨n, rest, rfl, ?_⟩
        rw [List.cons_append, at?_items hitems, ← at?_shortened_items (hne rest)]
        exact h
  · rw [hplace, Value.at?_str] at h
    cases h

theorem inItem_field_iff (hv : Fields.get? key fields = some (.dict inner))
    (hkey : isSummarized key = false) :
    InItem (room + 1) fields (.field key :: place) ↔ InItem room inner place := by
  refine ⟨fun h => ?_, .field hv hkey⟩
  cases h with
  | item _ hitems _ hlist =>
    obtain rfl := Option.some.inj (hv.symm.trans hitems)
    rcases hlist with hlist | hlist <;> cases hlist
  | field hinner _ h =>
    obtain ⟨⟩ := hv.symm.trans hinner
    exact h

/-- Whether a value is neither a list nor a mapping. -/
def IsLeaf : Value → Prop
  | .list _ | .tuple _ | .dict _ => False
  | _ => True

theorem at?_filterValue_leaf (hleaf : IsLeaf v) (p : Place) (rest : List Place) :
    (filterValue home room v).at? (p :: rest) = none := by
  have hself : v.at? (p :: rest) = none →
      (shortenText home v).at? (p :: rest) = none :=
    (at?_shortenText (List.cons_ne_nil p rest) v).trans
  cases v with
  | list _ | tuple _ | dict _ => exact hleaf.elim
  | path _ => exact Value.at?_str _ p rest
  | foreign _ _ _ _ => exact Value.at?_str _ p rest
  | _ => exact hself (by cases p <;> rfl)

/-- Nothing can be asked for inside of the note on a mapping that is nested too deep. -/
theorem at?_truncated (hkey : isSummarized key = true) (place : List Place) :
    (Value.dict truncated).at? (place ++ [.field key]) = none := by
  have hother : "_truncated" ≠ key := by
    rintro rfl
    exact absurd hkey (by decide)
  cases place with
  | nil => rw [List.nil_append, Value.at?, truncated, Fields.get?, if_neg hother]; rfl
  | cons p rest =>
    cases p with
    | index n => rfl
    | field name =>
      obtain ⟨q, more, hrest⟩ := List.exists_cons_of_ne_nil
        (List.append_ne_nil_of_right_ne_nil rest (List.cons_ne_nil (Place.field key) []))
      rw [List.cons_append, hrest, Value.at?, truncated, Fields.get?]
      split
      · exact Value.at?_str _ q more
      · rfl

/-- What is logged under a summarized key is the summary of the value, or in an item of a logged list
the value. -/
theorem exists_of_at?_filterFields (hkey : isSummarized key = true)
    (h : (Value.dict (filterFields home room fields)).at? (place ++ [.field key]) = some v) :
    ∃ w, (Value.dict fields).at? (place ++ [.field key]) = some w ∧
      (¬ InItem room fields place ∧ v = .str (summary w) ∨ InItem room fields place ∧ v = w) := by
  induction place generalizing room fields with
  | nil =>
    rw [List.nil_append, Value.at?, get?_filterFields, Option.bind_eq_some_iff] at h
    obtain ⟨u, hu, hv⟩ := h
    obtain ⟨w, hw, rfl⟩ := Option.map_eq_some_iff.mp hu
    obtain rfl : entry home room key w = v := Option.some.inj hv
    refine ⟨w, by rw [List.nil_append, Value.at?, hw]; rfl, Or.inl ⟨nofun, ?_⟩⟩
    rw [entry, if_pos hkey]
  | cons p rest ih =>
    obtain ⟨q, more, hrest⟩ := List.exists_cons_of_ne_nil
      (List.append_ne_nil_of_right_ne_nil rest (List.cons_ne_nil (Place.field key) []))
    cases p with
    | index n => cases h
    | field name =>
      rw [List.cons_append] at h ⊢
      cases hu : Fields.get? name fields with
      | none =>
        rw [Value.at?, get?_filterFields, hu] at h
        cases h
      | some u =>
        cases hname : isSummarized name with
        | true =>
          rw [Value.at?, get?_filterFields, hu, Option.map_some, Option.bind_some, entry,
            if_pos hname, hrest, Value.at?_str] at h
          cases h
        | false =>
          rw [at?_filterFields_cons hname hu] at h
          rw [Value.at?, hu, Option.bind_some]
          cases u with
          | list items =>
            obtain ⟨hshort, n, more, rfl, hv⟩ := exists_index_of_at?_filterValue (Or.inl rfl) h
            exact ⟨v, hv, Or.inr ⟨.item room hu hname (Or.inl rfl) hshort n more, rfl⟩⟩
          | tuple items =>
            obtain ⟨hshort, n, more, rfl, hv⟩ := exists_index_of_at?_filterValue (Or.inr rfl) h
            exact ⟨v, hv, Or.inr ⟨.item room hu hname (Or.inr rfl) hshort n more, rfl⟩⟩
          | dict inner =>
            cases room with
            | zero =>
              have hnone := (at?_truncated hkey rest).symm.trans h
              cases hnone
            | succ room =>
              simp only [inItem_field_iff hu hname]
              exact ih h
          | _ =>
            rw [hrest] at h
            cases h.symm.trans (at?_filterValue_leaf (by trivial) q more)

/-- Whether every value logged under a summarized key is the summary of what stands there. -/
def Withheld (home : String) (fields : Fields) : Prop :=
  ∀ place key v, isSummarized key = true →
    (Value.dict (filter home fields)).at? (place ++ [.field key]) = some v →
    ∃ w, (Value.dict fields).at? (place ++ [.field key]) = some w ∧ v = .str (summary w)

theorem eq_summary_iff (w : Value) : w = .str (summary w) ↔ w = .str "[str]" := by
  refine ⟨fun h => ?_, fun h => by rw [h]; rfl⟩
  cases w with
  | str s => exact h
  | _ => cases h

/-- A value logged under a summarized key is a summary, but for the items of logged lists, in which
it is the value. So content is withheld exactly if no such item holds some under such a key. -/
theorem withheld_iff (home : String) (fields : Fields) :
    (∀ place key v, isSummarized key = true →
      (Value.dict (filter home fields)).at? (place ++ [.field key]) = some v →
      ∃ w, (Value.dict fields).at? (place ++ [.field key]) = some w ∧
        (¬ InItem maxDepth fields place ∧ v = .str (summary w) ∨
          InItem maxDepth fields place ∧ v = w)) ∧
      (Withheld home fields ↔ ∀ place key w, isSummarized key = true →
        InItem maxDepth fields place →
        (Value.dict fields).at? (place ++ [.field key]) = some w → w = .str "[str]") := by
  refine ⟨fun _ _ _ hkey h => exists_of_at?_filterFields hkey h, fun h place key w hkey hin hw => ?_,
    fun h place key v hkey hv => ?_⟩
  · obtain ⟨u, hu, heq⟩ := h place key w hkey ((at?_of_inItem hin key).trans hw)
    obtain rfl := Option.some.inj (hw.symm.trans hu)
    exact (eq_summary_iff w).mp heq
  · obtain ⟨w, hw, ⟨-, rfl⟩ | ⟨hin, rfl⟩⟩ := exists_of_at?_filterFields hkey hv
    · exact ⟨w, hw, rfl⟩
    · exact ⟨v, hw, (eq_summary_iff v).mpr (h place key v hkey hin hw)⟩

/-- A list of mappings brings the content of descriptors into the logs. -/
theorem not_withheld_in_list : ¬ Withheld "/home/al"
    [("packs", .list [.dict [("payload", .dict [("name", .str "Fjord")])]])] := by
  intro h
  obtain ⟨w, hw, heq⟩ := h [.field "packs", .index 0] "payload" _ (by decide) rfl
  obtain rfl : .dict [("name", .str "Fjord")] = w := Option.some.inj hw
  cases heq

end LogFields

end PackIndex
