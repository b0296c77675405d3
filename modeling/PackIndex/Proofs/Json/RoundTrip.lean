import PackIndex.Proofs.Json.Numbers
import PackIndex.Proofs.Json.Strings
import PackIndex.Proofs.Value

/-!
# Reading what was written

A value that can be written is read back, up to what JSON has no form for: sequences come back as
lists, and what has no value in JSON as its text. Each reading is carried by what it leaves: a value
is read whatever stands behind it, as long as no number goes on there.
-/

namespace PackIndex.Json

variable {limits : Limits} {c : Char} {cs rest : List Char} {room depth fuel : Nat}

mutual

/-- What a written value is read back as: a sequence as a list, a double that is not finite as the
empty value, and a value JSON knows nothing of as its text. -/
def readBack : Value → Value
  | .float x => if x.isFinite then .float x else .null
  | .list items | .tuple items => .list (readBackItems items)
  | .dict fields => .dict (Fields.update [] (readBackFields fields))
  | .sentinel s => .str s.word
  | .path p => .str p.text
  | .foreign _ text _ _ => .str text
  | v => v

def readBackItems : List Value → List Value
  | [] => []
  | v :: rest => readBack v :: readBackItems rest

def readBackFields : List (String × Value) → List (String × Value)
  | [] => []
  | (key, v) :: rest => (key, readBack v) :: readBackFields rest

end

/-! ### Texts -/

def itemsText (items : List Value) : List Char :=
  [','].intercalate ((compactItems items).map String.toList)

def fieldsText (fields : List (String × Value)) : List Char :=
  [','].intercalate ((compactFields fields).map String.toList)

theorem itemsText_singleton (v : Value) : itemsText [v] = (compact v).toList :=
  List.intercalate_singleton

theorem itemsText_cons (v w : Value) (items : List Value) :
    itemsText (v :: w :: items) = (compact v).toList ++ ',' :: itemsText (w :: items) := by
  rw [itemsText, compactItems, compactItems, List.map_cons, List.map_cons,
    List.intercalate_cons_cons]
  rw [itemsText, compactItems, List.map_cons, List.append_assoc]
  rfl

theorem toList_member (key : String) (v : Value) :
    (stringText key ++ ":" ++ compact v).toList =
      (stringText key).toList ++ ':' :: (compact v).toList := by
  rw [String.toList_append, String.toList_append, List.append_assoc]
  rfl

theorem fieldsText_singleton (key : String) (v : Value) :
    fieldsText [(key, v)] = (stringText key).toList ++ ':' :: (compact v).toList :=
  List.intercalate_singleton.trans (toList_member key v)

theorem fieldsText_cons (key : String) (v : Value) (field : String × Value)
    (fields : List (String × Value)) : fieldsText ((key, v) :: field :: fields) =
      (stringText key).toList ++ ':' ::
        ((compact v).toList ++ ',' :: fieldsText (field :: fields)) := by
  obtain ⟨name, w⟩ := field
  rw [fieldsText, compactFields, compactFields, List.map_cons, List.map_cons,
    List.intercalate_cons_cons, toList_member]
  rw [fieldsText, compactFields, List.map_cons, List.append_assoc, List.append_assoc]
  rfl

theorem toList_compact_list (items : List Value) :
    (compact (.list items)).toList = '[' :: (itemsText items ++ [']']) := by
  rw [compact, String.toList_append, String.toList_append, String.toList_intercalate]
  rfl

theorem toList_compact_dict (fields : List (String × Value)) :
    (compact (.dict fields)).toList = '{' :: (fieldsText fields ++ ['}']) := by
  rw [compact, String.toList_append, String.toList_append, String.toList_intercalate]
  rfl

/-- The text of a value starts with a character that is no blank and does not end a list. -/
theorem exists_head_compact (v : Value) :
    ∃ c cs, (compact v).toList = c :: cs ∧ isSpace c = false ∧ c ≠ ']' := by
  have hstring (s : String) :
      ∃ c cs, (stringText s).toList = c :: cs ∧ isSpace c = false ∧ c ≠ ']' :=
    ⟨'"', _, String.toList_ofList, by decide, by decide⟩
  have hnumeral (negative : Bool) (m : Numeral) :
      ∃ c cs, sign negative ++ m.chars = c :: cs ∧ isSpace c = false ∧ c ≠ ']' := by
    obtain ⟨c, cs, hcs, hc⟩ := m.exists_head negative
    have hother {x : Char} := Numeral.ne_of_head (x := x) hc
    refine ⟨c, cs, hcs, ?_, hother (by decide)⟩
    simp only [isSpace, Bool.or_eq_false_iff, beq_eq_false_iff_ne]
    exact ⟨⟨⟨hother (by decide), hother (by decide)⟩, hother (by decide)⟩, hother (by decide)⟩
  cases v with
  | null => exact ⟨'n', _, rfl, by decide, by decide⟩
  | bool b => cases b <;> exact ⟨_, _, rfl, by decide, by decide⟩
  | int n => rw [compact, toList_intText]; exact hnumeral _ _
  | float x =>
    by_cases hx : x.isFinite = true
    · obtain ⟨negative, m, htext, -⟩ := exists_numeral_text hx
      rw [compact, htext]
      exact hnumeral _ _
    · rw [compact, text_of_not_isFinite hx]
      exact ⟨'n', _, rfl, by decide, by decide⟩
  | list items => exact ⟨'[', _, toList_compact_list items, by decide, by decide⟩
  | tuple items => exact ⟨'[', _, toList_compact_list items, by decide, by decide⟩
  | dict fields => exact ⟨'{', _, toList_compact_dict fields, by decide, by decide⟩
  | sentinel s => exact hstring _
  | str s => exact hstring _
  | path p => exact hstring _
  | foreign _ text _ _ => exact hstring _

/-! ### Reading one value -/

theorem value?_string (s : String) (rest : List Char) :
    value? limits (fuel + 1) depth ((stringText s).toList ++ rest) = some (.str s, rest) := by
  rw [stringText, String.toList_ofList, List.cons_append, List.append_assoc, value?,
    List.singleton_append, stringBody_written, Option.map_some]
  simp only [String.ofList_toList]

theorem value?_number (m : Numeral) (negative : Bool) (hends : Ends rest) :
    value? limits (fuel + 1) depth (sign negative ++ m.chars ++ rest) =
      (m.value? limits negative).map (·, rest) := by
  obtain ⟨c, cs, hcs, hc⟩ := m.exists_head negative
  rw [← Numeral.number?_chars m negative hends, ← List.append_assoc, hcs, List.cons_append]
  rw [value?]
  all_goals exact fun _ h => Numeral.ne_of_head hc (by decide) (List.cons.inj h).1

theorem skipSpace_of_head (h : isSpace c = false) (cs : List Char) :
    skipSpace (c :: cs) = c :: cs := by
  rw [skipSpace, List.dropWhile_cons_of_neg (by rw [h]; decide)]

theorem value?_list (h : isSpace c = false) (hc : c ≠ ']') (cs : List Char) :
    value? limits (fuel + 1) (depth + 1) ('[' :: c :: cs) =
      (items? limits fuel depth (c :: cs)).map fun (vs, r) => (.list vs, r) := by
  rw [value?, if_neg (Nat.succ_ne_zero depth), skipSpace_of_head h]
  split
  · next heq => exact absurd (List.cons.inj heq).1 hc
  · rfl

theorem value?_dict (cs : List Char) :
    value? limits (fuel + 1) (depth + 1) ('{' :: '"' :: cs) =
      (members? limits fuel depth [] ('"' :: cs)).map fun (fs, r) => (.dict fs, r) := by
  rw [value?, if_neg (Nat.succ_ne_zero depth)]
  rfl

/-! ### Reading what was written -/

theorem Ends.comma (rest : List Char) : Ends (',' :: rest) := by
  rintro c ⟨⟩
  decide

theorem Ends.bracket (rest : List Char) : Ends (']' :: rest) := by
  rintro c ⟨⟩
  decide

theorem Ends.brace (rest : List Char) : Ends ('}' :: rest) := by
  rintro c ⟨⟩
  decide

theorem value?_null (rest : List Char) :
    value? limits (fuel + 1) depth ((compact .null).toList ++ rest) = some (.null, rest) := by
  have htext : (compact .null).toList = ['n', 'u', 'l', 'l'] := rfl
  rw [htext]
  rfl

theorem value?_bool (b : Bool) (rest : List Char) :
    value? limits (fuel + 1) depth ((compact (.bool b)).toList ++ rest) = some (.bool b, rest) := by
  cases b with
  | true =>
    have htext : (compact (.bool true)).toList = ['t', 'r', 'u', 'e'] := rfl
    rw [htext]
    rfl
  | false =>
    have htext : (compact (.bool false)).toList = ['f', 'a', 'l', 's', 'e'] := rfl
    rw [htext]
    rfl

theorem value?_int {n : Int} (hn : Number.isWord64 n = true) (hends : Ends rest) :
    value? limits (fuel + 1) depth ((compact (.int n)).toList ++ rest) = some (.int n, rest) := by
  rw [compact, toList_intText, value?_number _ _ hends, value?_ofNat, integer?, hn, Bool.or_true,
    if_pos rfl, Option.map_some]

theorem value?_float (x : Binary64) (hends : Ends rest) :
    value? limits (fuel + 1) depth ((compact (.float x)).toList ++ rest) =
      some (readBack (.float x), rest) := by
  rw [compact, readBack]
  by_cases hx : x.isFinite = true
  · obtain ⟨negative, m, htext, hvalue⟩ := exists_numeral_text hx
    rw [htext, value?_number _ _ hends, hvalue, if_pos hx, Option.map_some]
  · rw [text_of_not_isFinite hx, if_neg hx]
    exact value?_null rest

theorem exists_head_itemsText {items : List Value} (hne : items ≠ []) :
    ∃ c cs, itemsText items = c :: cs ∧ isSpace c = false ∧ c ≠ ']' := by
  match items with
  | [v] =>
    rw [itemsText_singleton]
    exact exists_head_compact v
  | v :: w :: items =>
    obtain ⟨c, cs, hcs, hc⟩ := exists_head_compact v
    exact ⟨c, cs ++ ',' :: itemsText (w :: items), by rw [itemsText_cons, hcs, List.cons_append], hc⟩

theorem value?_items {items : List Value}
    (hitems : items ≠ [] → items? limits fuel depth (itemsText items ++ ']' :: rest) =
      some (readBackItems items, rest)) :
    value? limits (fuel + 1) (depth + 1) ((compact (.list items)).toList ++ rest) =
      some (.list (readBackItems items), rest) := by
  rw [toList_compact_list, List.cons_append, List.append_assoc]
  rcases eq_or_ne items [] with rfl | hne
  · rfl
  · obtain ⟨c, cs, hcs, hspace, hc⟩ := exists_head_itemsText hne
    rw [List.singleton_append, hcs, List.cons_append, value?_list hspace hc, ← List.cons_append,
      ← hcs, hitems hne, Option.map_some]

theorem exists_head_fieldsText {fields : List (String × Value)} (hne : fields ≠ []) :
    ∃ cs, fieldsText fields = '"' :: cs := by
  match fields with
  | [(key, v)] => exact ⟨_, by rw [fieldsText_singleton, stringText, String.toList_ofList]; rfl⟩
  | (key, v) :: field :: fields =>
    exact ⟨_, by rw [fieldsText_cons, stringText, String.toList_ofList]; rfl⟩

theorem value?_members {fields : List (String × Value)}
    (hmembers : fields ≠ [] → members? limits fuel depth [] (fieldsText fields ++ '}' :: rest) =
      some (Fields.update [] (readBackFields fields), rest)) :
    value? limits (fuel + 1) (depth + 1) ((compact (.dict fields)).toList ++ rest) =
      some (readBack (.dict fields), rest) := by
  rw [toList_compact_dict, List.cons_append, List.append_assoc, readBack]
  rcases eq_or_ne fields [] with rfl | hne
  · rfl
  · obtain ⟨cs, hcs⟩ := exists_head_fieldsText hne
    rw [List.singleton_append, hcs, List.cons_append, value?_dict, ← List.cons_append, ← hcs,
      hmembers hne, Option.map_some]

theorem skipSpace_compact (v : Value) (rest : List Char) :
    skipSpace ((compact v).toList ++ rest) = (compact v).toList ++ rest := by
  obtain ⟨c, cs, hcs, hspace, -⟩ := exists_head_compact v
  rw [hcs, List.cons_append, skipSpace_of_head hspace]

theorem skipSpace_itemsText {items : List Value} (hne : items ≠ []) (rest : List Char) :
    skipSpace (itemsText items ++ rest) = itemsText items ++ rest := by
  obtain ⟨c, cs, hcs, hspace, -⟩ := exists_head_itemsText hne
  rw [hcs, List.cons_append, skipSpace_of_head hspace]

theorem skipSpace_fieldsText {fields : List (String × Value)} (hne : fields ≠ [])
    (rest : List Char) : skipSpace (fieldsText fields ++ rest) = fieldsText fields ++ rest := by
  obtain ⟨cs, hcs⟩ := exists_head_fieldsText hne
  rw [hcs, List.cons_append, skipSpace_of_head (by decide)]

/-! ### Reading the entries -/

section Entries

variable {v : Value} {cs more : List Char}

theorem items?_last (h : value? limits fuel depth cs = some (v, ']' :: rest)) :
    items? limits (fuel + 1) depth cs = some ([v], rest) := by
  rw [items?, h]
  rfl

theorem items?_comma (h : value? limits fuel depth cs = some (v, ',' :: more))
    (hmore : skipSpace more = more) : items? limits (fuel + 1) depth cs =
      (items? limits fuel depth more).map fun (vs, r) => (v :: vs, r) := by
  rw [items?, h]
  simp only [skipSpace_of_head (show isSpace ',' = false by decide), hmore]

variable {key : String} {acc : Fields}

theorem members?_last (h : value? limits fuel depth cs = some (v, '}' :: rest))
    (hcs : skipSpace cs = cs) :
    members? limits (fuel + 1) depth acc ((stringText key).toList ++ ':' :: cs) =
      some (acc.set key v, rest) := by
  rw [stringText, String.toList_ofList, List.cons_append, List.append_assoc, members?,
    List.singleton_append, stringBody_written]
  simp only [skipSpace_of_head (show isSpace ':' = false by decide),
    skipSpace_of_head (show isSpace '}' = false by decide), hcs, h, String.ofList_toList]

theorem members?_comma (h : value? limits fuel depth cs = some (v, ',' :: more))
    (hcs : skipSpace cs = cs) (hmore : skipSpace more = more) :
    members? limits (fuel + 1) depth acc ((stringText key).toList ++ ':' :: cs) =
      members? limits fuel depth (acc.set key v) more := by
  rw [stringText, String.toList_ofList, List.cons_append, List.append_assoc, members?,
    List.singleton_append, stringBody_written]
  simp only [skipSpace_of_head (show isSpace ':' = false by decide),
    skipSpace_of_head (show isSpace ',' = false by decide), hcs, hmore, h, String.ofList_toList]

end Entries

/-! ### What can be written -/

theorem itemsFault?_cons {v : Value} {items : List Value} :
    itemsFault? room (v :: items) = none ↔ fault? room v = none ∧ itemsFault? room items = none := by
  rw [itemsFault?, Option.or_eq_none_iff]

theorem fieldsFault?_cons {key : String} {v : Value} {fields : List (String × Value)} :
    fieldsFault? room ((key, v) :: fields) = none ↔
      fault? room v = none ∧ fieldsFault? room fields = none := by
  rw [fieldsFault?, Option.or_eq_none_iff]

theorem exists_room_of_list {items : List Value} (hne : items ≠ [])
    (h : fault? room (.list items) = none) :
    ∃ inner, room = inner + 1 ∧ itemsFault? inner items = none := by
  obtain ⟨v, items, rfl⟩ := List.exists_cons_of_ne_nil hne
  cases room with
  | zero => cases h
  | succ inner => exact ⟨inner, rfl, h⟩

theorem exists_room_of_dict {fields : List (String × Value)}
    (h : fault? room (.dict fields) = none) :
    ∃ inner, room = inner + 1 ∧ fieldsFault? inner fields = none := by
  cases room with
  | zero => cases h
  | succ inner => exact ⟨inner, rfl, h⟩

/-! ### Reading values -/

/-- Whether the text of a value is read as what it stands for, with enough fuel and depth. -/
def ReadsBack (limits : Limits) (v : Value) : Prop :=
  ∀ ⦃room depth fuel : Nat⦄ ⦃rest : List Char⦄, fault? room v = none → room < depth →
    (compact v).toList.length < fuel → Ends rest →
    value? limits fuel depth ((compact v).toList ++ rest) = some (readBack v, rest)

theorem items?_compact {items : List Value} (h : ∀ v ∈ items, ReadsBack limits v)
    (hitems : itemsFault? room items = none) (hroom : room < depth)
    (hfuel : (itemsText items).length + 1 < fuel) (hne : items ≠ []) :
    items? limits fuel depth (itemsText items ++ ']' :: rest) = some (readBackItems items, rest) := by
  induction items generalizing fuel with
  | nil => exact absurd rfl hne
  | cons v items ih =>
    -- the text of what is left is shorter, and so much fuel is left for it
    obtain ⟨hread, hmore⟩ := List.forall_mem_cons.mp h
    obtain ⟨hv, hitems⟩ := itemsFault?_cons.mp hitems
    obtain ⟨fuel, rfl⟩ := Nat.exists_eq_add_one_of_ne_zero (Nat.ne_zero_of_lt hfuel)
    cases items with
    | nil =>
      rw [itemsText_singleton] at hfuel ⊢
      exact items?_last (hread hv hroom (Nat.lt_of_succ_lt_succ hfuel) (.bracket rest))
    | cons w items =>
      have hne := List.cons_ne_nil w items
      rw [itemsText_cons, List.length_append, List.length_cons] at hfuel
      rw [itemsText_cons, List.append_assoc, List.cons_append,
        items?_comma (hread hv hroom (by omega) (.comma _)) (skipSpace_itemsText hne _),
        ih hmore hitems (by omega) hne]
      rfl

theorem members?_compact {fields : List (String × Value)}
    (h : ∀ field ∈ fields, ReadsBack limits field.2) (hfields : fieldsFault? room fields = none)
    (hroom : room < depth) (hfuel : (fieldsText fields).length + 1 < fuel) (hne : fields ≠ [])
    (acc : Fields) : members? limits fuel depth acc (fieldsText fields ++ '}' :: rest) =
      some (acc.update (readBackFields fields), rest) := by
  induction fields generalizing fuel acc with
  | nil => exact absurd rfl hne
  | cons field fields ih =>
    obtain ⟨key, v⟩ := field
    have hread : ReadsBack limits v := h (key, v) List.mem_cons_self
    have hmore := fun other hother => h other (List.mem_cons_of_mem _ hother)
    obtain ⟨hv, hfields⟩ := fieldsFault?_cons.mp hfields
    obtain ⟨fuel, rfl⟩ := Nat.exists_eq_add_one_of_ne_zero (Nat.ne_zero_of_lt hfuel)
    cases fields with
    | nil =>
      rw [fieldsText_singleton, List.length_append, List.length_cons] at hfuel
      rw [fieldsText_singleton, List.append_assoc]
      exact members?_last (hread hv hroom (by omega) (.brace rest)) (skipSpace_compact v _)
    | cons field fields =>
      have hne := List.cons_ne_nil field fields
      rw [fieldsText_cons, List.length_append, List.length_cons, List.length_append,
        List.length_cons] at hfuel
      rw [fieldsText_cons, List.append_assoc, List.cons_append, List.append_assoc, List.cons_append,
        members?_comma (hread hv hroom (by omega) (.comma _)) (skipSpace_compact v _)
          (skipSpace_fieldsText hne _), ih hmore hfields (by omega) hne]
      rfl

theorem readsBack_list {items : List Value} (h : ∀ v ∈ items, ReadsBack limits v) :
    ReadsBack limits (.list items) := by
  intro room depth fuel rest hv hroom hfuel _
  obtain ⟨fuel, rfl⟩ := Nat.exists_eq_add_one_of_ne_zero (Nat.ne_zero_of_lt hfuel)
  obtain ⟨depth, rfl⟩ := Nat.exists_eq_add_one_of_ne_zero (Nat.ne_zero_of_lt hroom)
  rw [toList_compact_list, List.length_cons, List.length_append] at hfuel
  refine value?_items fun hne => ?_
  obtain ⟨inner, rfl, hitems⟩ := exists_room_of_list hne hv
  exact items?_compact h hitems (Nat.lt_of_succ_lt_succ hroom) (Nat.lt_of_succ_lt_succ hfuel) hne

theorem readsBack_dict {fields : List (String × Value)}
    (h : ∀ field ∈ fields, ReadsBack limits field.2) : ReadsBack limits (.dict fields) := by
  intro room depth fuel rest hv hroom hfuel _
  obtain ⟨fuel, rfl⟩ := Nat.exists_eq_add_one_of_ne_zero (Nat.ne_zero_of_lt hfuel)
  obtain ⟨depth, rfl⟩ := Nat.exists_eq_add_one_of_ne_zero (Nat.ne_zero_of_lt hroom)
  rw [toList_compact_dict, List.length_cons, List.length_append] at hfuel
  obtain ⟨inner, rfl, hfields⟩ := exists_room_of_dict hv
  exact value?_members fun hne => members?_compact h hfields (Nat.lt_of_succ_lt_succ hroom)
    (Nat.lt_of_succ_lt_succ hfuel) hne []

theorem readsBack_leaf {v : Value} (h : ∀ (room depth fuel : Nat) (rest : List Char),
    fault? room v = none → Ends rest →
    value? limits (fuel + 1) depth ((compact v).toList ++ rest) = some (readBack v, rest)) :
    ReadsBack limits v := by
  intro room depth fuel rest hv _ hfuel hends
  obtain ⟨fuel, rfl⟩ := Nat.exists_eq_add_one_of_ne_zero (Nat.ne_zero_of_lt hfuel)
  exact h room depth fuel rest hv hends

theorem isWord64_of_fault? {n : Int} (h : fault? room (.int n) = none) :
    Number.isWord64 n = true := by
  rw [fault?] at h
  split at h
  · assumption
  · cases h

theorem fault?_tuple (room : Nat) (items : List Value) :
    fault? room (.tuple items) = fault? room (.list items) := by
  cases items <;> rfl

/-- Every value is read back from its text. -/
theorem readsBack (limits : Limits) (v : Value) : ReadsBack limits v := by
  induction v using Value.nested with
  | null => exact readsBack_leaf fun _ _ _ rest _ _ => value?_null rest
  | bool b => exact readsBack_leaf fun _ _ _ rest _ _ => value?_bool b rest
  | int n => exact readsBack_leaf fun _ _ _ _ hn hends => value?_int (isWord64_of_fault? hn) hends
  | float x => exact readsBack_leaf fun _ _ _ _ _ hends => value?_float x hends
  | str s => exact readsBack_leaf fun _ _ _ rest _ _ => value?_string s rest
  | list items ih => exact readsBack_list ih
  | tuple items ih =>
    intro room depth fuel rest hv
    rw [fault?_tuple] at hv
    exact readsBack_list ih hv
  | dict fields ih => exact readsBack_dict ih
  | path p => exact readsBack_leaf fun _ _ _ rest _ _ => value?_string p.text rest
  | sentinel s => exact readsBack_leaf fun _ _ _ rest _ _ => value?_string s.word rest
  | foreign _ text _ _ => exact readsBack_leaf fun _ _ _ rest _ _ => value?_string text rest

/-- A value that can be written is read back from its text. -/
theorem read?_compact {v : Value} (h : fault? room v = none) (hroom : room < limits.depth) :
    read? limits (compact v) = some (readBack v) := by
  have hread := readsBack limits v h hroom (Nat.lt_succ_self _) (show Ends [] from nofun)
  have hskip := skipSpace_compact v []
  rw [List.append_nil] at hread hskip
  rw [read?, hskip]
  simp only [hread]
  rfl

/-! ### What was read -/

theorem keys_readBackFields (fields : Fields) :
    Fields.keys (readBackFields fields) = Fields.keys fields := by
  induction fields with
  | nil => rfl
  | cons field rest ih => exact congrArg (field.1 :: ·) ih

theorem readBack_dict {fields : Fields} (h : (Fields.keys fields).Nodup) :
    readBack (.dict fields) = .dict (readBackFields fields) := by
  rw [readBack, Fields.update_eq_append]
  · rfl
  · rwa [List.nil_append, keys_readBackFields]

theorem get?_readBackFields (key : String) (fields : Fields) :
    Fields.get? key (readBackFields fields) = (Fields.get? key fields).map readBack := by
  induction fields with
  | nil => rfl
  | cons field rest ih =>
    obtain ⟨k, v⟩ := field
    rw [readBackFields, Fields.get?, Fields.get?, ih]
    split <;> rfl

/-! ### The characters of a text -/

theorem mem_compactItems {text : String} {items : List Value} (h : text ∈ compactItems items) :
    ∃ v ∈ items, text = compact v := by
  induction items with
  | nil => cases h
  | cons v items ih =>
    rcases List.mem_cons.mp h with rfl | h
    · exact ⟨v, List.mem_cons_self, rfl⟩
    · obtain ⟨w, hw, htext⟩ := ih h
      exact ⟨w, List.mem_cons_of_mem _ hw, htext⟩

theorem mem_compactFields {text : String} {fields : Fields} (h : text ∈ compactFields fields) :
    ∃ field ∈ fields, text = stringText field.1 ++ ":" ++ compact field.2 := by
  induction fields with
  | nil => cases h
  | cons field fields ih =>
    rcases List.mem_cons.mp h with rfl | h
    · exact ⟨field, List.mem_cons_self, rfl⟩
    · obtain ⟨other, hother, htext⟩ := ih h
      exact ⟨other, List.mem_cons_of_mem _ hother, htext⟩

theorem le_of_mem_bracketed {opening closing : Char} {texts : List String}
    (hopening : 0x20 ≤ opening.toNat) (hclosing : 0x20 ≤ closing.toNat)
    (h : ∀ text ∈ texts, ∀ c ∈ text.toList, 0x20 ≤ c.toNat) :
    ∀ c ∈ opening :: ([','].intercalate (texts.map String.toList) ++ [closing]), 0x20 ≤ c.toNat := by
  intro c hc
  rcases List.mem_cons.mp hc with rfl | hc
  · exact hopening
  rcases List.mem_append.mp hc with hc | hc
  · rcases Text.mem_intercalate hc with rfl | ⟨piece, hpiece, hc⟩
    · decide
    · obtain ⟨text, htext, rfl⟩ := List.mem_map.mp hpiece
      exact h text htext c hc
  · rwa [List.mem_singleton.mp hc]

theorem le_of_mem_list {items : List Value}
    (h : ∀ v ∈ items, ∀ c ∈ (compact v).toList, 0x20 ≤ c.toNat) :
    ∀ c ∈ (compact (.list items)).toList, 0x20 ≤ c.toNat := by
  rw [toList_compact_list]
  refine le_of_mem_bracketed (by decide) (by decide) fun text htext => ?_
  obtain ⟨v, hv, rfl⟩ := mem_compactItems htext
  exact h v hv

theorem le_of_mem_compact (v : Value) : ∀ c ∈ (compact v).toList, 0x20 ≤ c.toNat := by
  have hnull : ∀ c ∈ "null".toList, 0x20 ≤ c.toNat := le_of_isPlain (by decide)
  induction v using Value.nested with
  | null => exact hnull
  | bool b => cases b <;> exact le_of_isPlain (by decide)
  | int n =>
    rw [compact, toList_intText]
    exact fun _ => Numeral.le_of_mem_chars _
  | float x =>
    rw [compact]
    by_cases hx : x.isFinite = true
    · obtain ⟨negative, m, htext, -⟩ := exists_numeral_text hx
      rw [htext]
      exact fun _ => m.le_of_mem_chars
    · rw [text_of_not_isFinite hx]
      exact hnull
  | list items ih => exact le_of_mem_list ih
  | tuple items ih => exact le_of_mem_list ih
  | dict fields ih =>
    rw [toList_compact_dict]
    refine le_of_mem_bracketed (by decide) (by decide) fun text htext => ?_
    obtain ⟨field, hfield, rfl⟩ := mem_compactFields htext
    rw [toList_member]
    intro c hc
    rcases List.mem_append.mp hc with hc | hc
    · exact le_of_mem_stringText hc
    rcases List.mem_cons.mp hc with rfl | hc
    · decide
    · exact ih field hfield c hc
  | str _ | path _ | sentinel _ | foreign _ _ _ _ => exact fun _ => le_of_mem_stringText

end PackIndex.Json
