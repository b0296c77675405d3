import PackIndex.Log.Format
import PackIndex.Proofs.Json.RoundTrip
import PackIndex.Proofs.Log.Summary

/-!
# The base fields of JSON lines

A record is logged as one JSON object on a line of its own, as far as what is logged of its extra
fields can be written. An extra field replaces the base field of its name, so that a base field can
be told from a line only if no extra field has its name; the message can always be, since its name is
that of an attribute.
-/

namespace PackIndex

/-! ### What can be written -/

namespace Json

variable {room : Nat} {fields new : Fields}

theorem fieldsFault?_eq_none_iff :
    fieldsFault? room fields = none ↔ ∀ field ∈ fields, fault? room field.2 = none := by
  induction fields with
  | nil => exact iff_of_true rfl nofun
  | cons field rest ih =>
    obtain ⟨key, v⟩ := field
    rw [fieldsFault?_cons, ih, List.forall_mem_cons]

/-- An update of what can be written can be written if the new values can be. -/
theorem fieldsFault?_update_iff (h : (Fields.keys fields).Nodup) (hnew : (Fields.keys new).Nodup)
    (hfields : fieldsFault? room fields = none) :
    fieldsFault? room (fields.update new) = none ↔ fieldsFault? room new = none := by
  have hnodup := Fields.nodup_keys_update h new
  rw [fieldsFault?_eq_none_iff] at hfields
  rw [fieldsFault?_eq_none_iff, fieldsFault?_eq_none_iff]
  constructor
  · rintro hall ⟨key, v⟩ hmem
    refine hall (key, v) (Fields.mem_of_get? ?_)
    rw [Fields.get?_update hnew, Fields.get?_of_mem hnew hmem]
    rfl
  · rintro hall ⟨key, v⟩ hmem
    have hget := Fields.get?_of_mem hnodup hmem
    rw [Fields.get?_update hnew, Option.or_eq_some_iff] at hget
    rcases hget with hget | ⟨-, hget⟩
    · exact hall (key, v) (Fields.mem_of_get? hget)
    · exact hfields (key, v) (Fields.mem_of_get? hget)

end Json

namespace LogFields

attribute [local irreducible] Home.shorten Home.marker?

variable {home : String} {room inner : Nat} {items : List Value} {fields : Fields}

theorem fault?_shortenText (home : String) (room : Nat) (v : Value) :
    Json.fault? room (shortenText home v) = Json.fault? room v := by
  cases v with
  | str s => rfl
  | sentinel s =>
    rw [shortenText_sentinel]
    cases Home.marker? home <;> rfl
  | _ => rfl

theorem itemsFault?_shortened (home : String) (room : Nat) (items : List Value) :
    Json.itemsFault? room (items.map (shortenText home)) = Json.itemsFault? room items := by
  induction items with
  | nil => rfl
  | cons v items ih =>
    rw [List.map_cons, Json.itemsFault?, Json.itemsFault?, fault?_shortenText, ih]

theorem fieldsFault?_filterFields (h : ∀ field ∈ fields, ∀ ⦃room inner : Nat⦄,
      Json.fault? room field.2 = none → Json.fault? room (filterValue home inner field.2) = none)
    (hfields : Json.fieldsFault? room fields = none) :
    Json.fieldsFault? room (filterFields home inner fields) = none := by
  induction fields with
  | nil => rfl
  | cons field rest ih =>
    obtain ⟨key, v⟩ := field
    obtain ⟨hv, hrest⟩ := Json.fieldsFault?_cons.mp hfields
    refine Json.fieldsFault?_cons.mpr
      ⟨?_, ih (fun other hother => h other (List.mem_cons_of_mem _ hother)) hrest⟩
    split
    · rfl
    · exact h (key, v) List.mem_cons_self hv

theorem keys_filterFields (home : String) (room : Nat) (fields : Fields) :
    Fields.keys (filterFields home room fields) = Fields.keys fields := by
  induction fields with
  | nil => rfl
  | cons field rest ih => exact congrArg (field.1 :: ·) ih

theorem fault?_filterValue_list (h : Json.fault? room (.list items) = none) (inner : Nat) :
    Json.fault? room (filterValue home inner (.list items)) = none := by
  rw [filterValue_items home inner (Or.inl rfl)]
  split
  · rcases eq_or_ne items [] with rfl | hne
    · rfl
    · obtain ⟨more, rfl, hitems⟩ := Json.exists_room_of_list hne h
      rw [← itemsFault?_shortened home] at hitems
      cases items with
      | nil => rfl
      | cons _ _ => exact hitems
  · rfl

theorem fault?_filterValue (home : String) (v : Value) : ∀ ⦃room inner : Nat⦄,
    Json.fault? room v = none → Json.fault? room (filterValue home inner v) = none := by
  induction v using Value.nested with
  | list items ih => exact fun _ inner h => fault?_filterValue_list h inner
  | tuple items ih =>
    intro room inner h
    rw [Json.fault?_tuple] at h
    exact fault?_filterValue_list h inner
  | dict fields ih =>
    intro room inner h
    obtain ⟨more, rfl, hfields⟩ := Json.exists_room_of_dict h
    cases inner with
    | zero => rfl
    | succ inner => exact fieldsFault?_filterFields ih hfields
  | path p => exact fun _ _ _ => rfl
  | foreign _ text _ _ => exact fun _ _ _ => rfl
  | null => exact fun _ _ h => h
  | _ =>
    intro room inner h
    exact (fault?_shortenText home room _).trans h

theorem fault?_filter (h : Json.fault? room (.dict fields) = none) :
    Json.fault? room (.dict (filter home fields)) = none :=
  @fault?_filterValue home (.dict fields) room (maxDepth + 1) h

end LogFields

namespace LogRecord

variable {key : String} {fields : Fields}

theorem set_of_notMem (h : key ∉ attributeNames) (r : LogRecord) (v : Value) :
    r.set key v = { r with extra := r.extra.set key v } := by
  unfold set
  split
  case h_10 =>
    rw [if_neg]
    rwa [List.contains_iff_mem]
  all_goals exact absurd (by decide) h

theorem withFields_of_notMem (h : ∀ key ∈ Fields.keys fields, key ∉ attributeNames)
    (r : LogRecord) : r.withFields fields = { r with extra := r.extra.update fields } := by
  induction fields generalizing r with
  | nil => rfl
  | cons field rest ih =>
    obtain ⟨key, v⟩ := field
    obtain ⟨hkey, hrest⟩ := List.forall_mem_cons.mp h
    have hset : r.withFields ((key, v) :: rest) = (r.set key v).withFields rest := rfl
    rw [hset, set_of_notMem hkey, ih hrest]
    rfl

end LogRecord

/-- What a logger makes a record of: extra fields are no attributes, and their keys differ. -/
structure LogCall where
  logger : String
  level : Int
  message : String
  args : List Value
  path : String
  line : Int
  created : Value
  exception : Option ExceptionNote
  extra : Fields
  notMem_attributeNames : ∀ key ∈ Fields.keys extra, key ∉ LogRecord.attributeNames
  nodup_keys : (Fields.keys extra).Nodup

namespace LogCall

attribute [local irreducible] Home.shorten Home.marker?

variable (c : LogCall)

/-- The record without its extra fields. -/
def bare : LogRecord :=
  .ofParts c.logger c.level c.message c.args c.path c.line c.created c.exception

def record : LogRecord := c.bare.withFields c.extra

theorem record_eq : c.record = { c.bare with extra := c.extra } := by
  rw [record, LogRecord.withFields_of_notMem c.notMem_attributeNames,
    Fields.update_eq_append (show (Fields.keys (c.bare.extra ++ c.extra)).Nodup from c.nodup_keys)]
  rfl

variable (home time text : String)

def placeFields : Fields :=
  if LogLevel.warning ≤ c.level then
    [("file", .str (LogRecord.baseName c.path)), ("line", .int c.line)]
  else []

def exceptionFields : Fields :=
  match c.exception with
  | some e => [("exc", .str (Home.shorten home e.line))]
  | none => []

def baseFields : Fields :=
  [("ts", .str time), ("level", .str (LogLevel.name c.level)), ("logger", .str c.logger),
    ("msg", .str (Home.shorten home text))] ++ c.placeFields ++ c.exceptionFields home

theorem nodup_keys_baseFields : (Fields.keys (c.baseFields home time text)).Nodup := by
  have hplace : (Fields.keys c.placeFields).Sublist ["file", "line"] := by
    unfold placeFields
    split
    · exact List.Sublist.refl _
    · exact List.nil_sublist _
  have hexception : (Fields.keys (c.exceptionFields home)).Sublist ["exc"] := by
    unfold exceptionFields
    split
    · exact List.Sublist.refl _
    · exact List.nil_sublist _
  have hkeys : Fields.keys (c.baseFields home time text) = ["ts", "level", "logger", "msg"] ++
      Fields.keys c.placeFields ++ Fields.keys (c.exceptionFields home) := by
    rw [baseFields, Fields.keys, List.map_append, List.map_append]
    rfl
  rw [hkeys]
  exact (((List.Sublist.refl _).append hplace).append hexception).nodup (by decide)

theorem forall_mem_baseFields : ∀ field ∈ c.baseFields home time text,
    (∃ s, field.2 = .str s) ∨ LogLevel.warning ≤ c.level ∧ field.2 = .int c.line := by
  have hplace : ∀ field ∈ c.placeFields,
      (∃ s, field.2 = .str s) ∨ LogLevel.warning ≤ c.level ∧ field.2 = .int c.line := by
    unfold placeFields
    split
    · next hgrave =>
      exact List.forall_mem_cons.mpr
        ⟨Or.inl ⟨_, rfl⟩, List.forall_mem_singleton.mpr (Or.inr ⟨hgrave, rfl⟩)⟩
    · nofun
  have hexception : ∀ field ∈ c.exceptionFields home, ∃ s, field.2 = .str s := by
    unfold exceptionFields
    split
    · exact List.forall_mem_singleton.mpr ⟨_, rfl⟩
    · nofun
  intro field hfield
  rcases List.mem_append.mp hfield with hfield | hfield
  · rcases List.mem_append.mp hfield with hfield | hfield
    · simp only [List.mem_cons, List.not_mem_nil, or_false] at hfield
      rcases hfield with rfl | rfl | rfl | rfl <;> exact Or.inl ⟨_, rfl⟩
    · exact hplace field hfield
  · exact Or.inl (hexception field hfield)

theorem readBack_of_mem_baseFields {field : String × Value}
    (h : field ∈ c.baseFields home time text) : Json.readBack field.2 = field.2 := by
  rcases c.forall_mem_baseFields home time text field h with ⟨s, hs⟩ | ⟨-, hn⟩
  · rw [hs]
    rfl
  · rw [hn]
    rfl

theorem fieldsFault?_baseFields (room : Nat)
    (hline : LogLevel.warning ≤ c.level → Number.isWord64 c.line = true) :
    Json.fieldsFault? room (c.baseFields home time text) = none := by
  refine Json.fieldsFault?_eq_none_iff.mpr fun field hfield => ?_
  rcases c.forall_mem_baseFields home time text field hfield with ⟨s, hs⟩ | ⟨hgrave, hn⟩
  · rw [hs]
    rfl
  · rw [hn, Json.fault?, if_pos (hline hgrave)]

variable {home time text}

theorem jsonFields_record (htime : Timestamp.ofValue c.created = .ok time)
    (hmessage : c.bare.messageText = .ok text) : c.record.jsonFields home =
      .ok ((c.baseFields home time text).update (LogFields.filter home c.extra)) := by
  have htime : Timestamp.ofValue c.record.created = .ok time := by rw [record_eq]; exact htime
  have hmessage : c.record.messageText = .ok text := by rw [record_eq]; exact hmessage
  have hgrave : c.record.isGrave = .ok (decide (LogLevel.warning ≤ c.level)) := by
    rw [record_eq]
    rfl
  rw [LogRecord.jsonFields, htime, hmessage, hgrave, record_eq]
  simp only [Except.mapError, bind, Except.bind, pure, Except.pure, decide_eq_true_eq]
  rfl

def lineFields (home time text : String) : Fields :=
  (c.baseFields home time text).update (LogFields.filter home c.extra)

theorem nodup_keys_filter : (Fields.keys (LogFields.filter home c.extra)).Nodup := by
  rw [LogFields.filter, LogFields.keys_filterFields]
  exact c.nodup_keys

theorem get?_lineFields (name : String) : Fields.get? name (c.lineFields home time text) =
    (Fields.get? name (LogFields.filter home c.extra)).or
      (Fields.get? name (c.baseFields home time text)) :=
  Fields.get?_update c.nodup_keys_filter name _

theorem fault?_lineFields (hline : LogLevel.warning ≤ c.level → Number.isWord64 c.line = true) :
    Json.fault? Json.maxNesting (.dict (c.lineFields home time text)) = none ↔
      Json.fault? Json.maxNesting (.dict (LogFields.filter home c.extra)) = none :=
  Json.fieldsFault?_update_iff (c.nodup_keys_baseFields home time text) c.nodup_keys_filter
    (c.fieldsFault?_baseFields home time text _ hline)

theorem jsonLine_record (htime : Timestamp.ofValue c.created = .ok time)
    (hmessage : c.bare.messageText = .ok text) : c.record.jsonLine home =
      match Json.fault? Json.maxNesting (.dict (c.lineFields home time text)) with
      | some fault => .error (.unwritable fault)
      | none => .ok (Json.compact (.dict (c.lineFields home time text))) := by
  rw [LogRecord.jsonLine, c.jsonFields_record htime hmessage]
  rfl

theorem read?_lineFields
    (hwritable : Json.fault? Json.maxNesting (.dict (c.lineFields home time text)) = none) :
    Json.read? .document (Json.compact (.dict (c.lineFields home time text))) =
      some (.dict (Json.readBackFields (c.lineFields home time text))) := by
  have hnodup : (Fields.keys (c.lineFields home time text)).Nodup :=
    Fields.nodup_keys_update (c.nodup_keys_baseFields home time text) _
  rw [Json.read?_compact hwritable (by decide), Json.readBack_dict hnodup]

theorem get?_readBack_lineFields {name : String} {v : Value}
    (h : (name, v) ∈ c.baseFields home time text) :
    Fields.get? name (Json.readBackFields (c.lineFields home time text)) =
      some (((Fields.get? name (LogFields.filter home c.extra)).map Json.readBack).getD v) := by
  have hbase := Fields.get?_of_mem (c.nodup_keys_baseFields home time text) h
  rw [Json.get?_readBackFields, get?_lineFields, hbase]
  cases Fields.get? name (LogFields.filter home c.extra) with
  | none => exact congrArg some (c.readBack_of_mem_baseFields home time text h)
  | some w => rfl

theorem get?_msg_filter : Fields.get? "msg" (LogFields.filter home c.extra) = none := by
  rw [Fields.get?_eq_none_iff, LogFields.filter, LogFields.keys_filterFields]
  exact fun h => c.notMem_attributeNames "msg" h (by decide)

theorem exists_jsonLine_iff (htime : Timestamp.ofValue c.created = .ok time)
    (hmessage : c.bare.messageText = .ok text)
    (hline : LogLevel.warning ≤ c.level → Number.isWord64 c.line = true) :
    (∃ line, c.record.jsonLine home = .ok line) ↔
      Json.fault? Json.maxNesting (.dict (LogFields.filter home c.extra)) = none := by
  rw [← c.fault?_lineFields hline, c.jsonLine_record htime hmessage]
  split
  · next fault hfault => exact iff_of_false nofun (by rw [hfault]; nofun)
  · next hnone => exact iff_of_true ⟨_, rfl⟩ hnone

/-- Whether a line is one JSON object that has each of the fields. -/
def Shows (line : String) (fields : Fields) : Prop :=
  ∃ shown, Json.read? .document line = some (.dict shown) ∧
    ∀ name v, (name, v) ∈ fields → Fields.get? name shown = some v

/-- A line shows its base fields if the extra fields of their names agree with them. -/
theorem shows_lineFields_iff
    (hwritable : Json.fault? Json.maxNesting (.dict (c.lineFields home time text)) = none) :
    Shows (Json.compact (.dict (c.lineFields home time text))) (c.baseFields home time text) ↔
      ∀ name v w, (name, v) ∈ c.baseFields home time text →
        Fields.get? name (LogFields.filter home c.extra) = some w → Json.readBack w = v := by
  have hread := c.read?_lineFields hwritable
  constructor
  · rintro ⟨shown, hshown, hall⟩ name v w hmem hw
    obtain ⟨⟩ := hread.symm.trans hshown
    have hget := (c.get?_readBack_lineFields hmem).symm.trans (hall name v hmem)
    rw [hw] at hget
    exact Option.some.inj hget
  · refine fun hagree => ⟨_, hread, fun name v hmem => ?_⟩
    rw [c.get?_readBack_lineFields hmem]
    cases hw : Fields.get? name (LogFields.filter home c.extra) with
    | none => rfl
    | some w => exact congrArg some (hagree name v w hmem hw)

/-- A record is logged if what is logged of its extra fields can be written, so in any case if these
can be. Its line has no control character and is read as one object. The message is always the one of
the record; any other base field is, unless an extra field of its name is logged in its place. So a
line shows its base fields exactly if the extra fields of these names agree with them. -/
theorem shows_baseFields_iff (home : String) {time text : String}
    (htime : Timestamp.ofValue c.created = .ok time) (hmessage : c.bare.messageText = .ok text)
    (hline : LogLevel.warning ≤ c.level → Number.isWord64 c.line = true) :
    (Json.fault? Json.maxNesting (.dict c.extra) = none →
      Json.fault? Json.maxNesting (.dict (LogFields.filter home c.extra)) = none) ∧
    ((∃ line, c.record.jsonLine home = .ok line) ↔
      Json.fault? Json.maxNesting (.dict (LogFields.filter home c.extra)) = none) ∧
    ∀ line, c.record.jsonLine home = .ok line →
      (∀ x ∈ line.toList, 0x20 ≤ x.toNat) ∧
      (∃ fields, Json.read? .document line = some (.dict fields) ∧
        Fields.get? "msg" fields = some (.str (Home.shorten home text)) ∧
        ∀ name v, (name, v) ∈ c.baseFields home time text → Fields.get? name fields =
          some (((Fields.get? name (LogFields.filter home c.extra)).map Json.readBack).getD v)) ∧
      (Shows line (c.baseFields home time text) ↔ ∀ name v w,
        (name, v) ∈ c.baseFields home time text →
        Fields.get? name (LogFields.filter home c.extra) = some w → Json.readBack w = v) := by
  refine ⟨LogFields.fault?_filter, c.exists_jsonLine_iff htime hmessage hline, fun line hok => ?_⟩
  rw [c.jsonLine_record htime hmessage] at hok
  split at hok
  · cases hok
  next hwritable =>
  obtain rfl := Except.ok.inj hok
  have hmsg : ("msg", .str (Home.shorten home text)) ∈ c.baseFields home time text := by
    refine List.mem_append_left _ (List.mem_append_left _ ?_)
    exact .tail _ (.tail _ (.tail _ (.head _)))
  refine ⟨Json.le_of_mem_compact _, ⟨_, c.read?_lineFields hwritable, ?_,
    fun _ _ => c.get?_readBack_lineFields⟩, c.shows_lineFields_iff hwritable⟩
  rw [c.get?_readBack_lineFields hmsg, c.get?_msg_filter]
  rfl

end LogCall

namespace LogCall

/-- An error that is logged with an extra field of the name of a base field. -/
def relabelled : LogCall where
  logger := "packcatalog.test"
  level := LogLevel.error
  message := "boom"
  args := []
  path := "test.py"
  line := 10
  created := .int 0
  exception := none
  extra := [("level", .str "INFO")]
  notMem_attributeNames := by decide
  nodup_keys := by decide

def relabelledTime : String := "1970-01-01T00:00:00.000+00:00"

theorem created_relabelled : Timestamp.ofValue relabelled.created = .ok relabelledTime := by decide

theorem messageText_relabelled : relabelled.bare.messageText = .ok "boom" := rfl

theorem shows_baseFields_relabelled : ∃ line fields,
    relabelled.record.jsonLine "/home/al" = .ok line ∧
      Json.read? .document line = some (.dict fields) ∧
      Fields.get? "msg" fields = some (.str "boom") := by
  obtain ⟨hfilter, hexists, hlines⟩ := shows_baseFields_iff relabelled "/home/al"
    created_relabelled messageText_relabelled fun _ => by decide
  obtain ⟨line, hline⟩ := hexists.mpr (hfilter rfl)
  obtain ⟨-, ⟨fields, hread, hmsg, -⟩, -⟩ := hlines line hline
  exact ⟨line, fields, hline, hread, hmsg⟩

def relabelledLine : String :=
  "\x7b\"ts\":\"1970-01-01T00:00:00.000+00:00\",\"level\":\"INFO\"," ++
    "\"logger\":\"packcatalog.test\",\"msg\":\"boom\",\"file\":\"test.py\",\"line\":10\x7d"

/-- The line of this error says that it was none. -/
theorem not_shows_level : relabelled.record.jsonLine "/home/al" = .ok relabelledLine ∧
    ¬ Shows relabelledLine [("level", .str (LogLevel.name relabelled.level))] := by
  have hwritable : Json.fault? Json.maxNesting
      (.dict (relabelled.lineFields "/home/al" relabelledTime "boom")) = none := rfl
  have htext : Json.compact (.dict (relabelled.lineFields "/home/al" relabelledTime "boom")) =
      relabelledLine := rfl
  have hread := relabelled.read?_lineFields hwritable
  rw [htext] at hread
  constructor
  · rw [relabelled.jsonLine_record created_relabelled messageText_relabelled, hwritable, htext]
  · rintro ⟨shown, hshown, hall⟩
    obtain ⟨⟩ := hread.symm.trans hshown
    have hlevel : some (Value.str "INFO") = some (.str (LogLevel.name relabelled.level)) :=
      hall "level" _ List.mem_cons_self
    exact absurd (Value.str.inj (Option.some.inj hlevel)) (by decide)

end LogCall

end PackIndex
