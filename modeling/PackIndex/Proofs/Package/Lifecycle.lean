import Mathlib.Data.List.Induction
import PackIndex.Proofs.Archive.Access
import PackIndex.Tree.Change

/-!
# The life of a package content

A content opens its archive when a call first needs it, and keeps it until it is closed. While it is
open no call looks at the file tree, so it does not matter what has become of the file. A call that
cannot open the archive leaves the content closed, and the next one tries again. What is asked about
members is answered from one archive, so the answers agree.
-/

namespace PackIndex

/-- A call to the content of a package. -/
inductive ContentCall where
  | has (path : String)
  | read (path : String)
  | names
  | close

inductive ContentReply where
  | truth (answer : Bool)
  | content (bytes : List UInt8)
  | names (names : List String)
  | closed

abbrev ContentHistory := List (FileTree × ContentCall)

namespace ContentCall

def needsArchive : ContentCall → Bool
  | has path | read path => (MemberPath.normalize? path).isSome
  | names => true
  | close => false

/-- What an archive has to say to a call. -/
def answer (a : Archive) : ContentCall → Except ArchiveError ContentReply
  | has path => .ok (.truth ((MemberPath.normalize? path).any fun member => member ∈ a.names))
  | read path =>
    match MemberPath.normalize? path with
    | none => .error (.member (.unusablePath path))
    | some member => ((a.read member).mapError .member).map .content
  | names => .ok (.names a.names)
  | close => .ok .closed

end ContentCall

theorem Archive.has_eq_mem (a : Archive) (member : String) :
    a.has member = decide (member ∈ a.names) := by
  rw [Bool.eq_iff_iff, Archive.has_iff_mem_names, decide_eq_true_eq]

/-- Whether an archive has a member for a path. -/
def Archive.Names (a : Archive) (path : String) : Prop :=
  ∃ member, MemberPath.normalize? path = some member ∧ member ∈ a.names

def ArchiveError.IsMissing : ArchiveError → Prop
  | member (.missing _) | member (.unusablePath _) => True
  | _ => False

namespace PackageContent

variable {c : PackageContent} {l : Location} {t : FileTree} {call : ContentCall} {a b : Archive}
  {e : ArchiveError} {h more : ContentHistory} {path : String}

def perform (t : FileTree) (c : PackageContent) :
    ContentCall → Except ArchiveError ContentReply × PackageContent
  | .has path => ((c.has t path).1.map .truth, (c.has t path).2)
  | .read path => ((c.read t path).1.map .content, (c.read t path).2)
  | .names => ((c.names t).1.map .names, (c.names t).2)
  | .close => (.ok .closed, c.close)

def after (c : PackageContent) (h : ContentHistory) : PackageContent :=
  h.foldl (fun c s => (c.perform s.1 s.2).2) c

def answers (c : PackageContent) : ContentHistory → List (Except ArchiveError ContentReply)
  | [] => []
  | (t, call) :: rest => (c.perform t call).1 :: (c.perform t call).2.answers rest

theorem after_append (c : PackageContent) (h more : ContentHistory) :
    c.after (h ++ more) = (c.after h).after more := List.foldl_append

theorem after_concat (c : PackageContent) (h : ContentHistory) (s : FileTree × ContentCall) :
    c.after (h ++ [s]) = ((c.after h).perform s.1 s.2).2 := List.foldl_concat _ _ _ _

/-! ### One call -/

theorem ensureOpen_of_open (h : c.archive = some a) : c.ensureOpen t = (.ok a, c) := by
  simp only [ensureOpen, h]

theorem ensureOpen_of_closed (h : c.archive = none) : c.ensureOpen t =
    match t.openArchive c.location.path with
    | .ok a => (.ok a, { c with archive := some a })
    | .error e => (.error e, c) := by
  cases hopen : t.openArchive c.location.path <;> simp only [ensureOpen, h, hopen]

/-- A call that needs the archive opens it first, and answers what the archive answers. -/
theorem perform_of_needsArchive (h : call.needsArchive = true) : c.perform t call =
    ((c.ensureOpen t).1.bind fun a => call.answer a, (c.ensureOpen t).2) := by
  cases call with
  | has path =>
    obtain ⟨member, hmember⟩ := Option.isSome_iff_exists.mp h
    simp only [perform, has, ContentCall.answer, hmember, Option.any_some]
    obtain ⟨opened, c'⟩ := c.ensureOpen t
    cases opened with
    | error e => rfl
    | ok a => simp [Except.map, Except.bind, Archive.has_eq_mem]
  | read path =>
    obtain ⟨member, hmember⟩ := Option.isSome_iff_exists.mp h
    simp only [perform, read, ContentCall.answer, hmember]
    obtain ⟨opened, c'⟩ := c.ensureOpen t
    cases opened <;> rfl
  | names =>
    simp only [perform, names, ContentCall.answer]
    obtain ⟨opened, c'⟩ := c.ensureOpen t
    cases opened <;> rfl
  | close => cases h

/-- A call that does not need the archive leaves it alone, unless it closes it. -/
theorem perform_of_unneeded (h : call.needsArchive = false) (hclose : call ≠ .close) (a : Archive) :
    c.perform t call = (call.answer a, c) := by
  have hunusable {path : String} (h : (MemberPath.normalize? path).isSome = false) :
      MemberPath.normalize? path = none :=
    Option.isNone_iff_eq_none.mp (Option.isSome_eq_false_iff.mp h)
  cases call with
  | has path =>
    have hnone := hunusable h
    simp [perform, has, ContentCall.answer, hnone, Except.map]
  | read path =>
    have hnone := hunusable h
    simp [perform, read, ContentCall.answer, hnone, Except.map]
  | names => cases h
  | close => exact absurd rfl hclose

theorem perform_of_open (h : c.archive = some a) (hclose : call ≠ .close) :
    c.perform t call = (call.answer a, c) := by
  by_cases hneeds : call.needsArchive = true
  · rw [perform_of_needsArchive hneeds, ensureOpen_of_open h]
    rfl
  · exact perform_of_unneeded (Bool.not_eq_true _ ▸ hneeds) hclose a

theorem perform_of_closed (h : c.archive = none) (hneeds : call.needsArchive = true) :
    c.perform t call =
      match t.openArchive c.location.path with
      | .ok a => (call.answer a, { c with archive := some a })
      | .error e => (.error e, c) := by
  rw [perform_of_needsArchive hneeds, ensureOpen_of_closed h]
  cases t.openArchive c.location.path <;> rfl

/-- What a call leaves closed: it closed it, or there was nothing to open, or that failed. -/
theorem archive_perform_eq_none_iff : (c.perform t call).2.archive = none ↔
    call = .close ∨ c.archive = none ∧ call ≠ .close ∧
      (call.needsArchive = true → ∃ e, t.openArchive c.location.path = .error e) := by
  by_cases hclose : call = .close
  · simp [hclose, perform, close]
  · cases hnow : c.archive with
    | some b => simp [perform_of_open hnow hclose, hnow, hclose]
    | none =>
      cases hneeds : call.needsArchive with
      | false => simp [perform_of_unneeded hneeds hclose ⟨[]⟩, hnow, hclose]
      | true =>
        rw [perform_of_closed hnow hneeds]
        cases t.openArchive c.location.path <;> simp [hnow, hclose]

theorem archive_perform_eq_some_iff : (c.perform t call).2.archive = some a ↔
    c.archive = some a ∧ call ≠ .close ∨
      c.archive = none ∧ call.needsArchive = true ∧ t.openArchive c.location.path = .ok a := by
  by_cases hclose : call = .close
  · simp [hclose, perform, close, ContentCall.needsArchive]
  · cases hnow : c.archive with
    | some b => simp [perform_of_open hnow hclose, hnow, hclose]
    | none =>
      cases hneeds : call.needsArchive with
      | false => simp [perform_of_unneeded hneeds hclose ⟨[]⟩, hnow]
      | true =>
        rw [perform_of_closed hnow hneeds]
        cases t.openArchive c.location.path <;> simp [hnow]

theorem location_ensureOpen (t : FileTree) (c : PackageContent) :
    (c.ensureOpen t).2.location = c.location := by
  cases h : c.archive with
  | some a => rw [ensureOpen_of_open h]
  | none =>
    rw [ensureOpen_of_closed h]
    cases t.openArchive c.location.path <;> rfl

theorem location_perform (t : FileTree) (c : PackageContent) (call : ContentCall) :
    (c.perform t call).2.location = c.location := by
  by_cases hclose : call = .close
  · rw [hclose]
    rfl
  · cases hneeds : call.needsArchive with
    | true => rw [perform_of_needsArchive hneeds, location_ensureOpen]
    | false => rw [perform_of_unneeded hneeds hclose ⟨[]⟩]

theorem location_after (c : PackageContent) (h : ContentHistory) :
    (c.after h).location = c.location := by
  induction h using List.reverseRecOn with
  | nil => rfl
  | append_singleton h s ih => rw [after_concat, location_perform, ih]

/-! ### What is open after some calls -/

/-- No call since the last close needed the archive and could open it. -/
def Unopened (l : Location) (h : ContentHistory) : Prop :=
  ∃ before failed, h = before ++ failed ∧
    (before = [] ∨ ∃ earlier t, before = earlier ++ [(t, .close)]) ∧
    ∀ s ∈ failed, s.2 ≠ .close ∧
      (s.2.needsArchive = true → ∃ e, s.1.openArchive l.path = .error e)

/-- A call was the first since the last close that needed the archive and could open it, this one,
and none has closed it since. -/
def OpenedBy (l : Location) (h : ContentHistory) (a : Archive) : Prop :=
  ∃ before t call later, h = before ++ (t, call) :: later ∧ Unopened l before ∧
    call.needsArchive = true ∧ t.openArchive l.path = .ok a ∧ ∀ s ∈ later, s.2 ≠ .close

theorem unopened_nil (l : Location) : Unopened l [] := ⟨[], [], rfl, Or.inl rfl, by simp⟩

theorem unopened_concat_iff {s : FileTree × ContentCall} : Unopened l (h ++ [s]) ↔
    s.2 = .close ∨ Unopened l h ∧ s.2 ≠ .close ∧
      (s.2.needsArchive = true → ∃ e, s.1.openArchive l.path = .error e) := by
  constructor
  · rintro ⟨before, failed, hsplit, hbefore, hfailed⟩
    rcases List.eq_nil_or_concat' failed with rfl | ⟨failed, last, rfl⟩
    · rcases hbefore with rfl | ⟨earlier, t, rfl⟩
      · simp at hsplit
      · rw [List.append_nil] at hsplit
        obtain ⟨-, ⟨⟩⟩ := List.append_inj' hsplit rfl
        exact Or.inl rfl
    · rw [← List.append_assoc] at hsplit
      obtain ⟨rfl, ⟨⟩⟩ := List.append_inj' hsplit rfl
      rw [List.forall_mem_append] at hfailed
      exact Or.inr ⟨⟨before, failed, rfl, hbefore, hfailed.1⟩, hfailed.2 s List.mem_cons_self⟩
  · rintro (hclose | ⟨⟨before, failed, rfl, hbefore, hfailed⟩, hs⟩)
    · obtain ⟨t, call⟩ := s
      obtain rfl : call = .close := hclose
      exact ⟨h ++ [(t, .close)], [], by simp, Or.inr ⟨h, t, rfl⟩, by simp⟩
    · refine ⟨before, failed ++ [s], List.append_assoc _ _ _, hbefore, ?_⟩
      rw [List.forall_mem_append]
      exact ⟨hfailed, by simpa using hs⟩

theorem archive_after_eq_none_iff : ((fresh l).after h).archive = none ↔ Unopened l h := by
  induction h using List.reverseRecOn with
  | nil => exact iff_of_true rfl (unopened_nil l)
  | append_singleton h s ih =>
    have hlocation : ((fresh l).after h).location = l := location_after (fresh l) h
    rw [after_concat, archive_perform_eq_none_iff, unopened_concat_iff, ih, hlocation]

theorem openedBy_concat_iff {s : FileTree × ContentCall} : OpenedBy l (h ++ [s]) a ↔
    OpenedBy l h a ∧ s.2 ≠ .close ∨
      Unopened l h ∧ s.2.needsArchive = true ∧ s.1.openArchive l.path = .ok a := by
  constructor
  · rintro ⟨before, t, call, later, hsplit, hclosed, hneeds, hopen, hlater⟩
    rcases List.eq_nil_or_concat' later with rfl | ⟨later, last, rfl⟩
    · obtain ⟨rfl, ⟨⟩⟩ := List.append_inj' hsplit rfl
      exact Or.inr ⟨hclosed, hneeds, hopen⟩
    · rw [← List.cons_append, ← List.append_assoc] at hsplit
      obtain ⟨rfl, ⟨⟩⟩ := List.append_inj' hsplit rfl
      rw [List.forall_mem_append] at hlater
      exact Or.inl ⟨⟨before, t, call, later, rfl, hclosed, hneeds, hopen, hlater.1⟩,
        hlater.2 s List.mem_cons_self⟩
  · rintro (⟨⟨before, t, call, later, rfl, hclosed, hneeds, hopen, hlater⟩, hs⟩ |
      ⟨hclosed, hneeds, hopen⟩)
    · refine ⟨before, t, call, later ++ [s], by simp, hclosed, hneeds, hopen, ?_⟩
      rw [List.forall_mem_append]
      exact ⟨hlater, by simpa using hs⟩
    · exact ⟨h, s.1, s.2, [], rfl, hclosed, hneeds, hopen, by simp⟩

theorem archive_after_iff : ((fresh l).after h).archive = some a ↔ OpenedBy l h a := by
  induction h using List.reverseRecOn generalizing a with
  | nil => exact iff_of_false nofun (by rintro ⟨before, t, call, later, hsplit, -⟩; simp at hsplit)
  | append_singleton h s ih =>
    have hlocation : ((fresh l).after h).location = l := location_after (fresh l) h
    rw [after_concat, archive_perform_eq_some_iff, openedBy_concat_iff, ih,
      archive_after_eq_none_iff, hlocation]

/-- While a content is open, calls are answered by the archive that was opened. -/
theorem answers_of_open (h : c.archive = some a) (hmore : ∀ s ∈ more, s.2 ≠ .close) :
    c.answers more = more.map (fun s => s.2.answer a) ∧ c.after more = c := by
  induction more with
  | nil => exact ⟨rfl, rfl⟩
  | cons s more ih =>
    obtain ⟨hs, hmore⟩ := List.forall_mem_cons.mp hmore
    obtain ⟨hanswers, hafter⟩ := ih hmore
    have hstep : c.perform s.1 s.2 = (s.2.answer a, c) := perform_of_open h hs
    constructor
    · rw [answers, hstep, List.map_cons, hanswers]
    · rw [after, List.foldl_cons, hstep]
      exact hafter

/-! ### Answers about members -/

theorem has_of_available (h : (c.ensureOpen t).1 = .ok a) (path : String) :
    ∃ answer, (c.has t path).1 = .ok answer ∧ (answer = true ↔ a.Names path) := by
  unfold has Archive.Names
  cases MemberPath.normalize? path with
  | none => exact ⟨false, rfl, by simp⟩
  | some member =>
    exact ⟨a.has member, by simp [h, Except.map], by simp [Archive.has_iff_mem_names]⟩

theorem names_of_available (h : (c.ensureOpen t).1 = .ok a) : (c.names t).1 = .ok a.names := by
  simp only [names, h, Except.map]

theorem read_of_available {member : String} (h : (c.ensureOpen t).1 = .ok a)
    (hmember : MemberPath.normalize? path = some member) :
    (c.read t path).1 = (a.read member).mapError .member := by
  simp only [read, hmember]
  generalize c.ensureOpen t = opened at h
  obtain ⟨opened, c'⟩ := opened
  obtain rfl : opened = .ok a := h
  rfl

/-- Reading fails for want of the member exactly if the archive has none for the path. -/
theorem read_missing_iff (h : (c.ensureOpen t).1 = .ok a) (path : String) :
    (∃ e, (c.read t path).1 = .error e ∧ e.IsMissing) ↔ ¬ a.Names path := by
  cases hmember : MemberPath.normalize? path with
  | none =>
    refine iff_of_true ⟨.member (.unusablePath path), ?_, trivial⟩
      (by simp [Archive.Names, hmember])
    simp only [read, hmember]
  | some member =>
    rw [read_of_available h hmember]
    by_cases hnames : member ∈ a.names
    · refine iff_of_false ?_ (by simp [Archive.Names, hmember, hnames])
      rintro ⟨e, he, hmissing⟩
      obtain ⟨entry, hlast⟩ := Archive.exists_isLast_of_mem_names hnames
      obtain ⟨hsound, hfaulty⟩ := Archive.read_of_isLast hlast
      cases hfault : entry.fault with
      | none =>
        rw [hsound hfault] at he
        cases he
      | some fault =>
        rw [hfaulty fault hfault] at he
        cases he
        exact hmissing
    · refine iff_of_true ⟨.member (.missing member), ?_, trivial⟩
        (by simp [Archive.Names, hmember, hnames])
      simp only [Archive.read, Archive.find?_eq_none_iff.mpr hnames]
      rfl

/-- Reading gives the content of the last member of the name, or tells of its fault. -/
theorem read_of_isLast {member : String} {entry : Member} (h : (c.ensureOpen t).1 = .ok a)
    (hmember : MemberPath.normalize? path = some member) (hlast : a.IsLast member entry) :
    (entry.fault = none → (c.read t path).1 = .ok entry.content) ∧
      ∀ fault, entry.fault = some fault →
        (c.read t path).1 = .error (.member (.faulty member fault)) := by
  obtain ⟨hsound, hfaulty⟩ := Archive.read_of_isLast hlast
  rw [read_of_available h hmember]
  constructor
  · intro hfault
    rw [hsound hfault]
    rfl
  · intro fault hfault
    rw [hfaulty fault hfault]
    rfl

/-- Whether what a content says about members is what an archive holds: which there are, which
cannot be read for want of one, and what the last one of a name gives. -/
structure Agrees (c : PackageContent) (t : FileTree) (a : Archive) : Prop where
  names : (c.names t).1 = .ok a.names
  has : ∀ path, ∃ answer, (c.has t path).1 = .ok answer ∧ (answer = true ↔ a.Names path)
  missing_iff : ∀ path, (∃ e, (c.read t path).1 = .error e ∧ e.IsMissing) ↔ ¬ a.Names path
  read : ∀ path member entry, MemberPath.normalize? path = some member → a.IsLast member entry →
    entry.fault = none → (c.read t path).1 = .ok entry.content
  read_faulty : ∀ path member entry, MemberPath.normalize? path = some member →
    a.IsLast member entry → ∀ fault, entry.fault = some fault →
      (c.read t path).1 = .error (.member (.faulty member fault))

theorem agrees_of_available (h : (c.ensureOpen t).1 = .ok a) : c.Agrees t a where
  names := names_of_available h
  has := has_of_available h
  missing_iff := read_missing_iff h
  read _ _ _ hmember hlast := (read_of_isLast h hmember hlast).1
  read_faulty _ _ _ hmember hlast := (read_of_isLast h hmember hlast).2

/-- The life of the content of a package after some calls, for which the tree may have changed from
one to the next: when it is open, what it answers while it is, what a call does that finds it closed,
which paths it answers without the archive, and that its answers about members agree. -/
structure Lives (l : Location) (h : ContentHistory) (t : FileTree) : Prop where
  isOpen_iff : ((fresh l).after h).isOpen = true ↔ ∃ a, OpenedBy l h a
  answers : ∀ a more, OpenedBy l h a → (∀ s ∈ more, s.2 ≠ .close) →
    ((fresh l).after h).answers more = more.map (fun s => s.2.answer a)
  stays_open : ∀ a more, OpenedBy l h a → (∀ s ∈ more, s.2 ≠ .close) → OpenedBy l (h ++ more) a
  perform_closed : ∀ call, ((fresh l).after h).isOpen = false → call.needsArchive = true →
    ((fresh l).after h).perform t call =
      match t.openArchive l.path with
      | .ok a => (call.answer a, ⟨l, some a⟩)
      | .error e => (.error e, ⟨l, none⟩)
  has_unusable : ∀ path, MemberPath.normalize? path = none →
    ((fresh l).after h).has t path = (.ok false, (fresh l).after h)
  read_unusable : ∀ path, MemberPath.normalize? path = none →
    ((fresh l).after h).read t path =
      (.error (.member (.unusablePath path)), (fresh l).after h)
  agrees : ∀ a, (((fresh l).after h).ensureOpen t).1 = .ok a → ((fresh l).after h).Agrees t a

theorem lifecycle (l : Location) (h : ContentHistory) (t : FileTree) : Lives l h t := by
  have harchive (a : Archive) := archive_after_iff (l := l) (h := h) (a := a)
  have hlocation : ((fresh l).after h).location = l := location_after (fresh l) h
  have hopen (a : Archive) (more : ContentHistory) (hopened : OpenedBy l h a)
      (hmore : ∀ s ∈ more, s.2 ≠ .close) := answers_of_open ((harchive a).mpr hopened) hmore
  refine
    { isOpen_iff := ?isOpen
      answers := fun a more hopened hmore => (hopen a more hopened hmore).1
      stays_open := fun a more hopened hmore => ?stays
      perform_closed := fun call hclosed hneeds => ?closed
      has_unusable := fun path hpath => ?has
      read_unusable := fun path hpath => ?read
      agrees := fun a havailable => agrees_of_available havailable }
  case isOpen => simp only [isOpen, Option.isSome_iff_exists, harchive]
  case stays =>
    refine archive_after_iff.mp ?_
    rw [after_append, (hopen a more hopened hmore).2, (harchive a).mpr hopened]
  case closed =>
    have hnone : ((fresh l).after h).archive = none := by simpa [isOpen] using hclosed
    have hcontent : (fresh l).after h = ⟨l, none⟩ := congrArg₂ mk hlocation hnone
    rw [perform_of_closed hnone hneeds, hcontent]
  case has => simp only [has, hpath]
  case read => simp only [read, hpath]

def doubledArchive : Archive := ⟨[⟨"map", [1], none⟩, ⟨"map", [2], none⟩]⟩

/-- The archive is read after its file was removed, and cannot be opened again once it is closed. -/
theorem lifecycle_removed :
    let l : Location := .ofParts ["A.zip"]
    let held : FileTree := ⟨.dir [("A.zip", .file (.archive doubledArchive))], []⟩
    let gone := held.remove l.path
    OpenedBy l [(held, .has "map")] doubledArchive ∧
    ((fresh l).after [(held, .has "map")]).answers [(gone, .read "/map"), (gone, .names)] =
      [.ok (.content [2]), .ok (.names ["map", "map"])] ∧
    (((fresh l).after [(held, .has "map"), (gone, .close)]).perform gone .names).1 =
      .error (.unopened ⟨.missing, "/A.zip"⟩) ∧
    ((fresh l).after [(held, .has "map")]).has gone ".." =
      (.ok false, (fresh l).after [(held, .has "map")]) ∧
    (((fresh l).after [(held, .has "map")]).read gone "map").1 = .ok [2] := by
  intro l held gone
  have hheld : held.openArchive l.path = .ok doubledArchive := rfl
  have hopened : OpenedBy l [(held, .has "map")] doubledArchive :=
    ⟨[], held, .has "map", [], rfl, unopened_nil l, by decide, hheld, by simp⟩
  have hgone : gone.openArchive l.path = .error (.unopened ⟨.missing, "/A.zip"⟩) := rfl
  have hlast : doubledArchive.IsLast "map" ⟨"map", [2], none⟩ :=
    ⟨[⟨"map", [1], none⟩], [], rfl, rfl, by simp⟩
  have hlives := lifecycle l [(held, .has "map")] gone
  refine ⟨hopened, ?_, ?_, hlives.has_unusable ".." (by decide), ?_⟩
  · exact hlives.answers doubledArchive [(gone, .read "/map"), (gone, .names)] hopened (by simp)
  · have hclosed : ((fresh l).after [(held, .has "map"), (gone, .close)]).isOpen = false := rfl
    rw [(lifecycle l [(held, .has "map"), (gone, .close)] gone).perform_closed .names hclosed rfl,
      hgone]
  · exact (hlives.agrees doubledArchive rfl).read "map" "map" _ (by decide) hlast rfl

end PackageContent

end PackIndex
