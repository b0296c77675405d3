import Mathlib.Data.List.Pairwise
import PackIndex.Version.Selection
import PackIndex.Proofs.Version.Order

/-!
# What selection picks

Of things whose versions are numbers and differ from one another, `newest?` picks the one that no
other exceeds, `oldest?` the one that exceeds no other, and `find?` the only one of a version. So a
selector picks the same thing in whatever order the things are listed.
-/

namespace PackIndex.Selection

variable {α : Type} {version : α → Version} {things others : List α}

/-- Versions are numbers, no two of them the same. -/
structure Comparable (version : α → Version) (things : List α) : Prop where
  numbers : ∀ x ∈ things, (version x).isNaN = false
  differ : things.Pairwise fun x y => (version x).same (version y) = false

instance differ_symm : Std.Symm fun x y : α => (version x).same (version y) = false where
  symm _ _ h := by rwa [Binary64.same_comm]

theorem Comparable.perm (h : Comparable version things) (hp : things.Perm others) :
    Comparable version others where
  numbers x hx := h.numbers x (hp.mem_iff.mpr hx)
  differ := (hp.pairwise_iff fun {x y} hxy => by rwa [Binary64.same_comm]).mp h.differ

theorem eq_of_same
    (h : things.Pairwise fun x y => (version x).same (version y) = false) {x y : α}
    (hx : x ∈ things) (hy : y ∈ things) (hxy : (version x).same (version y) = true) : x = y := by
  by_contra hne
  rw [h.forall hx hy hne] at hxy
  cases hxy

theorem find?_eq_some_iff
    (h : things.Pairwise fun x y => (version x).same (version y) = false) (v : Version) (x : α) :
    find? version v things = some x ↔ x ∈ things ∧ (version x).same v = true := by
  constructor
  · intro hf
    exact ⟨List.mem_of_find?_eq_some hf, by simpa using List.find?_some hf⟩
  · rintro ⟨hx, hv⟩
    have hsome : (find? version v things).isSome := List.find?_isSome.mpr ⟨x, hx, hv⟩
    obtain ⟨y, hy⟩ := Option.isSome_iff_exists.mp hsome
    have hyv : (version y).same v = true := by simpa using List.find?_some hy
    rw [hy, eq_of_same h (List.mem_of_find?_eq_some hy) hx
      (Binary64.same_trans hyv (Binary64.same_symm hv))]

theorem foldl_better_mem (beats : α → α → Bool) (rest : List α) (best : α) :
    rest.foldl (fun b y => if beats y b then y else b) best ∈ best :: rest := by
  induction rest generalizing best with
  | nil => simp
  | cons y rest ih =>
    rw [List.foldl_cons]
    by_cases hyb : beats y best = true
    · rw [if_pos hyb]
      exact List.mem_cons_of_mem _ (ih y)
    · rw [if_neg hyb]
      rcases List.mem_cons.mp (ih best) with h | h
      · rw [h]; exact List.mem_cons_self
      · exact List.mem_cons_of_mem _ (List.mem_cons_of_mem _ h)

/-- The fold that keeps the better of two things ends with the first of all, or with one that beats
it, and no other beats that. -/
theorem foldl_better (beats : α → α → Bool) (hirrefl : ∀ x, beats x x = false)
    (htrans : ∀ x y z, beats x y = true → beats y z = true → beats x z = true) (rest : List α)
    (best : α) : ∃ last, rest.foldl (fun b y => if beats y b then y else b) best = last ∧
      (last = best ∨ beats last best = true) ∧ ∀ x ∈ best :: rest, beats x last = false := by
  induction rest generalizing best with
  | nil => exact ⟨best, rfl, Or.inl rfl, by simp [hirrefl]⟩
  | cons y rest ih =>
    rw [List.foldl_cons]
    by_cases hyb : beats y best = true
    · rw [if_pos hyb]
      obtain ⟨last, hlast, hfirst, hunbeaten⟩ := ih y
      have hbeats : beats last best = true := by
        rcases hfirst with rfl | hly
        · exact hyb
        · exact htrans _ _ _ hly hyb
      refine ⟨last, hlast, Or.inr hbeats, List.forall_mem_cons.mpr ⟨?_, hunbeaten⟩⟩
      rw [Bool.eq_false_iff]
      intro hbl
      have hself := htrans _ _ _ hbeats hbl
      rw [hirrefl] at hself
      cases hself
    · rw [if_neg hyb]
      obtain ⟨last, hlast, hfirst, hunbeaten⟩ := ih best
      obtain ⟨hb, hrest⟩ := List.forall_mem_cons.mp hunbeaten
      refine ⟨last, hlast, hfirst, List.forall_mem_cons.mpr ⟨hb, List.forall_mem_cons.mpr ⟨?_, hrest⟩⟩⟩
      rw [Bool.eq_false_iff]
      intro hyl
      rcases hfirst with rfl | hlb
      · exact hyb hyl
      · exact hyb (htrans _ _ _ hyl hlb)

theorem newest?_isSome (version : α → Version) (things : List α) :
    (newest? version things).isSome ↔ things ≠ [] := by
  cases things <;> simp [newest?]

theorem oldest?_isSome (version : α → Version) (things : List α) :
    (oldest? version things).isSome ↔ things ≠ [] := by
  cases things <;> simp [oldest?]

theorem newest?_mem {x : α} (h : newest? version things = some x) : x ∈ things := by
  cases things with
  | nil => simp [newest?] at h
  | cons best rest =>
    obtain rfl := Option.some.inj h
    exact foldl_better_mem (fun y b => (version b).lt (version y)) rest best

theorem oldest?_mem {x : α} (h : oldest? version things = some x) : x ∈ things := by
  cases things with
  | nil => simp [oldest?] at h
  | cons best rest =>
    obtain rfl := Option.some.inj h
    exact foldl_better_mem (fun y b => (version y).lt (version b)) rest best

theorem newest?_spec {x : α} (h : newest? version things = some x) :
    ∀ y ∈ things, (version x).lt (version y) = false := by
  cases things with
  | nil => simp [newest?] at h
  | cons best rest =>
    obtain ⟨last, hlast, -, hunbeaten⟩ := foldl_better (fun y b => (version b).lt (version y))
      (fun _ => Binary64.lt_irrefl _) (fun _ _ _ hxy hyz => Binary64.lt_trans hyz hxy) rest best
    obtain rfl := hlast.symm.trans (Option.some.inj h)
    exact hunbeaten

theorem oldest?_spec {x : α} (h : oldest? version things = some x) :
    ∀ y ∈ things, (version y).lt (version x) = false := by
  cases things with
  | nil => simp [oldest?] at h
  | cons best rest =>
    obtain ⟨last, hlast, -, hunbeaten⟩ := foldl_better (fun y b => (version y).lt (version b))
      (fun _ => Binary64.lt_irrefl _) (fun _ _ _ hxy hyz => Binary64.lt_trans hxy hyz) rest best
    obtain rfl := hlast.symm.trans (Option.some.inj h)
    exact hunbeaten

/-- The newest thing is the one that no other exceeds. -/
theorem newest?_eq_some_iff (h : Comparable version things) (x : α) :
    newest? version things = some x ↔
      x ∈ things ∧ ∀ y ∈ things, (version x).lt (version y) = false := by
  constructor
  · exact fun hx => ⟨newest?_mem hx, newest?_spec hx⟩
  · rintro ⟨hx, hbest⟩
    obtain ⟨y, hy⟩ := Option.isSome_iff_exists.mp
      ((newest?_isSome version things).mpr (List.ne_nil_of_mem hx))
    have hmem := newest?_mem hy
    have hbest' := newest?_spec hy
    rw [hy, eq_of_same h.differ hmem hx (Binary64.same_of_not_lt (h.numbers y hmem)
      (h.numbers x hx) (hbest' x hx) (hbest y hmem))]

theorem oldest?_eq_some_iff (h : Comparable version things) (x : α) :
    oldest? version things = some x ↔
      x ∈ things ∧ ∀ y ∈ things, (version y).lt (version x) = false := by
  constructor
  · exact fun hx => ⟨oldest?_mem hx, oldest?_spec hx⟩
  · rintro ⟨hx, hbest⟩
    obtain ⟨y, hy⟩ := Option.isSome_iff_exists.mp
      ((oldest?_isSome version things).mpr (List.ne_nil_of_mem hx))
    have hmem := oldest?_mem hy
    have hbest' := oldest?_spec hy
    rw [hy, eq_of_same h.differ hmem hx (Binary64.same_of_not_lt (h.numbers y hmem)
      (h.numbers x hx) (hbest y hmem) (hbest' x hx))]

/-! ### Newest and oldest -/

def IsNewest (version : α → Version) (things : List α) (x : α) : Prop :=
  x ∈ things ∧ ∀ y ∈ things, y ≠ x → (version y).lt (version x) = true

def IsOldest (version : α → Version) (things : List α) (x : α) : Prop :=
  x ∈ things ∧ ∀ y ∈ things, y ≠ x → (version x).lt (version y) = true

section Comparable

variable (h : Comparable version things)
include h

theorem Comparable.not_lt_iff {x y : α} (hx : x ∈ things) (hy : y ∈ things) :
    (version x).lt (version y) = false ↔ (y ≠ x → (version y).lt (version x) = true) := by
  constructor
  · intro hxy hne
    by_contra hyx
    rw [Bool.not_eq_true] at hyx
    exact hne (eq_of_same h.differ hy hx
      (Binary64.same_of_not_lt (h.numbers y hy) (h.numbers x hx) hyx hxy))
  · intro hyx
    by_cases heq : y = x
    · rw [heq, Binary64.lt_irrefl]
    · exact Binary64.lt_asymm (hyx heq)

theorem newest?_iff_isNewest (x : α) :
    newest? version things = some x ↔ IsNewest version things x := by
  rw [newest?_eq_some_iff h]
  exact and_congr_right fun hx => forall₂_congr fun y hy => h.not_lt_iff hx hy

theorem oldest?_iff_isOldest (x : α) :
    oldest? version things = some x ↔ IsOldest version things x := by
  rw [oldest?_eq_some_iff h]
  refine and_congr_right fun hx => forall₂_congr fun y hy => ?_
  rw [h.not_lt_iff hy hx]
  exact imp_congr_left ne_comm

/-- The newest of some things stays the newest among more unless one that came is above it. -/
theorem IsNewest.grown_iff {fewer : List α} {came : α → Prop}
    (hthings : ∀ y, y ∈ things ↔ y ∈ fewer ∨ came y) {x : α} (hx : IsNewest version fewer x) :
    IsNewest version things x ↔ ∀ y, came y → (version x).lt (version y) = false := by
  have hmem : x ∈ things := (hthings x).mpr (Or.inl hx.1)
  constructor
  · intro hnewest y hy
    have hy : y ∈ things := (hthings y).mpr (Or.inr hy)
    exact (h.not_lt_iff hmem hy).mpr (hnewest.2 y hy)
  · intro hcame
    refine ⟨hmem, fun y hy hne => ?_⟩
    rcases (hthings y).mp hy with hold | hnew
    · exact hx.2 y hold hne
    · exact (h.not_lt_iff hmem hy).mp (hcame y hnew) hne

end Comparable

/-! ### Order of the things -/

section Perm

variable (h : Comparable version things) (hp : things.Perm others)
include h hp

theorem find?_perm (v : Version) : find? version v things = find? version v others := by
  ext x
  rw [find?_eq_some_iff h.differ, find?_eq_some_iff (h.perm hp).differ, hp.mem_iff]

theorem newest?_perm : newest? version things = newest? version others := by
  ext x
  simp only [newest?_eq_some_iff h, newest?_eq_some_iff (h.perm hp), hp.mem_iff]

theorem oldest?_perm : oldest? version things = oldest? version others := by
  ext x
  simp only [oldest?_eq_some_iff h, oldest?_eq_some_iff (h.perm hp), hp.mem_iff]

/-- What a selector picks does not depend on the order of the things. -/
theorem pick?_perm (strict : Bool) (s : Selector) :
    pick? version strict things s = pick? version strict others s := by
  match s with
  | .sentinel .newest => exact newest?_perm h hp
  | .sentinel .oldest => exact oldest?_perm h hp
  | .exactly v => simp only [pick?, find?_perm h hp, newest?_perm h hp]

theorem select_perm (strict : Bool) (s : Value) :
    select version strict things s = select version strict others s := by
  simp only [select, funext (pick?_perm h hp strict)]

end Perm

end PackIndex.Selection
