import Mathlib.Analysis.Convex.Segment
import Mathlib.Data.List.Sort
import PortLogic.Func.Apply
import PortLogic.Proofs.Number.Order
import PortLogic.Proofs.Number.Rational

/-!
# PortLogic.Proofs.Func.Lookup — what a table of points says

A look-up read over any ordered field, where no step has an error of its own. What a table says is
told without an order of listing: the second point (`IsSecond`), the point nearest to a number
(`IsNearest`), and the line from point to point (`IsOnPolyline`). Sorting makes the points of a
table with different keys ascend, among ascending points the search finds the two around a number
(`bracket_encloses`), and comparing with these two is comparing with all points
(`Encloses.nearest`). So a look-up reads off the table what it says (`reads_table`). A look-up of
64-bit numbers sorts and searches as exactly as that, and can differ from it only by what the
operations on the two points round (`lookup_exact`).
-/

namespace PortLogic

namespace Lookup

/-! ## Ascending points -/

section Order

variable {α : Type} [LinearOrder α]

/-- Points in ascending order of their keys, no two of which are the same. -/
def Ascending (points : List (α × α)) : Prop :=
  points.Pairwise fun p q => p.1 < q.1

/-- The points of a table as a look-up sorts them. -/
def sorted (points : List (α × α)) : List (α × α) :=
  points.mergeSort fun p q => decide (p.1 ≤ q.1)

/-- The point with exactly one key below its own. -/
def IsSecond (points : List (α × α)) (q : α × α) : Prop :=
  q ∈ points ∧ ∃ p ∈ points, p.1 < q.1 ∧ ∀ r ∈ points, r = p ∨ q.1 ≤ r.1

/-- Two points with a number between their keys, and no other key between them. -/
structure Encloses (points : List (α × α)) (x : α) (p q : α × α) : Prop where
  left_mem : p ∈ points
  right_mem : q ∈ points
  le : p.1 ≤ x
  lt : x < q.1
  adjacent : ∀ r ∈ points, r.1 ≤ p.1 ∨ q.1 ≤ r.1

variable {points others rest : List (α × α)} {p q : α × α} {x : α}

@[simp]
theorem mem_sorted : p ∈ sorted points ↔ p ∈ points :=
  List.mem_mergeSort

/-- A table of points has a first and a second one. -/
theorem exists_sorted_eq (htwo : 2 ≤ points.length) :
    ∃ p q rest, sorted points = p :: q :: rest := by
  have hlength : 2 ≤ (sorted points).length := by
    rwa [sorted, List.length_mergeSort]
  match hsorted : sorted points, hlength with
  | p :: q :: rest, _ => exact ⟨p, q, rest, rfl⟩

/-- Points with different keys are sorted strictly. -/
theorem ascending_sorted (hdistinct : (points.map Prod.fst).Nodup) : Ascending (sorted points) := by
  have hle : (sorted points).Pairwise fun p q => p.1 ≤ q.1 := by
    refine (List.pairwise_mergeSort ?_ ?_ points).imp of_decide_eq_true
    · intro p q r hpq hqr
      exact decide_eq_true ((of_decide_eq_true hpq).trans (of_decide_eq_true hqr))
    · intro p q
      simpa using le_total p.1 q.1
  have hne : (sorted points).Pairwise fun p q => p.1 ≠ q.1 := by
    have hperm : (points.map Prod.fst).Perm ((sorted points).map Prod.fst) :=
      ((List.mergeSort_perm points _).map Prod.fst).symm
    exact List.pairwise_map.mp (hperm.nodup hdistinct)
  exact (hle.and hne).imp fun h => lt_of_le_of_ne h.1 h.2

/-- There is one way to sort points with different keys. -/
theorem sorted_eq_of_perm (hdistinct : (points.map Prod.fst).Nodup) (h : others.Perm points) :
    sorted others = sorted points := by
  have hothers : (others.map Prod.fst).Nodup := (h.map Prod.fst).symm.nodup hdistinct
  have hperm : (sorted others).Perm (sorted points) :=
    ((List.mergeSort_perm others _).trans h).trans (List.mergeSort_perm points _).symm
  refine List.Perm.eq_of_pairwise ?_ (ascending_sorted hothers) (ascending_sorted hdistinct) hperm
  intro p q _ _ hpq hqp
  exact absurd (hpq.trans hqp) (lt_irrefl p.1)

/-- Every point but the first one comes no earlier than the second one. -/
theorem Ascending.eq_or_le (h : Ascending (p :: q :: rest)) :
    ∀ r ∈ p :: q :: rest, r = p ∨ q.1 ≤ r.1 := by
  intro r hr
  rcases List.mem_cons.mp hr with rfl | hr
  · exact Or.inl rfl
  rcases List.mem_cons.mp hr with rfl | hr
  · exact Or.inr le_rfl
  · exact Or.inr ((List.pairwise_cons.mp (List.pairwise_cons.mp h).2).1 r hr).le

theorem Ascending.isSecond (h : Ascending (p :: q :: rest)) : IsSecond (p :: q :: rest) q :=
  ⟨by simp, p, by simp, (List.pairwise_cons.mp h).1 q List.mem_cons_self, h.eq_or_le⟩

theorem Ascending.head_le (h : Ascending (p :: rest)) : ∀ r ∈ p :: rest, p.1 ≤ r.1 := by
  rw [List.forall_mem_cons]
  exact ⟨le_rfl, fun r hr => ((List.pairwise_cons.mp h).1 r hr).le⟩

theorem Ascending.le_getLast (h : Ascending points) {last : α × α}
    (hlast : points.getLast? = some last) : ∀ r ∈ points, r.1 ≤ last.1 := by
  rcases List.getLast?_eq_some_iff.mp hlast with ⟨front, rfl⟩
  intro r hr
  rcases List.mem_append.mp hr with hr | hr
  · exact ((List.pairwise_append.mp h).2.2 r hr last List.mem_cons_self).le
  · rw [List.mem_singleton.mp hr]

/-- Among ascending points the search finds the two around a number that is not below the first key
and is below a later one. -/
theorem bracket_encloses (h : Ascending (p :: points)) (hle : p.1 ≤ x)
    (hlt : ∃ q ∈ p :: points, x < q.1) :
    ∃ a b, bracket x (p :: points) = some (a, b) ∧ Encloses (p :: points) x a b := by
  induction points generalizing p with
  | nil =>
    rcases hlt with ⟨q, hq, hlt⟩
    rw [List.mem_singleton.mp hq] at hlt
    exact absurd hlt (not_lt.mpr hle)
  | cons q rest ih =>
    rcases List.pairwise_cons.mp h with ⟨hfirst, hrest⟩
    by_cases hx : x < q.1
    · refine ⟨p, q, by rw [bracket, if_pos ⟨hle, hx⟩], by simp, by simp, hle, hx, ?_⟩
      intro r hr
      exact (h.eq_or_le r hr).imp_left fun heq => le_of_eq (congrArg Prod.fst heq)
    · have hlater : ∃ r ∈ q :: rest, x < r.1 := by
        rcases hlt with ⟨r, hr, hlt⟩
        rcases List.mem_cons.mp hr with rfl | hr
        · exact absurd hlt (not_lt.mpr hle)
        · exact ⟨r, hr, hlt⟩
      rcases ih hrest (not_lt.mp hx) hlater with ⟨a, b, hfound, hencloses⟩
      refine ⟨a, b, by rw [bracket, if_neg fun h => hx h.2, hfound], ?_⟩
      refine ⟨List.mem_cons_of_mem p hencloses.left_mem, List.mem_cons_of_mem p hencloses.right_mem,
        hencloses.le, hencloses.lt, ?_⟩
      intro r hr
      rcases List.mem_cons.mp hr with rfl | hr
      · exact Or.inl (hfirst a hencloses.left_mem).le
      · exact hencloses.adjacent r hr

theorem IsSecond.of_sorted (h : IsSecond (sorted points) q) : IsSecond points q := by
  unfold IsSecond at h ⊢
  simpa only [mem_sorted] using h

theorem Encloses.of_sorted (h : Encloses (sorted points) x p q) : Encloses points x p q where
  left_mem := mem_sorted.mp h.left_mem
  right_mem := mem_sorted.mp h.right_mem
  le := h.le
  lt := h.lt
  adjacent r hr := h.adjacent r (mem_sorted.mpr hr)

end Order

/-! ## Exact arithmetic -/

section Exact

variable {α : Type} [Field α] [LinearOrder α]

/-- Looks a number up where keys are compared as they are. -/
def value? (interpolate : Bool) (x : α) (points : List (α × α)) : Option α :=
  inTable (fun key other => decide (key ≤ other)) interpolate x points

/-- The point with the nearest key, of two as near the one with the larger key. -/
def IsNearest (points : List (α × α)) (x : α) (p : α × α) : Prop :=
  p ∈ points ∧ ∀ q ∈ points, |x - p.1| ≤ |x - q.1| ∧ (|x - q.1| = |x - p.1| → q.1 ≤ p.1)

/-- The line from point to point, which goes on level beyond the last one. -/
inductive IsOnPolyline (points : List (α × α)) (x : α) : α → Prop where
  | between {p q : α × α} {y : α} (hencloses : Encloses points x p q)
      (hsegment : (x, y) ∈ segment α p q) : IsOnPolyline points x y
  | beyond {p : α × α} (hmem : p ∈ points) (hlast : ∀ q ∈ points, q.1 ≤ p.1) (hle : p.1 ≤ x) :
      IsOnPolyline points x p.2

variable {points rest : List (α × α)} {p q : α × α} {x y : α} {interpolate : Bool}

theorem value?_eq (interpolate : Bool) (x : α) (points : List (α × α)) :
    value? interpolate x points = inSorted interpolate x (sorted points) := rfl

/-- Below the first of ascending points a look-up yields what the second one says. -/
theorem inSorted_of_lt (hlt : x < p.1) : inSorted interpolate x (p :: q :: rest) = some q.2 := by
  rw [inSorted, List.head?_cons, List.getLast?_cons]
  exact if_pos hlt

/-- Below all keys a look-up yields what the second point says. -/
theorem value?_of_lt (htwo : 2 ≤ points.length) (hdistinct : (points.map Prod.fst).Nodup)
    (hbelow : ∀ p ∈ points, x < p.1) :
    ∃ q, IsSecond points q ∧ ∀ interpolate, value? interpolate x points = some q.2 := by
  have hascending := ascending_sorted hdistinct
  rcases exists_sorted_eq htwo with ⟨p, q, rest, hsorted⟩
  have hp : p ∈ points := by
    rw [← mem_sorted, hsorted]
    exact List.mem_cons_self
  refine ⟨q, IsSecond.of_sorted ?_, fun interpolate => ?_⟩
  · rw [hsorted] at hascending ⊢
    exact hascending.isSecond
  · rw [value?_eq, hsorted]
    exact inSorted_of_lt (hbelow p hp)

/-- From the first of ascending points on, a look-up yields what the last one says or compares two
neighbours. -/
theorem inSorted_of_le (h : Ascending (p :: rest)) (hle : p.1 ≤ x) :
    (∃ last ∈ p :: rest, (∀ r ∈ p :: rest, r.1 ≤ last.1) ∧ last.1 ≤ x ∧
      ∀ interpolate, inSorted interpolate x (p :: rest) = some last.2) ∨
    ∃ a b, Encloses (p :: rest) x a b ∧ ∀ interpolate,
      inSorted interpolate x (p :: rest) =
        some (if interpolate then onLine x a b else nearer x a b) := by
  obtain ⟨last, hlast⟩ : ∃ last, (p :: rest).getLast? = some last :=
    ⟨_, List.getLast?_cons⟩
  have hmem : last ∈ p :: rest := List.mem_of_getLast? hlast
  by_cases hbeyond : last.1 ≤ x
  · refine Or.inl ⟨last, hmem, h.le_getLast hlast, hbeyond, fun interpolate => ?_⟩
    rw [inSorted, hlast, List.head?_cons]
    simp only
    rw [if_neg (not_lt.mpr hle), if_pos hbeyond]
  · rcases bracket_encloses h hle ⟨last, hmem, not_le.mp hbeyond⟩ with ⟨a, b, hfound, hencloses⟩
    refine Or.inr ⟨a, b, hencloses, fun interpolate => ?_⟩
    rw [inSorted, hlast, List.head?_cons]
    simp only
    rw [if_neg (not_lt.mpr hle), if_neg hbeyond, hfound]
    rfl

theorem IsNearest.of_sorted (h : IsNearest (sorted points) x p) : IsNearest points x p :=
  ⟨mem_sorted.mp h.1, fun q hq => h.2 q (mem_sorted.mpr hq)⟩

variable [IsStrictOrderedRing α]

/-- Of the points around a number, the nearer one is the nearest of all. -/
theorem Encloses.nearest (h : Encloses points x p q) :
    IsNearest points x (if x - p.1 < q.1 - x then p else q) := by
  have hp : |x - p.1| = x - p.1 := abs_of_nonneg (sub_nonneg.mpr h.le)
  have hq : |x - q.1| = q.1 - x := by
    rw [abs_sub_comm]
    exact abs_of_pos (sub_pos.mpr h.lt)
  have hside : ∀ r ∈ points,
      r.1 ≤ p.1 ∧ |x - r.1| = x - r.1 ∨ q.1 ≤ r.1 ∧ |x - r.1| = r.1 - x := by
    intro r hr
    rcases h.adjacent r hr with hleft | hright
    · exact Or.inl ⟨hleft, abs_of_nonneg (sub_nonneg.mpr (hleft.trans h.le))⟩
    · rw [abs_sub_comm]
      exact Or.inr ⟨hright, abs_of_pos (sub_pos.mpr (h.lt.trans_le hright))⟩
  split_ifs with hcloser
  · refine ⟨h.left_mem, fun r hr => ?_⟩
    rw [hp]
    rcases hside r hr with ⟨hkey, hr⟩ | ⟨hkey, hr⟩
    · rw [hr]
      exact ⟨by linarith, fun _ => hkey⟩
    · rw [hr]
      exact ⟨by linarith, fun heq => by linarith⟩
  · refine ⟨h.right_mem, fun r hr => ?_⟩
    rw [hq]
    rcases hside r hr with ⟨hkey, hr⟩ | ⟨hkey, hr⟩
    · rw [hr]
      exact ⟨by linarith, fun _ => by linarith [h.le, h.lt]⟩
    · rw [hr]
      exact ⟨by linarith, fun heq => by linarith⟩

/-- The last point is the nearest to every number beyond it. -/
theorem nearest_of_last (hmem : p ∈ points) (hlast : ∀ q ∈ points, q.1 ≤ p.1) (hle : p.1 ≤ x) :
    IsNearest points x p := by
  refine ⟨hmem, fun q hq => ⟨?_, fun _ => hlast q hq⟩⟩
  rw [abs_of_nonneg (sub_nonneg.mpr hle), abs_of_nonneg (sub_nonneg.mpr ((hlast q hq).trans hle))]
  exact sub_le_sub_left (hlast q hq) x

/-- The value on the line through two points lies on the segment between them. -/
theorem Encloses.mem_segment (h : Encloses points x p q) : (x, onLine x p q) ∈ segment α p q := by
  have hwidth : 0 < q.1 - p.1 := sub_pos.mpr (h.le.trans_lt h.lt)
  refine ⟨(q.1 - x) / (q.1 - p.1), (x - p.1) / (q.1 - p.1),
    div_nonneg (sub_nonneg.mpr h.lt.le) hwidth.le,
    div_nonneg (sub_nonneg.mpr h.le) hwidth.le, ?_, ?_⟩
  · rw [← add_div, div_eq_one_iff_eq hwidth.ne']
    ring
  · refine Prod.ext ?_ ?_
    · simp only [Prod.fst_add, Prod.smul_fst, smul_eq_mul]
      field_simp
      ring
    · simp only [Prod.snd_add, Prod.smul_snd, smul_eq_mul, onLine]
      field_simp
      ring

/-- The line goes through every point of the table. -/
theorem IsOnPolyline.eq_of_mem (hdistinct : (points.map Prod.fst).Nodup) (hp : p ∈ points)
    (h : IsOnPolyline points p.1 y) : y = p.2 := by
  have hsame {q : α × α} (hq : q ∈ points) (hkey : q.1 = p.1) : q = p :=
    List.inj_on_of_nodup_map hdistinct hq hp hkey
  cases h with
  | @between a b _ hencloses hsegment =>
    have hkey : a.1 = p.1 :=
      le_antisymm hencloses.le ((hencloses.adjacent p hp).resolve_right (not_le.mpr hencloses.lt))
    obtain rfl := hsame hencloses.left_mem hkey
    rcases hsegment with ⟨s, t, -, -, hsum, heq⟩
    rcases Prod.mk.inj heq with ⟨hfst, hsnd⟩
    simp only [Prod.smul_fst, Prod.smul_snd, smul_eq_mul] at hfst hsnd
    -- any weight on the right end would lead away from the key
    have hweight : t * (b.1 - a.1) = 0 := by linear_combination hfst - a.1 * hsum
    have ht : t = 0 :=
      (mul_eq_zero.mp hweight).resolve_right (sub_pos.mpr hencloses.lt).ne'
    rw [ht, add_zero] at hsum
    rw [← hsnd, ht, hsum, one_mul, zero_mul, add_zero]
  | beyond hmem hlast hle => exact congrArg Prod.snd (hsame hmem (le_antisymm hle (hlast p hp)))

/-- From the first key on, a look-up yields what the nearest point or the line through the points
says. -/
theorem value?_of_le (hdistinct : (points.map Prod.fst).Nodup) (hx : ∃ p ∈ points, p.1 ≤ x) :
    (∃ p, IsNearest points x p ∧ value? false x points = some p.2) ∧
      ∃ y, IsOnPolyline points x y ∧ value? true x points = some y := by
  have hascending := ascending_sorted hdistinct
  rcases hx with ⟨r, hr, hle⟩
  rw [← mem_sorted] at hr
  simp only [value?_eq]
  match hsorted : sorted points with
  | [] =>
    rw [hsorted] at hr
    cases hr
  | p :: rest =>
  rw [hsorted] at hascending hr
  rcases inSorted_of_le hascending ((hascending.head_le r hr).trans hle) with
    ⟨last, hlast, hgreatest, hbeyond, hfound⟩ | ⟨a, b, hencloses, hfound⟩
  · have hmem : last ∈ points := by rwa [← mem_sorted, hsorted]
    have hall : ∀ r ∈ points, r.1 ≤ last.1 := fun r hr =>
      hgreatest r (by rwa [← hsorted, mem_sorted])
    exact ⟨⟨last, nearest_of_last hmem hall hbeyond, hfound false⟩,
      last.2, .beyond hmem hall hbeyond, hfound true⟩
  · rw [← hsorted] at hencloses
    have hpoints : Encloses points x a b := hencloses.of_sorted
    refine ⟨⟨_, hpoints.nearest, ?_⟩, _, .between hpoints hpoints.mem_segment, hfound true⟩
    rw [hfound false, apply_ite Prod.snd]
    rfl

end Exact

/-! ## Look-ups of numbers -/

section Numbers

open Number (IsExact)

/-- The point that two numbers stand for. -/
def exactPoint (p : Number × Number) : ℚ × ℚ :=
  (p.1.exact, p.2.exact)

/-- No operation on two points around a number is rounded. -/
structure ExactSteps (x : Number) (p q : Number × Number) : Prop where
  left : IsExact (x - p.1) (x.exact - p.1.exact)
  right : IsExact (q.1 - x) (q.1.exact - x.exact)
  rise : IsExact (q.2 - p.2) (q.2.exact - p.2.exact)
  width : IsExact (q.1 - p.1) (q.1.exact - p.1.exact)
  product : IsExact ((x - p.1) * (q.2 - p.2)) ((x - p.1).exact * (q.2 - p.2).exact)
  quotient : IsExact ((x - p.1) * (q.2 - p.2) / (q.1 - p.1))
    (((x - p.1) * (q.2 - p.2)).exact / (q.1 - p.1).exact)
  sum : IsExact (onLine x p q) (p.2.exact + ((x - p.1) * (q.2 - p.2) / (q.1 - p.1)).exact)

variable {x : Number} {points : List (Number × Number)} {p q : Number × Number}
  {interpolate : Bool}

theorem ExactSteps.onLine (h : ExactSteps x p q) :
    (onLine x p q).exact = Lookup.onLine x.exact (exactPoint p) (exactPoint q) := by
  rw [h.sum.2, h.quotient.2, h.product.2, h.left.2, h.rise.2, h.width.2]
  rfl

theorem ExactSteps.nearer (h : ExactSteps x p q) :
    (nearer x p q).exact = Lookup.nearer x.exact (exactPoint p) (exactPoint q) := by
  have hcloser : x - p.1 < q.1 - x ↔ x.exact - p.1.exact < q.1.exact - x.exact := by
    rw [← Number.exact_lt_iff h.left.1 h.right.1, h.left.2, h.right.2]
  by_cases hx : x - p.1 < q.1 - x
  · exact (congrArg Number.exact (if_pos hx)).trans (if_pos (hcloser.mp hx)).symm
  · exact (congrArg Number.exact (if_neg hx)).trans (if_neg (mt hcloser.mpr hx)).symm

/-- Numbers that stand for different rationals are sorted as these are. -/
theorem sorted_exact (hfinite : ∀ p ∈ points, p.1.isFinite = true)
    (hdistinct : ((points.map exactPoint).map Prod.fst).Nodup) :
    (points.mergeSort fun p q => p.1.totalLe q.1).map exactPoint =
      sorted (points.map exactPoint) := by
  refine List.map_mergeSort fun p hp q hq => ?_
  have hp' := hfinite p hp
  have hq' := hfinite q hq
  have hle {a b : Number} (ha : a.isFinite = true) (hb : b.isFinite = true)
      (h : a.totalLe b = true) : a.exact ≤ b.exact :=
    (Number.exact_le_iff ha hb).mpr
      (Number.le_of_totalLe (Number.isNaN_of_isFinite ha) (Number.isNaN_of_isFinite hb) h)
  rw [Bool.eq_iff_iff, decide_eq_true_iff]
  refine ⟨hle hp' hq', fun h => ?_⟩
  by_contra hafter
  -- sorted the other way round the two would be one point
  have hbefore : q.1.totalLe p.1 = true := by
    simpa [hafter] using Number.totalLe_total p.1 q.1
  have hkey : (exactPoint p).1 = (exactPoint q).1 := le_antisymm h (hle hq' hp' hbefore)
  rw [List.map_map] at hdistinct
  rw [List.inj_on_of_nodup_map hdistinct hp hq hkey] at hafter hbefore
  exact hafter hbefore

/-- The search of neighbours compares the rationals that numbers stand for. -/
theorem bracket_exact (hx : x.isFinite = true) (hfinite : ∀ p ∈ points, p.1.isFinite = true) :
    bracket x.exact (points.map exactPoint) =
      (bracket x points).map fun (p, q) => (exactPoint p, exactPoint q) := by
  induction points with
  | nil => rfl
  | cons p rest ih =>
    cases rest with
    | nil => rfl
    | cons q rest =>
      rw [List.forall_mem_cons] at hfinite
      have hp := hfinite.1
      have hq := hfinite.2 q List.mem_cons_self
      have hrest := ih hfinite.2
      simp only [List.map_cons] at hrest ⊢
      simp only [bracket]
      rw [hrest]
      simp only [exactPoint, Number.exact_le_iff hp hx, Number.exact_lt_iff hx hq]
      split <;> rfl

/-- Two points that the search finds are points of the table around the number. -/
theorem mem_of_bracket (h : bracket x points = some (p, q)) :
    p ∈ points ∧ q ∈ points ∧ p.1 ≤ x ∧ x < q.1 := by
  induction points with
  | nil => cases h
  | cons first rest ih =>
    cases rest with
    | nil => cases h
    | cons second rest =>
      rw [bracket] at h
      split at h
      · next hbetween =>
        rcases Prod.mk.inj (Option.some.inj h) with ⟨rfl, rfl⟩
        exact ⟨by simp, by simp, hbetween⟩
      · rcases ih h with ⟨hp, hq, hbetween⟩
        exact ⟨List.mem_cons_of_mem first hp, List.mem_cons_of_mem first hq, hbetween⟩

/-- What a look-up yields among points in any order is what it yields among the rationals. -/
theorem inSorted_exact (hx : x.isFinite = true) (hfinite : ∀ p ∈ points, p.1.isFinite = true)
    (hsteps : ∀ p ∈ points, ∀ q ∈ points, p.1 ≤ x → x < q.1 → ExactSteps x p q) :
    (inSorted interpolate x points).map Number.exact =
      inSorted interpolate x.exact (points.map exactPoint) := by
  have hbracket := bracket_exact hx hfinite
  unfold inSorted
  rw [List.head?_map, List.getLast?_map]
  cases hfirst : points.head? with
  | none => rfl
  | some first =>
  cases hlast : points.getLast? with
  | none => rfl
  | some last =>
  have hfirst' := hfinite first (List.mem_of_head? hfirst)
  have hlast' := hfinite last (List.mem_of_getLast? hlast)
  simp only [Option.map_some, exactPoint, Number.exact_lt_iff hx hfirst',
    Number.exact_le_iff hlast' hx]
  split
  · rw [List.getElem?_map]
    cases points[1]? <;> rfl
  split
  · rfl
  rw [hbracket]
  cases hfound : bracket x points with
  | none => rfl
  | some pair =>
    rcases pair with ⟨p, q⟩
    rcases mem_of_bracket hfound with ⟨hp, hq, hle, hlt⟩
    have hexact := hsteps p hp q hq hle hlt
    cases interpolate with
    | true => exact congrArg some hexact.onLine
    | false => exact congrArg some hexact.nearer

/-- A look-up of numbers differs from the exact one in its last step alone: where no operation on
the points around the number is rounded, it yields the same. -/
theorem lookup_exact {table : List Number} (htable : pairUp? table = some points)
    (hx : x.isFinite = true) (hfinite : ∀ p ∈ points, p.1.isFinite = true)
    (hdistinct : ((points.map exactPoint).map Prod.fst).Nodup)
    (hsteps : ∀ p ∈ points, ∀ q ∈ points, p.1 ≤ x → x < q.1 → ExactSteps x p q) :
    (Func.lookup interpolate x table).map Number.exact =
      value? interpolate x.exact (points.map exactPoint) := by
  rw [Func.lookup, htable, Option.bind_some, value?_eq, ← sorted_exact hfinite hdistinct, inTable]
  refine inSorted_exact hx ?_ ?_
  · intro p hp
    exact hfinite p (List.mem_mergeSort.mp hp)
  · intro p hp q hq
    exact hsteps p (List.mem_mergeSort.mp hp) q (List.mem_mergeSort.mp hq)

end Numbers

/-! ## What a look-up reads -/

section Reading

variable {α : Type} [Field α] [LinearOrder α] [IsStrictOrderedRing α] {points : List (α × α)}

/-- What a look-up yields in a table of points with different keys: it does not depend on the order
in which they are listed; below all keys it is what the second point says; and otherwise it is what
the nearest point says, or what the line through the points does, which goes through all of them. -/
theorem reads_table (htwo : 2 ≤ points.length) (hdistinct : (points.map Prod.fst).Nodup) :
    (∀ others : List (α × α), others.Perm points →
      ∀ interpolate x, value? interpolate x others = value? interpolate x points) ∧
    (∀ x, (∀ p ∈ points, x < p.1) →
      ∃ q, IsSecond points q ∧ ∀ interpolate, value? interpolate x points = some q.2) ∧
    (∀ x, (∃ p ∈ points, p.1 ≤ x) →
      (∃ p, IsNearest points x p ∧ value? false x points = some p.2) ∧
      ∃ y, IsOnPolyline points x y ∧ value? true x points = some y) ∧
    ∀ p ∈ points, value? true p.1 points = some p.2 := by
  refine ⟨?_, fun x => value?_of_lt htwo hdistinct, fun x => value?_of_le hdistinct, ?_⟩
  · intro others hperm interpolate x
    rw [value?_eq, value?_eq, sorted_eq_of_perm hdistinct hperm]
  · intro p hp
    rcases (value?_of_le hdistinct ⟨p, hp, le_rfl⟩).2 with ⟨y, hline, hy⟩
    rw [hy, hline.eq_of_mem hdistinct hp]

theorem reads_table_of_unsorted :
    let points : List (ℚ × ℚ) := [(20, 0), (0, 0), (10, 100)]
    (∀ interpolate x,
      value? interpolate x [(0, 0), (10, 100), (20, 0)] = value? interpolate x points) ∧
    (∃ q, IsSecond points q ∧ ∀ interpolate, value? interpolate (-5) points = some q.2) ∧
    ((∃ p, IsNearest points 15 p ∧ value? false 15 points = some p.2) ∧
      ∃ y, IsOnPolyline points 15 y ∧ value? true 15 points = some y) ∧
    value? true 10 points = some 100 ∧
    ∀ interpolate, (Func.lookup interpolate 15 [20, 0, 0, 0, 10, 100]).map Number.exact =
      value? interpolate 15 points := by
  intro points
  have htwo : 2 ≤ points.length := by decide
  have hdistinct : (points.map Prod.fst).Nodup := by decide +kernel
  rcases reads_table htwo hdistinct with ⟨hperm, hbelow, hfrom, hthrough⟩
  refine ⟨hperm [(0, 0), (10, 100), (20, 0)] (by decide +kernel), hbelow (-5) (by decide +kernel),
    hfrom 15 ⟨(0, 0), by decide +kernel, by decide +kernel⟩, hthrough (10, 100) (by decide +kernel),
    fun interpolate => ?_⟩
  -- the numbers of the table stand for these points, and no step at 15 is rounded
  have hx : (15 : Number).exact = 15 := by decide +kernel
  have hpoints :
      ([(20, 0), (0, 0), (10, 100)] : List (Number × Number)).map exactPoint = points := by
    decide +kernel
  have hleft : ∀ p ∈ ([(20, 0), (0, 0), (10, 100)] : List (Number × Number)),
      p.1 ≤ 15 → p = (0, 0) ∨ p = (10, 100) := by
    decide +kernel
  have hright : ∀ q ∈ ([(20, 0), (0, 0), (10, 100)] : List (Number × Number)),
      15 < q.1 → q = (20, 0) := by
    decide +kernel
  rw [← hx, ← hpoints]
  refine lookup_exact rfl (by decide +kernel) (by decide +kernel) ?_ ?_
  · rwa [hpoints]
  · intro p hp q hq hle hlt
    rcases hright q hq hlt with rfl
    rcases hleft p hp hle with rfl | rfl <;> constructor <;> constructor <;> decide +kernel

/-- Halfway between two keys the larger one counts as nearer. -/
example : value? false (15 : ℚ) [(20, 0), (0, 0), (10, 100)] = some 0 := by cbv

/-- The line is halfway up there. -/
example : value? true (15 : ℚ) [(20, 0), (0, 0), (10, 100)] = some 50 := by cbv

end Reading

end Lookup

end PortLogic
