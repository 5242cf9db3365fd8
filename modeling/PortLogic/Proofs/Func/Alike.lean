import Mathlib.Data.List.Forall2
import PortLogic.Func.Apply
import PortLogic.Proofs.Number.Alike

/-!
# PortLogic.Proofs.Func.Alike — functions do not see the sign of zero

A function without memory that does not read the time takes alike arguments to alike values. The
look-ups sort their tables by a total order in which the zeros differ, so the first parts of their
points have to be the same (`keys`).
-/

namespace PortLogic

/-- Values with alike numbers: both are undefined, or neither is. -/
abbrev Value.Alike (v w : Value) : Prop :=
  Option.Rel Number.Alike v w

/-- The elements of a list at the even places. -/
def keys {α : Type} : List α → List α
  | [] => []
  | [x] => [x]
  | x :: _ :: rest => x :: keys rest

open List (Forall₂)

/-! ## Values -/

namespace Value

variable {u v w : Value}

theorem Alike.refl (v : Value) : Alike v v := by
  cases v with
  | none => exact Option.Rel.none
  | some x => exact Option.Rel.some (Number.Alike.refl x)

theorem Alike.symm (h : Alike v w) : Alike w v := by
  cases h with
  | none => exact Option.Rel.none
  | some h => exact Option.Rel.some h.symm

theorem Alike.trans (h : Alike u v) (h' : Alike v w) : Alike u w := by
  cases h with
  | none => exact h'
  | some hx =>
    cases h' with
    | some hy => exact Option.Rel.some (hx.trans hy)

theorem Alike.isSome (h : Alike v w) : v.isSome = w.isSome := by
  cases h <;> rfl

/-- What takes alike numbers to alike values can be applied to alike values. -/
theorem Alike.bind {f : Number → Value} (hf : ∀ {x y}, Number.Alike x y → Alike (f x) (f y))
    (h : Alike v w) : Alike (v.bind f) (w.bind f) := by
  cases h with
  | none => exact Option.Rel.none
  | some h => exact hf h

theorem Alike.or {x y : Value} (h : Alike v w) (hxy : Alike x y) : Alike (v.or x) (w.or y) := by
  cases h with
  | none => exact hxy
  | some h => exact Option.Rel.some h

/-- Values that compare equal are alike. -/
theorem alike_of_beq (h : (v == w) = true) : Alike v w := by
  cases v with
  | none =>
    cases w with
    | none => exact Option.Rel.none
    | some y => cases h
  | some x =>
    cases w with
    | none => cases h
    | some y => exact Option.Rel.some (Number.alike_of_beq h)

/-- A value that is like a finite number compares equal to it. -/
theorem Alike.beq {x : Number} (h : Alike v (some x)) (hfinite : x.isFinite = true) :
    (v == some x) = true := by
  cases h with
  | some h => exact h.beq (h.isFinite.trans hfinite)

end Value

theorem Number.Alike.finite? {x y : Number} (h : Alike x y) :
    Value.Alike (Number.finite? x) (Number.finite? y) := by
  unfold Number.finite?
  rw [h.isFinite]
  split
  · exact Option.Rel.some h
  · exact Option.Rel.none

/-! ## Tables of points -/

namespace Lookup

/-- The same first part, and alike second parts. -/
def AlikePoint (p q : Number × Number) : Prop :=
  p.1 = q.1 ∧ Number.Alike p.2 q.2

variable {x y : Number} {ps qs : List (Number × Number)} {interpolate : Bool}

theorem AlikePoint.nearer {p q p' q' : Number × Number} (hx : Number.Alike x y)
    (hp : AlikePoint p p') (hq : AlikePoint q q') :
    Number.Alike (nearer x p q) (nearer y p' q') := by
  have hcloser : x - p.1 < q.1 - x ↔ y - p'.1 < q'.1 - y := by
    rw [hp.1, hq.1]
    exact Number.lt_iff_congr (hx.sub (Number.Alike.refl _)) ((Number.Alike.refl _).sub hx)
  unfold Lookup.nearer
  by_cases h : x - p.1 < q.1 - x
  · rw [if_pos h, if_pos (hcloser.mp h)]
    exact hp.2
  · rw [if_neg h, if_neg (mt hcloser.mpr h)]
    exact hq.2

theorem AlikePoint.onLine {p q p' q' : Number × Number} (hx : Number.Alike x y)
    (hp : AlikePoint p p') (hq : AlikePoint q q') :
    Number.Alike (onLine x p q) (onLine y p' q') := by
  unfold Lookup.onLine
  rw [hp.1, hq.1]
  exact hp.2.add (((hx.sub (Number.Alike.refl _)).mul (hq.2.sub hp.2)).div _)

theorem bracket_alike (hx : Number.Alike x y) (h : Forall₂ AlikePoint ps qs) :
    Option.Rel (fun a b => AlikePoint a.1 b.1 ∧ AlikePoint a.2 b.2) (bracket x ps)
      (bracket y qs) := by
  induction h with
  | nil => exact Option.Rel.none
  | cons hp hrest ih =>
    cases hrest with
    | nil => exact Option.Rel.none
    | cons hq hrest =>
      simp only [bracket, hp.1, hq.1, Number.le_iff_congr (Number.Alike.refl _) hx,
        Number.lt_iff_congr hx (Number.Alike.refl _)]
      split
      · exact Option.Rel.some ⟨hp, hq⟩
      · exact ih

/-- Lists that are alike stay so when they are sorted by what is the same in them. -/
theorem forall₂_mergeSort {α : Type} {R : α → α → Prop} {before : α → α → Bool} {l m : List α}
    (hbefore : ∀ a b c d, R a b → R c d → before a c = before b d) (h : Forall₂ R l m) :
    Forall₂ R (l.mergeSort before) (m.mergeSort before) := by
  -- both lists are read off one list of pairs, which is sorted once
  have hlength := h.length_eq
  have hpairs : ∀ pair ∈ l.zip m, R pair.1 pair.2 := fun _ hmem => List.forall₂_zip h hmem
  have hl : (l.zip m).map Prod.fst = l := List.map_fst_zip (by omega)
  have hm : (l.zip m).map Prod.snd = m := List.map_snd_zip (by omega)
  have hsortl := List.map_mergeSort (r := fun a b => before a.1 b.1) (s := before) (f := Prod.fst)
    (l := l.zip m) fun _ _ _ _ => rfl
  have hsortm := List.map_mergeSort (r := fun a b => before a.1 b.1) (s := before) (f := Prod.snd)
    (l := l.zip m) fun a ha b hb => hbefore _ _ _ _ (hpairs a ha) (hpairs b hb)
  rw [hl] at hsortl
  rw [hm] at hsortm
  rw [← hsortl, ← hsortm, List.forall₂_map_left_iff, List.forall₂_map_right_iff,
    List.forall₂_same]
  intro pair hmem
  exact hpairs pair (List.mem_mergeSort.mp hmem)

theorem getElem?_rel {α : Type} {R : α → α → Prop} {l m : List α} (h : Forall₂ R l m) (i : Nat) :
    Option.Rel R l[i]? m[i]? := by
  induction h generalizing i with
  | nil => exact Option.Rel.none
  | cons hab _ ih =>
    cases i with
    | zero => exact Option.Rel.some hab
    | succ i => exact ih i

theorem inSorted_alike (hx : Number.Alike x y) (h : Forall₂ AlikePoint ps qs) :
    Value.Alike (inSorted interpolate x ps) (inSorted interpolate y qs) := by
  have hfirst := getElem?_rel h 0
  have hlast := getElem?_rel h (ps.length - 1)
  have hsecond := getElem?_rel h 1
  have hbracket := bracket_alike hx h
  unfold inSorted
  rw [List.head?_eq_getElem?, List.head?_eq_getElem?, List.getLast?_eq_getElem?,
    List.getLast?_eq_getElem?, ← h.length_eq]
  generalize ps[0]? = a, qs[0]? = b at hfirst
  cases hfirst with
  | none => exact Option.Rel.none
  | some hfirst =>
  generalize ps[ps.length - 1]? = a, qs[ps.length - 1]? = b at hlast
  cases hlast with
  | none => exact Option.Rel.none
  | some hlast =>
  simp only [hfirst.1, hlast.1, Number.lt_iff_congr hx (Number.Alike.refl _),
    Number.le_iff_congr (Number.Alike.refl _) hx]
  split
  · generalize ps[1]? = a, qs[1]? = b at hsecond
    cases hsecond with
    | none => exact Option.Rel.none
    | some hsecond => exact Option.Rel.some hsecond.2
  split
  · exact Option.Rel.some hlast.2
  · generalize bracket x ps = a, bracket y qs = b at hbracket
    cases hbracket with
    | none => exact Option.Rel.none
    | some hpoints =>
      refine Option.Rel.some ?_
      simp only
      split
      · exact hpoints.1.onLine hx hpoints.2
      · exact hpoints.1.nearer hx hpoints.2

theorem pairUp?_alike {xs ys : List Number} (h : Forall₂ Number.Alike xs ys)
    (hkeys : keys xs = keys ys) :
    Option.Rel (Forall₂ AlikePoint) (pairUp? xs) (pairUp? ys) := by
  induction xs using pairUp?.induct generalizing ys with
  | case1 =>
    cases h with
    | nil => exact Option.Rel.some Forall₂.nil
  | case2 x =>
    cases h with
    | cons _ hrest =>
      cases hrest with
      | nil => exact Option.Rel.none
  | case3 key value rest ih =>
    cases h with
    | cons _ hrest =>
    cases hrest with
    | @cons _ _ _ others hvalue hrest =>
    rcases List.cons.inj hkeys with ⟨hkey, hkeys⟩
    have hpairs := ih hrest hkeys
    simp only [pairUp?]
    generalize pairUp? rest = a, pairUp? others = b at hpairs
    cases hpairs with
    | none => exact Option.Rel.none
    | some hpairs => exact Option.Rel.some (Forall₂.cons ⟨hkey, hvalue⟩ hpairs)

/-- A look-up is alike in tables with the same first parts. -/
theorem lookup_alike {xs ys : List Number} (hx : Number.Alike x y)
    (h : Forall₂ Number.Alike xs ys) (hkeys : keys xs = keys ys) :
    Value.Alike (Func.lookup interpolate x xs) (Func.lookup interpolate y ys) := by
  have hpairs := pairUp?_alike h hkeys
  unfold Func.lookup
  generalize pairUp? xs = a, pairUp? ys = b at hpairs
  cases hpairs with
  | none => exact Option.Rel.none
  | some hpoints =>
    refine inSorted_alike hx (forall₂_mergeSort ?_ hpoints)
    intro a b c d hab hcd
    rw [hab.1, hcd.1]

-- the first parts have to be the same, since sorting tells the zeros apart
example : ((0 : Number) == -0, (0 : Number).totalLe (-0)) = (true, false) := by decide +kernel

end Lookup

/-! ## Folds -/

namespace Number

variable {xs ys : List Number}

theorem foldl_alike {f : Number → Number → Number} {x y : Number}
    (hf : ∀ {a b c d}, Alike a b → Alike c d → Alike (f a c) (f b d)) (hx : Alike x y)
    (h : Forall₂ Alike xs ys) : Alike (xs.foldl f x) (ys.foldl f y) := by
  induction h generalizing x y with
  | nil => exact hx
  | cons hab _ ih => exact ih (hf hx hab)

theorem sum_alike (h : Forall₂ Alike xs ys) : Alike (sum xs) (sum ys) :=
  foldl_alike Alike.add (Alike.refl _) h

theorem product_alike (h : Forall₂ Alike xs ys) : Alike (product xs) (product ys) :=
  foldl_alike Alike.mul (Alike.refl _) h

theorem mean_alike (h : Forall₂ Alike xs ys) : Alike (mean xs) (mean ys) := by
  unfold mean
  rw [h.length_eq]
  exact (sum_alike h).div _

theorem map_isTrue (h : Forall₂ Alike xs ys) : xs.map isTrue = ys.map isTrue := by
  induction h with
  | nil => rfl
  | cons hab _ ih => rw [List.map_cons, List.map_cons, hab.isTrue, ih]

end Number

/-! ## Functions -/

namespace Func

/-- A function without memory that does not read the time. -/
def IsPlain (f : Func) : Prop :=
  Memory.initial f = .none ∧ f.readsSecond = false ∧ f.readsMillisecond = false

instance (f : Func) : Decidable f.IsPlain :=
  inferInstanceAs (Decidable (_ ∧ _))

/-- Whether the function looks numbers up in a table. -/
def looksUp : Func → Bool
  | lut | lutLi => true
  | _ => false

/-- What is left of two values when only finite numbers are values is alike. -/
def Settles (v w : Value) : Prop :=
  Value.Alike (v.bind Number.finite?) (w.bind Number.finite?)

variable {f : Func} {xs ys : List Number} {now now' : Now}

theorem settles_of_alike {v w : Value} (h : Value.Alike v w) : Settles v w :=
  h.bind Number.Alike.finite?

/-- A function with a fixed number of arguments yields nothing for another number of them. -/
theorem compute?_of_length [Power] {n : Nat} (harity : f.arity = .exactly n)
    (hlength : xs.length ≠ n) : f.compute? xs now = none := by
  cases f <;> cases harity <;>
    rcases xs with _ | ⟨x, _ | ⟨y, _ | ⟨z, _ | ⟨u, rest⟩⟩⟩⟩ <;>
    first
    | rfl
    | exact absurd rfl hlength

theorem unary_alike [Power] (harity : f.arity = .exactly 1) (h : Forall₂ Number.Alike xs ys)
    (hone : ∀ {x y}, Number.Alike x y →
      Option.Rel Settles (f.compute? [x] now) (f.compute? [y] now')) :
    Option.Rel Settles (f.compute? xs now) (f.compute? ys now') := by
  by_cases hlength : xs.length = 1
  · rcases List.length_eq_one_iff.mp hlength with ⟨x, rfl⟩
    rcases h with _ | ⟨hx, _ | _⟩
    exact hone hx
  · rw [compute?_of_length harity hlength, compute?_of_length harity (h.length_eq ▸ hlength)]
    exact Option.Rel.none

theorem binary_alike [Power] (harity : f.arity = .exactly 2) (h : Forall₂ Number.Alike xs ys)
    (htwo : ∀ {x y x' y'}, Number.Alike x x' → Number.Alike y y' →
      Option.Rel Settles (f.compute? [x, y] now) (f.compute? [x', y'] now')) :
    Option.Rel Settles (f.compute? xs now) (f.compute? ys now') := by
  by_cases hlength : xs.length = 2
  · rcases List.length_eq_two.mp hlength with ⟨x, y, rfl⟩
    rcases h with _ | ⟨hx, _ | ⟨hy, _ | _⟩⟩
    exact htwo hx hy
  · rw [compute?_of_length harity hlength, compute?_of_length harity (h.length_eq ▸ hlength)]
    exact Option.Rel.none

theorem ternary_alike [Power] (harity : f.arity = .exactly 3) (h : Forall₂ Number.Alike xs ys)
    (hthree : ∀ {x y z x' y' z'}, Number.Alike x x' → Number.Alike y y' → Number.Alike z z' →
      Option.Rel Settles (f.compute? [x, y, z] now) (f.compute? [x', y', z'] now')) :
    Option.Rel Settles (f.compute? xs now) (f.compute? ys now') := by
  by_cases hlength : xs.length = 3
  · rcases List.length_eq_three.mp hlength with ⟨x, y, z, rfl⟩
    rcases h with _ | ⟨hx, _ | ⟨hy, _ | ⟨hz, _ | _⟩⟩⟩
    exact hthree hx hy hz
  · rw [compute?_of_length harity hlength, compute?_of_length harity (h.length_eq ▸ hlength)]
    exact Option.Rel.none

/-- The results of a function that yields a number. -/
theorem some_alike {x y : Number} (h : Number.Alike x y) :
    Option.Rel Settles (some (some x)) (some (some y)) :=
  Option.Rel.some h.finite?

theorem some_refl (v : Value) : Option.Rel Settles (some v) (some v) :=
  Option.Rel.some (settles_of_alike (Value.Alike.refl v))

/-- A function without memory that does not read the time does not see the sign of zero, but for
that of the keys of a table. -/
theorem compute?_alike [Power] [LawfulPower] (hplain : f.IsPlain) (h : Forall₂ Number.Alike xs ys)
    (hkeys : f.looksUp = true → keys (xs.drop 1) = keys (ys.drop 1)) :
    Option.Rel Settles (f.compute? xs now) (f.compute? ys now') := by
  have hbools := Number.map_isTrue h
  have hones := Number.Alike.refl
  cases f with
  | add => exact some_alike (Number.sum_alike h)
  | mul => exact some_alike (Number.product_alike h)
  | avg => exact some_alike (Number.mean_alike h)
  | and =>
    have hall := congrArg (List.all · id) hbools
    simp only [List.all_map, Function.comp_def, id_eq] at hall
    simp only [compute?, hall]
    exact some_refl _
  | or =>
    have hany := congrArg (List.any · id) hbools
    simp only [List.any_map, Function.comp_def, id_eq] at hany
    simp only [compute?, hany]
    exact some_refl _
  | min =>
    cases h with
    | nil => exact Option.Rel.none
    | cons hx hrest => exact some_alike (Number.foldl_alike Number.Alike.min hx hrest)
  | max =>
    cases h with
    | nil => exact Option.Rel.none
    | cons hx hrest => exact some_alike (Number.foldl_alike Number.Alike.max hx hrest)
  | lut =>
    cases h with
    | nil => exact Option.Rel.none
    | cons hx hrest =>
      exact Option.Rel.some (settles_of_alike (Lookup.lookup_alike hx hrest (hkeys rfl)))
  | lutLi =>
    cases h with
    | nil => exact Option.Rel.none
    | cons hx hrest =>
      exact Option.Rel.some (settles_of_alike (Lookup.lookup_alike hx hrest (hkeys rfl)))
  | sub => exact binary_alike rfl h fun hx hy => some_alike (hx.sub hy)
  | div =>
    refine binary_alike rfl h fun hx hy => ?_
    simp only [compute?, ← Number.beq_congr hy (hones 0)]
    split
    · exact some_refl _
    · next hne =>
      rw [← hy.eq_of_ne_zero (by simpa using hne)]
      exact some_alike (hx.div _)
  | mod =>
    refine binary_alike rfl h fun hx hy => ?_
    simp only [compute?, ← Number.beq_congr hy (hones 0)]
    split
    · exact some_refl _
    · next hne =>
      rw [← hy.eq_of_ne_zero (by simpa using hne)]
      exact some_alike (hx.mod _)
  | pow =>
    refine binary_alike rfl h fun hx hy => ?_
    rcases hx.pow hy with halike | ⟨hleft, hright⟩
    · exact some_alike halike
    · refine Option.Rel.some ?_
      show Value.Alike (Number.finite? _) (Number.finite? _)
      rw [Number.finite?, Number.finite?, hleft, hright]
      exact Option.Rel.none
  | not =>
    refine unary_alike rfl h fun hx => ?_
    simp only [compute?, hx.isTrue]
    exact some_refl _
  | xor =>
    refine binary_alike rfl h fun hx hy => ?_
    simp only [compute?, hx.isTrue, hy.isTrue]
    exact some_refl _
  | bitAnd | bitOr | bitXor =>
    refine binary_alike rfl h fun hx hy => ?_
    simp only [compute?, bitwise, hx.toInt64, hy.toInt64]
    exact some_refl _
  | bitNot =>
    refine unary_alike rfl h fun hx => ?_
    simp only [compute?, hx.toInt64]
    exact some_refl _
  | shl | shr =>
    refine binary_alike rfl h fun hx hy => ?_
    simp only [compute?, shift, hx.toInt64, hy.toNatWithin, Number.lt_iff_congr hy (hones 0)]
    exact some_refl _
  | select =>
    refine ternary_alike rfl h fun hx hy hz => ?_
    simp only [compute?, hx.isTrue]
    split
    · exact some_alike hy
    · exact some_alike hz
  | eq =>
    refine binary_alike rfl h fun hx hy => ?_
    simp only [compute?, Number.beq_congr hx hy]
    exact some_refl _
  | gt =>
    refine binary_alike rfl h fun hx hy => ?_
    simp only [compute?, Number.lt_iff_congr hy hx]
    exact some_refl _
  | gte =>
    refine binary_alike rfl h fun hx hy => ?_
    simp only [compute?, Number.le_iff_congr hy hx]
    exact some_refl _
  | lt =>
    refine binary_alike rfl h fun hx hy => ?_
    simp only [compute?, Number.lt_iff_congr hx hy]
    exact some_refl _
  | lte =>
    refine binary_alike rfl h fun hx hy => ?_
    simp only [compute?, Number.le_iff_congr hx hy]
    exact some_refl _
  | abs =>
    refine unary_alike rfl h fun hx => ?_
    simp only [compute?, hx.abs]
    exact some_refl _
  | sgn =>
    refine unary_alike rfl h fun hx => ?_
    simp only [compute?, Number.lt_iff_congr hx (hones 0), Number.lt_iff_congr (hones 0) hx]
    exact some_refl _
  | floor => exact unary_alike rfl h fun hx => some_alike hx.floor
  | ceil => exact unary_alike rfl h fun hx => some_alike hx.ceil
  | round =>
    rcases h with _ | ⟨hx, _ | ⟨hplaces, _ | _⟩⟩
    · exact Option.Rel.none
    · exact some_alike hx.roundHalfAway
    · simp only [compute?, hplaces.toIntWithin]
      exact some_alike ((hx.mul (hones _)).roundHalfAway.div _)
    · exact Option.Rel.none
  | available => exact unary_alike rfl h fun _ => Option.Rel.none
  | default => exact binary_alike rfl h fun _ _ => Option.Rel.none
  | _ => exact absurd hplain (by decide)

/-! ## Runs -/

/-- A computation sees no more of the time than its function reads. -/
theorem compute?_congr_now [Power] (hsecond : f.readsSecond = true → now.second = now'.second)
    (hmillisecond : f.readsMillisecond = true → now = now') :
    f.compute? xs now = f.compute? xs now' := by
  cases f with
  | time =>
    cases xs with
    | nil => exact congrArg (fun second => some (second.map Number.ofNat)) (hsecond rfl)
    | cons x rest => rfl
  | timeMs => rw [hmillisecond rfl]
  | _ => rcases xs with _ | ⟨x, _ | ⟨y, _ | ⟨z, _ | ⟨u, rest⟩⟩⟩⟩ <;> rfl

/-- A step with a memory sees the time when its function reads the milliseconds. -/
theorem step?_congr_now (hmillisecond : f.readsMillisecond = true → now = now') (m : Memory) :
    m.step? now.uptime f xs = m.step? now'.uptime f xs := by
  cases hreads : f.readsMillisecond with
  | true => rw [hmillisecond hreads]
  | false =>
    unfold Memory.step?
    split <;> first | rfl | cases hreads

/-- A run sees no more of the time than its function reads. -/
theorem run_congr_now [Power] (hsecond : f.readsSecond = true → now.second = now'.second)
    (hmillisecond : f.readsMillisecond = true → now = now') (m : Memory) :
    f.run xs m now = f.run xs m now' := by
  unfold run run?
  rw [compute?_congr_now hsecond hmillisecond, step?_congr_now hmillisecond]

/-- A function without memory takes no step with one. -/
theorem step?_of_stateless (hnone : Memory.initial f = .none) (memory : Memory) (uptime : Nat) :
    memory.step? uptime f xs = none := by
  unfold Memory.step?
  split <;> first | rfl | exact absurd hnone (by decide)

/-- A run of a function without memory leaves whatever memory there is alone. -/
theorem run_of_stateless [Power] (hnone : Memory.initial f = .none) (memory : Memory) :
    (f.run xs memory now).2 = memory := by
  unfold run run?
  cases f.compute? xs now with
  | some value => rfl
  | none =>
    simp only
    rw [step?_of_stateless hnone]

/-- A plain function computes a value and leaves the memory alone. -/
theorem run_of_plain [Power] (hplain : f.IsPlain) (memory : Memory) :
    f.run xs memory now = ((f.compute? xs now).bind fun value => value.bind Number.finite?,
      memory) := by
  unfold run run?
  cases f.compute? xs now with
  | some value => rfl
  | none =>
    simp only
    rw [step?_of_stateless hplain.1]
    rfl

theorem run_alike [Power] [LawfulPower] (hplain : f.IsPlain) (h : Forall₂ Number.Alike xs ys)
    (hkeys : f.looksUp = true → keys (xs.drop 1) = keys (ys.drop 1)) (m m' : Memory) :
    Value.Alike (f.run xs m now).1 (f.run ys m' now').1 := by
  have hcompute : Option.Rel Settles (f.compute? xs now) (f.compute? ys now') :=
    compute?_alike hplain h hkeys
  rw [run_of_plain hplain, run_of_plain hplain]
  generalize f.compute? xs now = a, f.compute? ys now' = b at hcompute
  cases hcompute with
  | none => exact Option.Rel.none
  | some hsettles => exact hsettles

theorem tolerate?_alike {vs ws : List Value} (h : Forall₂ Value.Alike vs ws) :
    Value.Alike ((f.tolerate? vs).getD none) ((f.tolerate? ws).getD none) := by
  have hfinite {v w : Value} (hv : Value.Alike v w) := hv.bind Number.Alike.finite?
  cases f with
  | available =>
    rcases h with _ | ⟨hx, _ | _⟩
    · exact Option.Rel.none
    · simp only [tolerate?, (hfinite hx).isSome]
      exact Value.Alike.refl _
    · exact Option.Rel.none
  | default =>
    rcases h with _ | ⟨hx, _ | ⟨hy, _ | _⟩⟩
    · exact Option.Rel.none
    · exact Option.Rel.none
    · simp only [tolerate?, Option.getD_some]
      exact (hfinite hx).or (hfinite hy)
    · exact Option.Rel.none
  | _ => exact Option.Rel.none

end Func

end PortLogic
