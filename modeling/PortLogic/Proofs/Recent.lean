/-!
# PortLogic.Proofs.Recent — the end of a history

Memories and filters are bounded: of all that they have taken they keep the last few. This module
relates what is kept to the whole history, while it grows at its end (`lastOf_append_singleton`) and
while what has expired is taken from its front. What expires is a prefix when whatever is before an
expired element has expired as well, and then it is told apart by filtering (`Descends`).
-/

namespace PortLogic

variable {α : Type}

/-- The last elements of a list, at most so many. -/
def lastOf (count : Nat) (xs : List α) : List α :=
  xs.drop (xs.length - count)

@[simp]
theorem lastOf_nil (count : Nat) : lastOf count ([] : List α) = [] :=
  List.drop_nil

theorem lastOf_length (count : Nat) (xs : List α) :
    (lastOf count xs).length = min count xs.length := by
  unfold lastOf
  rw [List.length_drop]
  omega

theorem lastOf_length_le (count : Nat) (xs : List α) : (lastOf count xs).length ≤ count := by
  rw [lastOf_length]
  exact Nat.min_le_left _ _

theorem lastOf_of_length_le {count : Nat} {xs : List α} (h : xs.length ≤ count) :
    lastOf count xs = xs := by
  unfold lastOf
  rw [Nat.sub_eq_zero_of_le h, List.drop_zero]

theorem lastOf_sublist (count : Nat) (xs : List α) : (lastOf count xs).Sublist xs :=
  List.drop_sublist _ _

/-- Further elements can be added to the last ones as well as to all of them. -/
theorem lastOf_append_singleton (count : Nat) (xs : List α) (x : α) :
    lastOf count (lastOf count xs ++ [x]) = lastOf count (xs ++ [x]) := by
  unfold lastOf
  rw [← List.drop_append_of_le_length (Nat.sub_le xs.length count), List.drop_drop]
  congr 1
  simp only [List.length_drop, List.length_append, List.length_singleton]
  omega

/-- A list that is full makes room for a further element by losing its first one. -/
theorem lastOf_append_singleton_of_le {count : Nat} {xs : List α} (hcount : 0 < count)
    (h : xs.length ≤ count) (x : α) :
    lastOf count (xs ++ [x]) = (if xs.length = count then xs.drop 1 else xs) ++ [x] := by
  unfold lastOf
  rw [List.length_append, List.length_singleton]
  split
  · next hfull =>
    rw [hfull, Nat.add_sub_cancel_left, List.drop_append_of_le_length (by omega)]
  · next hroom => rw [Nat.sub_eq_zero_of_le (by omega), List.drop_zero]

/-! ## Expiry -/

/-- Whatever stands before an element with a property has the property too. -/
abbrev Descends (p : α → Bool) (xs : List α) : Prop :=
  xs.Pairwise fun x y => p y = true → p x = true

variable {p : α → Bool} {xs : List α}

/-- No element has the property once one has it not. -/
theorem Descends.of_head {x : α} (h : Descends p (x :: xs)) (hx : p x = false) :
    ∀ y ∈ x :: xs, p y = false := by
  intro y hy
  rcases List.mem_cons.mp hy with rfl | hmem
  · exact hx
  · rw [← Bool.not_eq_true]
    intro hp
    rw [(List.pairwise_cons.mp h).1 y hmem hp] at hx
    cases hx

/-- Elements without the property are all kept. -/
theorem filter_not_eq_self (h : ∀ x ∈ xs, p x = false) : (xs.filter fun x => !p x) = xs := by
  rw [List.filter_eq_self]
  intro x hx
  rw [h x hx]
  rfl

theorem filter_not_cons {x : α} (hx : p x = true) :
    ((x :: xs).filter fun x => !p x) = xs.filter fun x => !p x := by
  simp only [List.filter_cons, hx, Bool.not_true, Bool.false_eq_true, if_false]

theorem Descends.takeWhile_eq (h : Descends p xs) : xs.takeWhile p = xs.filter p := by
  induction xs with
  | nil => rfl
  | cons x xs ih =>
    cases hx : p x with
    | true =>
      rw [List.takeWhile_cons_of_pos hx, List.filter_cons_of_pos hx,
        ih (List.pairwise_cons.mp h).2]
    | false =>
      have hnone : (x :: xs).filter p = [] := by
        rw [List.filter_eq_nil_iff]
        intro y hy
        rw [h.of_head hx y hy]
        exact Bool.false_ne_true
      rw [hnone, List.takeWhile_cons_of_neg (by rw [hx]; exact Bool.false_ne_true)]

theorem Descends.dropWhile_eq (h : Descends p xs) :
    xs.dropWhile p = xs.filter fun x => !p x := by
  induction xs with
  | nil => rfl
  | cons x xs ih =>
    cases hx : p x with
    | true =>
      rw [List.dropWhile_cons_of_pos hx, filter_not_cons hx, ih (List.pairwise_cons.mp h).2]
    | false =>
      rw [filter_not_eq_self (h.of_head hx),
        List.dropWhile_cons_of_neg (by rw [hx]; exact Bool.false_ne_true)]

/-- What has not expired of the last elements are the last elements of what has not expired. -/
theorem Descends.filter_lastOf (h : Descends p xs) (count : Nat) :
    ((lastOf count xs).filter fun x => !p x) = lastOf count (xs.filter fun x => !p x) := by
  induction xs with
  | nil => rw [lastOf_nil, List.filter_nil, lastOf_nil]
  | cons x xs ih =>
    cases hx : p x with
    | false =>
      have hall := h.of_head hx
      rw [filter_not_eq_self hall, filter_not_eq_self]
      intro y hy
      exact hall y ((lastOf_sublist count _).subset hy)
    | true =>
      rw [filter_not_cons hx, ← ih (List.pairwise_cons.mp h).2]
      by_cases hfits : (x :: xs).length ≤ count
      · -- all elements are among the last ones, the first one too
        have hrest : xs.length ≤ count := Nat.le_of_succ_le hfits
        rw [lastOf_of_length_le hfits, lastOf_of_length_le hrest, filter_not_cons hx]
      · have hskip : lastOf count (x :: xs) = lastOf count xs := by
          unfold lastOf
          rw [List.length_cons] at hfits ⊢
          rw [Nat.succ_sub (by omega), List.drop_succ_cons]
        rw [hskip]

/-- The last element of an ascending list is not below any other. -/
theorem le_getLast?_of_mem {xs : List Nat} (h : xs.Pairwise (· < ·)) {x : Nat} (hx : x ∈ xs) :
    ∃ latest, xs.getLast? = some latest ∧ x ≤ latest := by
  rcases List.eq_nil_or_concat xs with rfl | ⟨front, latest, rfl⟩
  · cases hx
  rw [List.concat_eq_append] at h hx ⊢
  refine ⟨latest, List.getLast?_concat, ?_⟩
  rcases List.mem_append.mp hx with hfront | hlast
  · exact Nat.le_of_lt ((List.pairwise_append.mp h).2.2 x hfront latest List.mem_cons_self)
  · exact Nat.le_of_eq (List.mem_singleton.mp hlast)

end PortLogic
