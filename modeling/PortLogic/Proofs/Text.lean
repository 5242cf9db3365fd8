import Mathlib.Data.List.DropRight
import Mathlib.Data.List.TakeWhile
import PortLogic.Text.Blank

/-!
# PortLogic.Proofs.Text — trimming

A list is what was trimmed off its front, what is left, and what was trimmed off its end. Every
ASCII blank is blank, and no character that shows itself in ASCII is.
-/

namespace PortLogic

namespace Text

variable {α : Type} {p : α → Bool}

/-- What is trimmed off either end satisfies the predicate. -/
theorem exists_trimBy (p : α → Bool) (xs : List α) :
    ∃ front back, xs = front ++ trimBy p xs ++ back ∧
      (∀ x ∈ front, p x = true) ∧ ∀ x ∈ back, p x = true := by
  let rest := xs.dropWhile p
  refine ⟨xs.takeWhile p, (rest.reverse.takeWhile p).reverse, ?_, ?_, ?_⟩
  · have hback : trimBy p xs ++ (rest.reverse.takeWhile p).reverse = rest := by
      rw [trimBy, ← List.reverse_append, List.takeWhile_append_dropWhile, List.reverse_reverse]
    rw [List.append_assoc, hback, List.takeWhile_append_dropWhile]
  · intro x hx
    exact List.all_eq_true.mp List.all_takeWhile x hx
  · intro x hx
    exact List.all_eq_true.mp List.all_takeWhile x (List.mem_reverse.mp hx)

/-- A part whose ends do not satisfy the predicate is what trimming leaves. -/
theorem trimBy_append {front part back : List α} (hfront : ∀ x ∈ front, p x = true)
    (hback : ∀ x ∈ back, p x = true) (hne : part ≠ [])
    (hhead : ∀ x ∈ part.head?, p x = false) (hlast : ∀ x ∈ part.getLast?, p x = false) :
    trimBy p (front ++ part ++ back) = part := by
  have hdrop {ys zs : List α} (hys : ∀ x ∈ ys, p x = true) (hzs : zs ≠ [])
      (hz : ∀ x ∈ zs.head?, p x = false) : (ys ++ zs).dropWhile p = zs := by
    rw [List.dropWhile_append_of_pos hys]
    cases zs with
    | nil => exact absurd rfl hzs
    | cons z zs => rw [List.dropWhile_cons_of_neg (by simp [hz z rfl])]
  have hrest : (front ++ (part ++ back)).dropWhile p = part ++ back := by
    refine hdrop hfront (by simp [hne]) ?_
    cases part with
    | nil => exact absurd rfl hne
    | cons x part => exact hhead
  have hpart : (back.reverse ++ part.reverse).dropWhile p = part.reverse := by
    refine hdrop ?_ (by simpa using hne) ?_
    · intro x hx
      exact hback x (List.mem_reverse.mp hx)
    · rwa [List.head?_reverse]
  rw [trimBy, List.append_assoc, hrest, List.reverse_append, hpart, List.reverse_reverse]

/-- Trimming leaves nothing to trim. -/
theorem trimBy_trimBy (p : α → Bool) (xs : List α) : trimBy p (trimBy p xs) = trimBy p xs := by
  have htrim (ys : List α) : trimBy p ys = (ys.dropWhile p).rdropWhile p := rfl
  have hstart : (trimBy p xs).dropWhile p = trimBy p xs := by
    rw [List.dropWhile_eq_self_iff]
    intro hpos hfirst
    -- what trimming leaves is a front part of what starts without the predicate
    obtain ⟨back, hback⟩ : trimBy p xs <+: xs.dropWhile p := List.rdropWhile_prefix p _
    have hlt : 0 < (xs.dropWhile p).length := by
      rw [← hback, List.length_append]
      omega
    refine List.dropWhile_get_zero_not p xs hlt ?_
    simp only [← hback, List.get_eq_getElem, List.getElem_append_left hpos]
    exact hfirst
  rw [htrim (trimBy p xs), hstart, htrim, List.rdropWhile_idempotent]

@[simp]
theorem trim_trim (source : String) : trim (trim source) = trim source := by
  unfold trim
  rw [String.toList_ofList, trimBy_trimBy]

/-! ## Blank characters -/

theorem trim_of_isBlankText {source : String} (h : isBlankText source = true) :
    trim source = "" := by
  have hall : source.toList.dropWhile isBlank = [] := by
    rw [List.dropWhile_eq_nil_iff]
    exact List.all_eq_true.mp h
  rw [trim, trimBy, hall]
  rfl

theorem isBlank_of_isAsciiBlank {c : Char} (h : isAsciiBlank c = true) : isBlank c = true := by
  unfold isAsciiBlank at h
  simp only [Bool.or_eq_true, decide_eq_true_eq] at h
  rcases h with (((rfl | rfl) | rfl) | rfl) | rfl <;> decide

theorem isAsciiBlank_eq_false {c : Char} (h : isBlank c = false) : isAsciiBlank c = false := by
  cases hascii : isAsciiBlank c with
  | false => rfl
  | true =>
    rw [isBlank_of_isAsciiBlank hascii] at h
    cases h

/-- The characters from the exclamation mark to the end of ASCII are not blank. -/
theorem isBlank_eq_false {c : Char} (hlow : 0x21 ≤ c.toNat) (hhigh : c.toNat < 0x85) :
    isBlank c = false := by
  unfold isBlank blankRanges
  simp
  omega

/-- Letters and digits stand between the exclamation mark and the end of ASCII. -/
theorem bounds_of_isAlphanum {c : Char} (h : c.isAlphanum = true) :
    0x21 ≤ c.toNat ∧ c.toNat < 128 := by
  have hrange {low high : UInt32} (h : (decide (low ≤ c.val) && decide (c.val ≤ high)) = true) :
      low.toNat ≤ c.toNat ∧ c.toNat ≤ high.toNat := by
    rcases Bool.and_eq_true_iff.mp h with ⟨hlow, hhigh⟩
    exact ⟨of_decide_eq_true hlow, of_decide_eq_true hhigh⟩
  rcases Bool.or_eq_true_iff.mp h with hletter | hdigit
  · rcases Bool.or_eq_true_iff.mp hletter with hupper | hlower
    · have hletters := of_decide_eq_true hupper
      exact ⟨Nat.le_trans (by decide) hletters.1, Nat.lt_of_le_of_lt hletters.2 (by decide)⟩
    · have hletters := hrange hlower
      exact ⟨Nat.le_trans (by decide) hletters.1, Nat.lt_of_le_of_lt hletters.2 (by decide)⟩
  · have hdigits := hrange hdigit
    exact ⟨Nat.le_trans (by decide) hdigits.1, Nat.lt_of_le_of_lt hdigits.2 (by decide)⟩

/-- Letters and digits are not blank. -/
theorem isBlank_of_isAlphanum {c : Char} (h : c.isAlphanum = true) : isBlank c = false := by
  rcases bounds_of_isAlphanum h with ⟨hlow, hhigh⟩
  exact isBlank_eq_false hlow (Nat.lt_trans hhigh (by decide))

/-! ## Lengths in bytes -/

theorem byteCount_le_of_suffix {cs ds : List Char} (h : cs <:+ ds) :
    byteCount cs ≤ byteCount ds := by
  rcases h with ⟨front, rfl⟩
  unfold byteCount
  rw [List.map_append, List.sum_append]
  exact Nat.le_add_left ..

end Text

end PortLogic
