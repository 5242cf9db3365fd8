import PortLogic.Proofs.Expr.Decimal
import PortLogic.Proofs.Number.Alike
import PortLogic.Proofs.Number.Whole

/-!
# PortLogic.Proofs.Expr.Literal — numbers written and read back

The text of a finite number is a numeral with a minus sign or none, which is one of the decimals
that a source can hold. The decimal that a number is written as reads back as that number, so that
the text of a number denotes the number itself (`Number.exists_signed`). Only the sign of zero gets
lost (`Number.written`).
-/

namespace PortLogic

-- powers of naturals are the built-in ones, whatever algebra is in scope
attribute [local instance (2000)] instPowNat

/-- A numeral with a sign is one of the decimals that a source can hold. -/
def Numeral.signed (n : Numeral) (negative : Bool) : SignedDecimal where
  sign := if negative then ['-'] else []
  whole := n.whole
  fraction := n.fraction
  sign_cases := by cases negative <;> simp
  whole_digits := n.whole_digits
  fraction_digits := n.fraction_digits
  has_digit := List.append_ne_nil_of_left_ne_nil n.whole_ne_nil _

theorem Numeral.signed_chars (n : Numeral) (negative : Bool) :
    (n.signed negative).chars = (if negative then ['-'] else []) ++ n.chars :=
  List.append_assoc ..

theorem Numeral.signed_value (n : Numeral) (negative : Bool) :
    (n.signed negative).value = Number.ofDecimal negative n.decimal := by
  have hsign : decide ((n.signed negative).sign = ['-']) = negative := by
    cases negative <;> rfl
  rw [SignedDecimal.value, hsign]
  rfl

namespace Number

/-- The number that its text denotes: zero is written without a sign. -/
def written (x : Number) : Number :=
  if x == 0 then 0 else x

variable {x : Number}

theorem written_isFinite (h : x.isFinite = true) : x.written.isFinite = true := by
  unfold written
  split
  · exact isFinite_ofNat (Nat.zero_le _)
  · exact h

theorem Alike.isWhole {y : Number} (h : Alike x y) : x.isWhole = y.isWhole :=
  h.congr fun _ _ _ _ => rfl

theorem Alike.sourceText {y : Number} (h : Alike x y) (hshort : x.isWhole = true ∧
    x.abs < ofNat (10 ^ (15 : Nat))) : y.sourceText = x.sourceText := by
  unfold Number.sourceText wholePart
  rw [← h.isWhole, ← h.abs, h.units, if_pos hshort, if_pos hshort]

/-- Zero is written as an integer. -/
theorem zero_short : (0 : Number).isWhole = true ∧ (0 : Number).abs < ofNat (10 ^ (15 : Nat)) := by
  decide +kernel

/-- The text of a number does not tell the sign of zero. -/
theorem sourceText_written (x : Number) : x.written.sourceText = x.sourceText := by
  unfold written
  split
  · next hzero => exact ((alike_of_beq hzero).symm.sourceText zero_short).symm
  · rfl

/-- The whole part of a whole number is the number. -/
theorem ofDecimal_wholePart {negative : Bool} {m : Magnitude}
    (hwhole : (finite negative m).isWhole = true) :
    ofDecimal ((finite negative m).wholePart < 0) ⟨(finite negative m).wholePart.natAbs, 0⟩ =
      (finite negative m).written := by
  have hpos : 0 < Magnitude.unitsPerOne := Nat.two_pow_pos _
  have hdvd : Magnitude.unitsPerOne ∣ m.units := Nat.dvd_of_mod_eq_zero (of_decide_eq_true hwhole)
  have hnatAbs : (finite negative m).wholePart.natAbs = m.units / Magnitude.unitsPerOne := by
    rw [wholePart_finite]
    cases negative with
    | true => rw [if_pos rfl, Int.natAbs_neg, Int.natAbs_natCast]
    | false => rw [if_neg Bool.false_ne_true, Int.natAbs_natCast]
  have hread (sign : Bool) :
      ofDecimal sign ⟨(finite negative m).wholePart.natAbs, 0⟩ = .finite sign m := by
    unfold ofDecimal
    rw [hnatAbs, show Int.toNat 0 = 0 from rfl, show (-(0 : Int)).toNat = 0 from rfl, Nat.pow_zero,
      Nat.mul_one, Nat.div_mul_cancel hdvd, round_units]
  rw [hread, written]
  by_cases hzero : m.units = 0
  · rw [if_pos (finite_beq_zero.mpr hzero), zero_eq hzero, wholePart_finite, hzero, Nat.zero_div]
    cases negative <;> rfl
  · have hquotient : 0 < m.units / Magnitude.unitsPerOne :=
      Nat.div_pos (Nat.le_of_dvd (by omega) hdvd) hpos
    rw [if_neg (by rwa [finite_beq_zero]), wholePart_finite]
    generalize m.units / Magnitude.unitsPerOne = quotient at hquotient
    have hsign : decide ((if negative then -(quotient : Int) else quotient) < 0) = negative := by
      cases negative with
      | true => exact decide_eq_true (by rw [if_pos rfl]; omega)
      | false => exact decide_eq_false (by rw [if_neg Bool.false_ne_true]; omega)
    rw [hsign]

/-- The text of a finite number is one of the decimals that a source can hold, and what it denotes
is the number. -/
theorem exists_signed (h : x.isFinite = true) :
    ∃ d : SignedDecimal, x.sourceText.toList = d.chars ∧ d.value = x.written := by
  cases x with
  | nan => cases h
  | infinite => cases h
  | finite negative m =>
  unfold sourceText
  split
  · next hshort =>
    generalize hpart : (finite negative m).wholePart = i
    have hdenotes := ofDecimal_wholePart hshort.1
    rw [hpart] at hdenotes
    let n : Numeral := ⟨Nat.toDigits 10 i.natAbs, none,
      fun c hc => Nat.isDigit_of_mem_toDigits (by decide) (by decide) hc, Nat.toDigits_ne_nil,
      by simp, by simp⟩
    have hdecimal : n.decimal = ⟨i.natAbs, 0⟩ := by
      show Decimal.ofDigits (Nat.toDigits 10 i.natAbs) [] = _
      rw [Decimal.ofDigits, List.append_nil, Nat.ofDigitChars_toDigits (by decide) (by decide)]
      rfl
    refine ⟨n.signed (i < 0), ?_, ?_⟩
    · rw [n.signed_chars, integerText, String.toList_ofList]
      show _ = _ ++ (Nat.toDigits 10 i.natAbs ++ [])
      rw [List.append_nil]
      simp
    · rw [n.signed_value, hdecimal, hdenotes]
  · next hlong =>
    -- zero is short, so this is another number
    have hne : ¬(finite negative m == 0) = true := by
      intro hzero
      have halike := alike_of_beq hzero
      refine hlong ?_
      rw [halike.isWhole, halike.abs]
      exact zero_short
    obtain ⟨n, hchars, -, -, hdenotes⟩ := (m.shortest .up).exists_numeral
    have hback := of_decide_eq_true (m.readsBack_shortest .up)
    refine ⟨n.signed negative, ?_, ?_⟩
    · rw [n.signed_chars, hchars, plainText, String.toList_ofList]
      unfold NumberStyle.text NumberStyle.magnitudeText NumberStyle.plain
      simp
    · rw [n.signed_value, hdenotes, ofDecimal_sign hback, written, if_neg hne]

end Number

end PortLogic
