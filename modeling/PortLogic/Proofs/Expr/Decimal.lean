import PortLogic.Expr.Parse
import PortLogic.Proofs.Number.Decimal

/-!
# PortLogic.Proofs.Expr.Decimal — the numbers that a source can hold

A literal is a truth value or a *signed decimal*: a sign or none, and digits with at most one point
among them. The search for a bad character passes over the signed decimals and over nothing else
that holds a digit (`badDigit?_eq_none_iff`), and what a signed decimal denotes does not depend on
how its characters are taken apart. So `readLiteral_eq_ok_iff` lists every literal.
-/

namespace PortLogic

-- powers of naturals are the built-in ones, whatever algebra is in scope
attribute [local instance (2000)] instPowNat

/-- A sign or none, then digits with at most one point among them. -/
structure SignedDecimal where
  sign : List Char
  whole : List Char
  fraction : Option (List Char)
  sign_cases : sign = [] ∨ sign = ['+'] ∨ sign = ['-']
  whole_digits : ∀ c ∈ whole, c.isDigit = true
  fraction_digits : ∀ c ∈ fraction.getD [], c.isDigit = true
  has_digit : whole ++ fraction.getD [] ≠ []

namespace SignedDecimal

/-- The characters of a signed decimal. -/
def chars (d : SignedDecimal) : List Char :=
  d.sign ++ d.whole ++ Decimal.pointed d.fraction

/-- The decimal without its sign. -/
def decimal (d : SignedDecimal) : Decimal :=
  .ofDigits d.whole (d.fraction.getD [])

/-- The number nearest to a signed decimal. -/
def value (d : SignedDecimal) : Number :=
  Number.ofDecimal (decide (d.sign = ['-'])) d.decimal

variable {d : SignedDecimal} {c : Char}

theorem mem_chars (h : c ∈ d.chars) : c = '+' ∨ c = '-' ∨ c = '.' ∨ c.isDigit = true := by
  rcases List.mem_append.mp h with h | hpointed
  · rcases List.mem_append.mp h with hsign | hwhole
    · rcases d.sign_cases with hs | hs | hs
      · rw [hs] at hsign
        cases hsign
      · rw [hs] at hsign
        exact Or.inl (List.mem_singleton.mp hsign)
      · rw [hs] at hsign
        exact Or.inr (Or.inl (List.mem_singleton.mp hsign))
    · exact Or.inr (Or.inr (Or.inr (d.whole_digits c hwhole)))
  · exact Or.inr (Or.inr (Decimal.isDigit_of_mem_pointed d.fraction_digits hpointed))

theorem any_isDigit_chars (d : SignedDecimal) : d.chars.any Char.isDigit = true := by
  rcases List.exists_cons_of_ne_nil d.has_digit with ⟨c, cs, hcs⟩
  have hmem : c ∈ d.whole ++ d.fraction.getD [] := hcs ▸ List.mem_cons_self
  rw [List.any_eq_true]
  rcases List.mem_append.mp hmem with hwhole | hfraction
  · exact ⟨c, List.mem_append_left _ (List.mem_append_right _ hwhole), d.whole_digits c hwhole⟩
  · refine ⟨c, List.mem_append_right _ ?_, d.fraction_digits c hfraction⟩
    cases hopt : d.fraction with
    | none =>
      rw [hopt] at hfraction
      cases hfraction
    | some digits =>
      rw [hopt] at hfraction
      exact List.mem_cons_of_mem _ hfraction

end SignedDecimal

/-! ## The search for a bad character -/

namespace Expr

open Decimal SignedDecimal

/-- Digits do not matter to the search. -/
theorem badDigit?_digits {cs : List Char} (h : ∀ c ∈ cs, c.isDigit = true) (dot : Bool)
    (index : Nat) (rest : List Char) :
    badDigit? dot index (cs ++ rest) = badDigit? dot (index + cs.length) rest := by
  induction cs generalizing index with
  | nil => rfl
  | cons c cs ih =>
    have hdigit : c.isDigit = true := h c List.mem_cons_self
    have hsign : ¬((c = '+' ∨ c = '-') ∧ index = 0) := by
      rintro ⟨rfl | rfl, -⟩
      · cases hdigit
      · cases hdigit
    have hpoint : ¬(c = '.' ∧ dot = false) := by
      rintro ⟨rfl, -⟩
      cases hdigit
    rw [List.cons_append, badDigit?, if_neg hsign, if_neg hpoint, if_pos hdigit,
      ih (fun d hd => h d (List.mem_cons_of_mem c hd)), List.length_cons]
    congr 1
    omega

/-- After the point only digits are left. -/
theorem isDigit_of_badDigit?_true {index : Nat} {cs : List Char}
    (h : badDigit? true (index + 1) cs = none) : ∀ c ∈ cs, c.isDigit = true := by
  induction cs generalizing index with
  | nil => simp
  | cons c cs ih =>
    rw [badDigit?, if_neg (by omega), if_neg (by simp)] at h
    split at h
    · next hdigit => exact List.forall_mem_cons.mpr ⟨hdigit, ih h⟩
    · cases h

/-- What is no sign are digits, and a point with digits when there is one. -/
theorem exists_pointed_of_badDigit? {index : Nat} {cs : List Char}
    (hsign : ∀ c ∈ cs.head?, ¬((c = '+' ∨ c = '-') ∧ index = 0))
    (h : badDigit? false index cs = none) :
    ∃ whole fraction, cs = whole ++ pointed fraction ∧ (∀ c ∈ whole, c.isDigit = true) ∧
      ∀ c ∈ fraction.getD [], c.isDigit = true := by
  induction cs generalizing index with
  | nil => exact ⟨[], none, rfl, by simp, by simp⟩
  | cons c cs ih =>
    rw [badDigit?, if_neg (hsign c rfl)] at h
    split at h
    · next hpoint =>
      refine ⟨[], some cs, ?_, by simp, isDigit_of_badDigit?_true h⟩
      rw [hpoint.1]
      rfl
    split at h
    · next hdigit =>
      rcases ih (by simp) h with ⟨whole, fraction, rfl, hwhole, hfraction⟩
      exact ⟨c :: whole, fraction, rfl, List.forall_mem_cons.mpr ⟨hdigit, hwhole⟩, hfraction⟩
    · cases h

theorem exists_parts_of_badDigit? {cs : List Char} (h : badDigit? false 0 cs = none) :
    ∃ sign whole fraction, cs = sign ++ whole ++ pointed fraction ∧
      (sign = [] ∨ sign = ['+'] ∨ sign = ['-']) ∧ (∀ c ∈ whole, c.isDigit = true) ∧
      ∀ c ∈ fraction.getD [], c.isDigit = true := by
  cases cs with
  | nil => exact ⟨[], [], none, rfl, Or.inl rfl, by simp, by simp⟩
  | cons c rest =>
    by_cases hsign : c = '+' ∨ c = '-'
    · rw [badDigit?, if_pos ⟨hsign, rfl⟩] at h
      rcases exists_pointed_of_badDigit? (by simp) h with ⟨whole, fraction, rfl, hdigits⟩
      refine ⟨[c], whole, fraction, rfl, Or.inr ?_, hdigits⟩
      rcases hsign with rfl | rfl
      · exact Or.inl rfl
      · exact Or.inr rfl
    · have hfirst : ∀ d ∈ (c :: rest).head?, ¬((d = '+' ∨ d = '-') ∧ 0 = 0) := by
        rintro d ⟨⟩ ⟨h, -⟩
        exact hsign h
      rcases exists_pointed_of_badDigit? hfirst h with ⟨whole, fraction, hcs, hdigits⟩
      exact ⟨[], whole, fraction, hcs, Or.inl rfl, hdigits⟩

/-- The search passes over digits with at most one point among them. -/
theorem badDigit?_pointed {whole : List Char} {fraction : Option (List Char)}
    (hwhole : ∀ c ∈ whole, c.isDigit = true) (hfraction : ∀ c ∈ fraction.getD [], c.isDigit = true)
    (index : Nat) : badDigit? false index (whole ++ pointed fraction) = none := by
  rw [badDigit?_digits hwhole]
  cases fraction with
  | none => rfl
  | some digits =>
    have hall : ∀ c ∈ digits, c.isDigit = true := hfraction
    show badDigit? false (index + whole.length) ('.' :: digits) = none
    rw [badDigit?, if_neg (by simp), if_pos ⟨rfl, rfl⟩, ← List.append_nil digits,
      badDigit?_digits hall]
    rfl

theorem badDigit?_chars (d : SignedDecimal) : badDigit? false 0 d.chars = none := by
  have hrest (index : Nat) := badDigit?_pointed d.whole_digits d.fraction_digits index
  unfold SignedDecimal.chars
  rw [List.append_assoc]
  rcases d.sign_cases with hs | hs | hs
  · rw [hs]
    exact hrest 0
  · rw [hs]
    exact hrest 1
  · rw [hs]
    exact hrest 1

/-- What holds a digit and no bad character is a signed decimal. -/
theorem badDigit?_eq_none_iff {cs : List Char} :
    badDigit? false 0 cs = none ∧ cs.any Char.isDigit = true ↔
      ∃ d : SignedDecimal, cs = d.chars := by
  constructor
  · rintro ⟨h, hany⟩
    rcases exists_parts_of_badDigit? h with ⟨sign, whole, fraction, rfl, hsign, hwhole, hfraction⟩
    refine ⟨⟨sign, whole, fraction, hsign, hwhole, hfraction, ?_⟩, rfl⟩
    -- a digit stands neither in the sign nor in the point
    intro hempty
    rcases List.append_eq_nil_iff.mp hempty with ⟨rfl, hnone⟩
    have hnot : (sign ++ [] ++ pointed fraction).any Char.isDigit = false := by
      have hpoint : (pointed fraction).any Char.isDigit = false := by
        cases fraction with
        | none => rfl
        | some digits =>
          rw [show digits = [] from hnone]
          rfl
      rw [List.append_nil, List.any_append, hpoint, Bool.or_false]
      rcases hsign with rfl | rfl | rfl
      all_goals rfl
    rw [hnot] at hany
    cases hany
  · rintro ⟨d, rfl⟩
    exact ⟨badDigit?_chars d, d.any_isDigit_chars⟩

/-! ## Literals -/

theorem decimalOf_chars (d : SignedDecimal) : decimalOf d.chars = d.decimal := by
  have hsign : d.sign.filter Char.isDigit = [] := by
    rcases d.sign_cases with hs | hs | hs
    all_goals
      rw [hs]
      rfl
  have hdigits : d.chars.filter Char.isDigit = d.whole ++ d.fraction.getD [] := by
    have hkept := List.filter_eq_self.mpr d.fraction_digits
    unfold SignedDecimal.chars pointed
    rw [List.filter_append, List.filter_append, hsign, List.filter_eq_self.mpr d.whole_digits,
      List.nil_append]
    cases hopt : d.fraction with
    | none => rfl
    | some digits =>
      rw [hopt] at hkept
      show d.whole ++ ('.' :: digits).filter Char.isDigit = d.whole ++ digits
      rw [List.filter_cons_of_neg (by decide), show digits.filter Char.isDigit = digits from hkept]
  have hpoint : (d.chars.dropWhile (· ≠ '.')).drop 1 = d.fraction.getD [] := by
    have hfront : ∀ c ∈ d.sign ++ d.whole, decide (c ≠ '.') = true := by
      intro c hc
      rw [decide_eq_true_iff]
      rintro rfl
      rcases List.mem_append.mp hc with hmem | hdigit
      · rcases d.sign_cases with hs | hs | hs
        all_goals
          rw [hs] at hmem
          simp at hmem
      · cases d.whole_digits _ hdigit
    unfold SignedDecimal.chars pointed
    rw [List.dropWhile_append_of_pos hfront]
    cases d.fraction with
    | none => rfl
    | some digits => rfl
  unfold decimalOf SignedDecimal.decimal ofDigits
  rw [hdigits, hpoint, Nat.ofDigitChars_eq_foldl]

/-- The first character of a signed decimal tells whether it is negative. -/
theorem head?_chars (d : SignedDecimal) : d.chars.head? = some '-' ↔ d.sign = ['-'] := by
  constructor
  · intro h
    rcases d.sign_cases with hs | hs | hs
    · -- without a sign the first character is a digit or the point
      have hmem : '-' ∈ d.whole ++ pointed d.fraction := by
        have hhead := List.mem_of_mem_head? h
        unfold SignedDecimal.chars at hhead
        rwa [hs, List.nil_append] at hhead
      rcases List.mem_append.mp hmem with hwhole | hpointed
      · cases d.whole_digits _ hwhole
      · rcases Decimal.isDigit_of_mem_pointed d.fraction_digits hpointed with hc | hc
        all_goals cases hc
    · unfold SignedDecimal.chars at h
      rw [hs] at h
      cases h
    · exact hs
  · intro hs
    unfold SignedDecimal.chars
    rw [hs]
    rfl

/-- Taken apart again, the characters denote the value. -/
theorem ofDecimal_chars (d : SignedDecimal) :
    Number.ofDecimal (decide (d.chars.head? = some '-')) (decimalOf d.chars) = d.value := by
  rw [decimalOf_chars, decide_eq_decide.mpr (head?_chars d)]
  rfl

variable {s : Span} {e : Expr}

/-- The words for the truth values are no signed decimals. -/
theorem not_mem_chars {d : SignedDecimal} {letter : Char} (h : letter = 't' ∨ letter = 'f') :
    letter ∉ d.chars := by
  intro hmem
  rcases mem_chars hmem with rfl | rfl | rfl | hdigit
  · simp at h
  · simp at h
  · simp at h
  · rcases h with rfl | rfl
    · cases hdigit
    · cases hdigit

theorem readLiteral_chars (d : SignedDecimal) (start : Nat) (hfinite : d.value.isFinite = true) :
    readLiteral ⟨start, d.chars⟩ = .ok (.literal d.value) := by
  have htrue : d.chars ≠ ['t', 'r', 'u', 'e'] := by
    intro h
    exact not_mem_chars (d := d) (Or.inl rfl) (h ▸ List.mem_cons_self)
  have hfalse : d.chars ≠ ['f', 'a', 'l', 's', 'e'] := by
    intro h
    exact not_mem_chars (d := d) (Or.inr rfl) (h ▸ List.mem_cons_self)
  unfold readLiteral
  simp only
  rw [if_neg htrue, if_neg hfalse, badDigit?_chars]
  simp only
  rw [ofDecimal_chars, if_pos ⟨d.any_isDigit_chars, hfinite⟩]

/-- A literal is a truth value or a signed decimal near a finite number. -/
theorem readLiteral_eq_ok_iff :
    readLiteral s = .ok e ↔
      (s.chars = "true".toList ∧ e = .literal 1) ∨ (s.chars = "false".toList ∧ e = .literal 0) ∨
        ∃ d : SignedDecimal, s.chars = d.chars ∧ d.value.isFinite = true ∧
          e = .literal d.value := by
  constructor
  · intro h
    unfold readLiteral at h
    simp only at h
    split at h
    · next htrue => exact Or.inl ⟨htrue, (Except.ok.inj h).symm⟩
    split at h
    · next hfalse => exact Or.inr (Or.inl ⟨hfalse, (Except.ok.inj h).symm⟩)
    split at h
    · cases h
    next hgood =>
    split at h
    · next hvalue =>
      rcases badDigit?_eq_none_iff.mp ⟨hgood, hvalue.1⟩ with ⟨d, hchars⟩
      rw [hchars, ofDecimal_chars] at h hvalue
      exact Or.inr (Or.inr ⟨d, hchars, hvalue.2, (Except.ok.inj h).symm⟩)
    · cases h
  · rcases s with ⟨start, cs⟩
    rintro (⟨hcs, rfl⟩ | ⟨hcs, rfl⟩ | ⟨d, hcs, hfinite, rfl⟩)
    · have hcs : cs = "true".toList := hcs
      subst hcs
      rfl
    · have hcs : cs = "false".toList := hcs
      subst hcs
      rfl
    · have hcs : cs = d.chars := hcs
      subst hcs
      exact readLiteral_chars d start hfinite

end Expr

end PortLogic
