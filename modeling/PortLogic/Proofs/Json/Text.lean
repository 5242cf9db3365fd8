import PortLogic.Json.Print
import PortLogic.Proofs.Json.Grammar

/-!
# PortLogic.Proofs.Json.Text — texts in quotes

The plain reader takes a spelling apart into characters and units and joins these to the characters
that are spelled (`Spells.readText`). The plain writer spells every character as itself, with an
escape letter, or as a unit when it is another control character (`spells_escape`).
-/

namespace PortLogic

namespace Json

/-! ## Reading -/

/-- A part before the parts that are read from the rest. -/
def consPart (part : TextPart) (found : List TextPart × List Char) : List TextPart × List Char :=
  (part :: found.1, found.2)

variable {c e : Char}

theorem readTextParts_letter (h : escapedChar? e = some c) (hu : e ≠ 'u') (cs : List Char) :
    readTextParts ('\\' :: e :: cs) = (readTextParts cs).map (consPart (.char c)) := by
  rw [readTextParts.eq_def]
  split
  · next hnil => cases hnil
  · next hquote => cases hquote
  · next hunit =>
    cases hunit
    exact absurd rfl hu
  · next hescape =>
    cases hescape
    rw [h, Option.map_eq_bind]
    rfl
  · next hnot hplain =>
    cases hplain
    exact (hnot _ _ rfl rfl).elim

theorem readTextParts_unit {n : Nat} {a b c d : Char} (h : unitOf? a b c d = some n)
    (cs : List Char) :
    readTextParts ('\\' :: 'u' :: a :: b :: c :: d :: cs) =
      (readTextParts cs).map (consPart (.unit n)) := by
  rw [readTextParts, h, Option.map_eq_bind]
  rfl

theorem readTextParts_plain (hquote : c ≠ '"') (hslash : c ≠ '\\') (hlow : ¬c.toNat < 32)
    (cs : List Char) : readTextParts (c :: cs) = (readTextParts cs).map (consPart (.char c)) := by
  rw [readTextParts.eq_def]
  split
  · next hnil => cases hnil
  · next h =>
    cases h
    exact absurd rfl hquote
  · next h =>
    cases h
    exact absurd rfl hslash
  · next h =>
    cases h
    exact absurd rfl hslash
  · next h =>
    cases h
    rw [if_neg hlow, Option.map_eq_bind]
    rfl

/-- A unit that is no surrogate joins as the character with that code. -/
theorem joinParts_unit {n : Nat} (hn : n < 0xd800 ∨ 0xe000 ≤ n) (parts : List TextPart) :
    joinParts (.unit n :: parts) = (joinParts parts).map (Char.ofNat n :: ·) := by
  rw [joinParts.eq_def]
  split
  · next h => cases h
  · next h => cases h
  · next h =>
    cases h
    rw [if_neg (by omega), if_neg (by omega)]
  · next h =>
    cases h
    rw [if_neg (by omega)]

/-- A high surrogate joins with the low one after it. -/
theorem joinParts_pair {high low : Nat} (hhigh : 0xd800 ≤ high ∧ high < 0xdc00)
    (hlow : 0xdc00 ≤ low ∧ low < 0xe000) (parts : List TextPart) :
    joinParts (.unit high :: .unit low :: parts) =
      (joinParts parts).map (pairedChar high low :: ·) := by
  rw [joinParts, if_pos hhigh, if_pos hlow]

/-- A spelling is read up to the closing quote, in parts that join to the characters spelled. -/
theorem Spells.exists_parts {cs s : List Char} (h : Spells cs s) (rest : List Char) :
    ∃ parts, readTextParts (cs ++ '"' :: rest) = some (parts, rest) ∧ joinParts parts = some s := by
  induction h with
  | nil => exact ⟨[], rfl, rfl⟩
  | @plain c _ _ hquote hslash hlow _ ih =>
    rcases ih with ⟨parts, hread, hjoin⟩
    refine ⟨.char c :: parts, ?_, ?_⟩
    · rw [List.cons_append, readTextParts_plain hquote hslash hlow, hread]
      rfl
    · rw [joinParts, hjoin]
      rfl
  | @letter e c _ _ hletter _ ih =>
    rcases ih with ⟨parts, hread, hjoin⟩
    have hu : e ≠ 'u' := by
      rintro rfl
      cases hletter
    refine ⟨.char c :: parts, ?_, ?_⟩
    · rw [List.cons_append, List.cons_append, readTextParts_letter hletter hu, hread]
      rfl
    · rw [joinParts, hjoin]
      rfl
  | @unit _ _ _ _ n _ _ hunit hn _ ih =>
    rcases ih with ⟨parts, hread, hjoin⟩
    refine ⟨.unit n :: parts, ?_, ?_⟩
    · simp only [List.cons_append]
      rw [readTextParts_unit hunit, hread]
      rfl
    · rw [joinParts_unit hn, hjoin]
      rfl
  | @pair _ _ _ _ _ _ _ _ high low _ _ hunit hunit' hhigh hlow _ ih =>
    rcases ih with ⟨parts, hread, hjoin⟩
    refine ⟨.unit high :: .unit low :: parts, ?_, ?_⟩
    · simp only [List.cons_append]
      rw [readTextParts_unit hunit, readTextParts_unit hunit', hread]
      rfl
    · rw [joinParts_pair hhigh hlow, hjoin]
      rfl

/-- A spelling is read as the characters spelled. -/
theorem Spells.readText {cs s : List Char} (h : Spells cs s) (rest : List Char) :
    Json.readText (cs ++ '"' :: rest) = some (some (String.ofList s), rest) := by
  rcases h.exists_parts rest with ⟨parts, hread, hjoin⟩
  rw [Json.readText, hread, Option.map_some]
  simp only
  rw [hjoin, Option.map_some]

/-! ## Writing -/

/-- A control character is written with two hexadecimal digits that denote it. -/
theorem exists_hexByte : ∀ n < 32, ∃ a b, hexByte n = [a, b] ∧ unitOf? '0' '0' a b = some n := by
  have hbyte : ∀ n < 32, ((hexByte n).map fun _ => ()) = [(), ()] ∧
      unitOf? '0' '0' ((hexByte n).getD 0 ' ') ((hexByte n).getD 1 ' ') = some n := by
    decide +kernel
  intro n hn
  rcases hbyte n hn with ⟨hlength, hunit⟩
  match hdigits : hexByte n with
  | [a, b] =>
    rw [hdigits] at hunit
    exact ⟨a, b, rfl, hunit⟩
  | [] | [_] | _ :: _ :: _ :: _ =>
    rw [hdigits] at hlength
    simp at hlength

/-- The way a character is written spells it. -/
theorem Spells.escapeChar {cs s : List Char} (h : Spells cs s) (c : Char) :
    Spells (Json.escapeChar c ++ cs) (c :: s) := by
  unfold Json.escapeChar
  -- the characters with an escape letter of their own
  iterate 7
    split
    · next hc =>
      subst hc
      exact .letter rfl h
  split
  · next hlow =>
    rcases exists_hexByte c.toNat hlow with ⟨a, b, hbyte, hunit⟩
    have hspells := Spells.unit hunit (Or.inl (by omega)) h
    rw [Char.ofNat_toNat] at hspells
    rw [hbyte]
    exact hspells
  · next hquote hslash _ _ _ _ _ hlow => exact .plain hquote hslash hlow h

/-- The way characters are written spells them. -/
theorem spells_escape (s : List Char) : Spells (s.flatMap escapeChar) s := by
  induction s with
  | nil => exact .nil
  | cons c s ih =>
    rw [List.flatMap_cons]
    exact ih.escapeChar c

end Json

end PortLogic
