import Mathlib.Data.List.Forall2
import PortLogic.Proofs.Expr.Reset
import PortLogic.Proofs.Expr.Split
import PortLogic.Proofs.Text

/-!
# PortLogic.Proofs.Expr.Parse — what a successful reading yields

`read_eq_ok` lists the trees that a reading can return, so that no later proof opens `read`, and
`read_induction` is the induction over them. Two things follow for a source that parses: the source
without the blanks around it parses to the same tree (`parse_trim`), and the tree starts with fresh
memories (`parse_reset`).
-/

namespace PortLogic

/-- A sequence of two steps succeeds when both do. -/
theorem bind_eq_ok {ε α β : Type} {x : Except ε α} {f : α → Except ε β} {b : β} :
    (x >>= f) = .ok b ↔ ∃ a, x = .ok a ∧ f a = .ok b := by
  cases x with
  | error err =>
    constructor
    · intro h
      cases h
    · rintro ⟨a, h, -⟩
      cases h
  | ok a =>
    constructor
    · intro h
      exact ⟨a, rfl, h⟩
    · rintro ⟨a', h, hf⟩
      cases h
      exact hf

namespace Expr

variable {owner : String} {room : Nat} {s : Span} {e : Expr}

/-! ## Inversion -/

theorem readLiteral_eq_ok (h : readLiteral s = .ok e) :
    ∃ x : Number, x.isFinite = true ∧ e = .literal x := by
  unfold readLiteral at h
  simp only at h
  split at h
  · exact ⟨1, by decide +kernel, (Except.ok.inj h).symm⟩
  split at h
  · exact ⟨0, by decide +kernel, (Except.ok.inj h).symm⟩
  split at h
  · cases h
  split at h
  · next hread => exact ⟨_, hread.2, (Except.ok.inj h).symm⟩
  · cases h

/-- Characters form an identifier when all are allowed where they stand. -/
theorem invalidAt?_eq_none {id : List Char} (hne : id ≠ []) :
    PortId.invalidAt? id = none ↔ PortId.isValid id = true := by
  cases id with
  | nil => exact absurd rfl hne
  | cons first rest =>
    have hrest : (rest.findIdx? fun c => !PortId.isRest c) = none ↔
        rest.all PortId.isRest = true := by
      simp [List.findIdx?_eq_none_iff]
    unfold PortId.invalidAt? PortId.isValid
    simp only
    rw [Bool.and_eq_true, ← hrest]
    split
    · next hfirst => rw [Option.map_eq_none_iff, and_iff_right hfirst]
    · next hfirst =>
      constructor
      · intro h
        cases h
      · rintro ⟨h, -⟩
        exact absurd h hfirst

theorem readReference_eq_ok (h : readReference owner s = .ok e) :
    ∃ id : String, (id = owner ∨ PortId.isValid id.toList = true) ∧ e = .port id := by
  unfold readReference at h
  simp only at h
  split at h
  · exact ⟨owner, Or.inl rfl, (Except.ok.inj h).symm⟩
  next hne =>
  split at h
  · cases h
  · next hvalid =>
    refine ⟨_, Or.inr ?_, (Except.ok.inj h).symm⟩
    rw [String.toList_ofList]
    exact (invalidAt?_eq_none hne).mp hvalid

/-- A reading returns a finite literal, a reference to the owner or by an identifier, or a fresh
call of arguments that were read. -/
theorem read_eq_ok (h : read owner room s = .ok e) :
    (∃ x : Number, x.isFinite = true ∧ e = .literal x) ∨
      (∃ id : String, (id = owner ∨ PortId.isValid id.toList = true) ∧ e = .port id) ∨
      ∃ inner func spans args, room = inner + 1 ∧
        readArguments (read owner inner) spans = .ok args ∧
        func.arity.accepts args.length = true ∧ e = fresh func args := by
  rw [read.eq_def] at h
  simp only at h
  split at h
  · cases h
  · exact Or.inr (Or.inl (readReference_eq_ok h))
  split at h
  · -- a call is read with less room, so that none is read without any
    rcases bind_eq_ok.mp h with ⟨⟨func, name⟩, -, h⟩
    cases room with
    | zero => cases h
    | succ inner =>
      rcases bind_eq_ok.mp h with ⟨spans, -, h⟩
      rcases bind_eq_ok.mp h with ⟨args, hargs, h⟩
      split at h
      · next harity =>
        exact Or.inr (Or.inr ⟨inner, func, spans, args, rfl, hargs, harity, (Except.ok.inj h).symm⟩)
      · cases h
  · split at h
    · exact Or.inl (readLiteral_eq_ok h)
    · cases h

/-- Reading the arguments of a call is reading each of them, without the blanks around it. -/
theorem readArguments_eq_ok {reader : Span → Except ParseError Expr} {spans : List Span}
    {args : List Expr} :
    readArguments reader spans = .ok args ↔
      List.Forall₂ (fun s e => s.trim.chars ≠ [] ∧ reader s.trim = .ok e) spans args := by
  induction spans generalizing args with
  | nil =>
    rw [readArguments, List.forall₂_nil_left_iff]
    exact ⟨fun h => (Except.ok.inj h).symm, fun h => congrArg _ h.symm⟩
  | cons s rest ih =>
    rw [readArguments, List.forall₂_cons_left_iff]
    constructor
    · intro h
      split at h
      · cases h
      · next hne =>
        rcases bind_eq_ok.mp h with ⟨e, he, h⟩
        rcases bind_eq_ok.mp h with ⟨es, hes, h⟩
        exact ⟨e, es, ⟨hne, he⟩, ih.mp hes, (Except.ok.inj h).symm⟩
    · rintro ⟨e, es, ⟨hne, he⟩, hes, rfl⟩
      rw [if_neg hne]
      exact bind_eq_ok.mpr ⟨e, he, bind_eq_ok.mpr ⟨es, ih.mpr hes, rfl⟩⟩

/-- What holds of literals and references, and of a call when it holds of its arguments, holds of
every tree that is read. -/
theorem read_induction {motive : Nat → Expr → Prop}
    (literal : ∀ room x, x.isFinite = true → motive room (.literal x))
    (port : ∀ room id, id = owner ∨ PortId.isValid id.toList = true → motive room (.port id))
    (call : ∀ room func args, func.arity.accepts args.length = true →
      (∀ e ∈ args, motive room e) → motive (room + 1) (fresh func args))
    (h : read owner room s = .ok e) : motive room e := by
  induction room using Nat.strongRecOn generalizing s e with
  | ind room ih =>
    rcases read_eq_ok h with
      ⟨x, hfinite, rfl⟩ | ⟨id, hid, rfl⟩ | ⟨inner, func, spans, args, rfl, hargs, harity, rfl⟩
    · exact literal room x hfinite
    · exact port room id hid
    · refine call inner func args harity fun arg harg => ?_
      rcases List.forall₂_iff_get.mp (readArguments_eq_ok.mp hargs) with ⟨hlength, hall⟩
      rcases List.mem_iff_getElem.mp harg with ⟨i, hi, rfl⟩
      exact ih inner (Nat.lt_succ_self inner) (hall i (hlength ▸ hi) hi).2

/-! ## Locality -/

end Expr

/-- The error further on in a source. -/
def ParseError.shift (n : Nat) (e : ParseError) : ParseError :=
  { e with position := e.position + n }

namespace Span

/-- The span further on in a source. -/
def shift (n : Nat) (s : Span) : Span :=
  ⟨s.start + n, s.chars⟩

@[simp]
theorem shift_chars (n : Nat) (s : Span) : (s.shift n).chars = s.chars := rfl

@[simp]
theorem shift_start (n : Nat) (s : Span) : (s.shift n).start = s.start + n := rfl

@[simp]
theorem shift_text (n : Nat) (s : Span) : (s.shift n).text = s.text := rfl

theorem shift_stop (n : Nat) (s : Span) : (s.shift n).stop = s.stop + n :=
  Nat.add_right_comm ..

theorem dropWhile_shift (p : Char → Bool) (n : Nat) (s : Span) :
    (s.shift n).dropWhile p = (s.dropWhile p).shift n := by
  simp only [shift, dropWhile, Nat.add_right_comm]

@[simp]
theorem trim_shift (n : Nat) (s : Span) : (s.shift n).trim = s.trim.shift n := by
  unfold trim
  rw [dropWhile_shift]
  rfl

theorem trim_trim_chars (s : Span) : s.trim.trim.chars = s.trim.chars :=
  Text.trimBy_trimBy Text.isAsciiBlank s.chars

theorem ofPieces_shift (n start : Nat) (pieces : List (List Char)) :
    ofPieces (start + n) pieces = (ofPieces start pieces).map (shift n) := by
  induction pieces generalizing start with
  | nil => rfl
  | cons piece pieces ih =>
    have hnext : start + n + Text.byteCount piece + 1 = start + Text.byteCount piece + 1 + n := by
      omega
    rw [ofPieces, ofPieces, hnext, ih]
    rfl

theorem arguments_shift (n start : Nat) (pieces : List (List Char)) :
    arguments (start + n) pieces = (arguments start pieces).map (shift n) := by
  unfold arguments
  split
  · split <;> rfl
  · exact ofPieces_shift n start _

end Span

namespace Expr

variable {owner : String} {room : Nat} {s : Span} {e : Expr}

theorem readLiteral_shift (n : Nat) (s : Span) :
    readLiteral (s.shift n) = (readLiteral s).mapError (ParseError.shift n) := by
  unfold readLiteral
  simp only [Span.shift_chars, Span.shift_start, Span.shift_text, Nat.add_right_comm _ n]
  by_cases htrue : s.chars = ['t', 'r', 'u', 'e']
  · rw [if_pos htrue, if_pos htrue]
    rfl
  rw [if_neg htrue, if_neg htrue]
  by_cases hfalse : s.chars = ['f', 'a', 'l', 's', 'e']
  · rw [if_pos hfalse, if_pos hfalse]
    rfl
  rw [if_neg hfalse, if_neg hfalse]
  cases badDigit? false 0 s.chars with
  | some index => rfl
  | none =>
    simp only
    rw [apply_ite (Except.mapError _)]
    rfl

theorem readReference_shift (owner : String) (n : Nat) (s : Span) :
    readReference owner (s.shift n) = (readReference owner s).mapError (ParseError.shift n) := by
  unfold readReference
  simp only [Span.shift_chars, Span.shift_start, Span.shift_text, Nat.add_right_comm _ n]
  by_cases howner : s.chars.drop 1 = []
  · rw [if_pos howner, if_pos howner]
    rfl
  rw [if_neg howner, if_neg howner]
  cases PortId.invalidAt? (s.chars.drop 1) with
  | some index => rfl
  | none => rfl

theorem readName_shift (n : Nat) (s : Span) :
    readName (s.shift n) =
      ((readName s).map fun (func, name) => (func, name.shift n)).mapError
        (ParseError.shift n) := by
  unfold readName
  simp only [Span.shift_chars, Span.shift_start, Nat.add_right_comm _ n]
  generalize ((s.chars.takeWhile (· ≠ '(')).reverse.dropWhile Text.isAsciiBlank).reverse = name
  by_cases hempty : name = []
  · rw [if_pos hempty, if_pos hempty]
    rfl
  rw [if_neg hempty, if_neg hempty]
  cases badNameChar? name with
  | some index => rfl
  | none =>
    cases Func.ofName? name with
    | none => rfl
    | some func => rfl

theorem readParentheses_shift (n : Nat) (s : Span) :
    readParentheses (s.shift n) =
      ((readParentheses s).map (List.map (Span.shift n))).mapError (ParseError.shift n) := by
  unfold readParentheses
  simp only [Span.shift_chars, Span.shift_start, Span.shift_stop, Nat.add_right_comm _ n]
  cases hsplit : Span.splitArguments 0 ((s.chars.dropWhile (· ≠ '(')).drop 1) with
  | none => rfl
  | some found =>
    rcases found with ⟨pieces, rest⟩
    cases rest with
    | nil =>
      simp only [Span.arguments_shift]
      rfl
    | cons c rest =>
      -- what follows the call is a part of the span, so its start is not before that of the span
      have hle : Text.byteCount (c :: rest) ≤ s.stop := by
        rcases Span.splitArguments_eq_some hsplit with ⟨-, hinner⟩
        have hsuffix : (c :: rest) <:+ s.chars :=
          ((List.suffix_cons _ _).trans ⟨_, hinner.symm⟩).trans
            ((List.drop_suffix 1 _).trans (List.dropWhile_suffix _))
        exact Nat.le_add_left_of_le (Text.byteCount_le_of_suffix hsuffix)
      have hposition : s.stop + n - Text.byteCount (c :: rest) =
          s.stop - Text.byteCount (c :: rest) + n := by
        omega
      simp only [hposition]
      rfl

theorem readArguments_shift {reader : Span → Except ParseError Expr} (n : Nat)
    (hreader : ∀ s, reader (s.shift n) = (reader s).mapError (ParseError.shift n))
    (spans : List Span) :
    readArguments reader (spans.map (Span.shift n)) =
      (readArguments reader spans).mapError (ParseError.shift n) := by
  induction spans with
  | nil => rfl
  | cons s rest ih =>
    rw [List.map_cons, readArguments, readArguments, Span.trim_shift, Span.shift_chars]
    by_cases hempty : s.trim.chars = []
    · rw [if_pos hempty, if_pos hempty]
      rfl
    rw [if_neg hempty, if_neg hempty, hreader, ih]
    cases reader s.trim with
    | error err => rfl
    | ok e =>
      cases readArguments reader rest with
      | error err => rfl
      | ok es => rfl

/-- Reading is local: further on in a source, a span reads as the same tree, or fails as far
further on. -/
theorem read_shift (owner : String) (room n : Nat) (s : Span) :
    read owner room (s.shift n) = (read owner room s).mapError (ParseError.shift n) := by
  -- the room, and not the span, gets smaller from a call to its arguments
  induction room using Nat.strongRecOn generalizing s with
  | ind room ih =>
    rw [read.eq_def, read.eq_def]
    simp only [Span.trim_shift, Span.shift_chars, Span.shift_start]
    generalize s.trim = s
    split
    · rfl
    · exact readReference_shift owner n s
    by_cases hcall : s.chars.contains '(' = true
    · rw [if_pos hcall, if_pos hcall, readName_shift]
      cases readName s with
      | error err => rfl
      | ok named =>
        rcases named with ⟨func, name⟩
        cases room with
        | zero => rfl
        | succ inner =>
          have hargs := readArguments_shift n (ih inner (Nat.lt_succ_self inner))
          rw [readParentheses_shift]
          cases readParentheses s with
          | error err => rfl
          | ok spans =>
            -- a wrong number of arguments is reported at the name, which is further on as well
            show (readArguments (read owner inner) (spans.map (Span.shift n)) >>= fun args =>
                if func.arity.accepts args.length = true then .ok (fresh func args)
                else .error ⟨.invalidArgumentCount, some name.text, name.start + n⟩) =
              (readArguments (read owner inner) spans >>= fun args =>
                if func.arity.accepts args.length = true then .ok (fresh func args)
                else .error ⟨.invalidArgumentCount, some name.text, name.start⟩).mapError
                  (ParseError.shift n)
            rw [hargs]
            cases readArguments (read owner inner) spans with
            | error err => rfl
            | ok args =>
              show (if _ then _ else _) = Except.mapError _ (if _ then _ else _)
              rw [apply_ite (Except.mapError _)]
              rfl
    · rw [if_neg hcall, if_neg hcall, readLiteral_shift, Nat.add_right_comm]
      split
      · rfl
      · rfl

/-- Whether a span can be read depends on the characters between its blanks only. -/
theorem read_of_chars {other : Span} (hchars : s.trim.chars = other.trim.chars)
    (h : read owner room s = .ok e) : read owner room other = .ok e := by
  -- each further on by the start of the other, both spans are trimmed to the same one
  have hsame : (s.shift other.trim.start).trim = (other.shift s.trim.start).trim := by
    rw [Span.trim_shift, Span.trim_shift, Span.shift, Span.shift, hchars, Nat.add_comm]
  have hread : read owner room (s.shift other.trim.start) =
      read owner room (other.shift s.trim.start) := by
    rw [read.eq_def, read.eq_def, hsame]
  rw [read_shift, read_shift, h] at hread
  cases hother : read owner room other with
  | error err =>
    rw [hother] at hread
    cases hread
  | ok tree =>
    rw [hother] at hread
    exact hread.symm

/-! ## Blanks around a source -/

/-- Every character of an identifier may follow in one. -/
theorem isRest_of_isValid {id : List Char} (h : PortId.isValid id = true) {c : Char}
    (hc : c ∈ id) : PortId.isRest c = true := by
  cases id with
  | nil => cases hc
  | cons first rest =>
    rcases Bool.and_eq_true_iff.mp h with ⟨hfirst, hrest⟩
    rcases List.mem_cons.mp hc with rfl | hmem
    · unfold PortId.isFirst at hfirst
      unfold PortId.isRest Char.isAlphanum
      simp only [Bool.or_eq_true] at hfirst ⊢
      rcases hfirst with halpha | hunderscore
      · exact Or.inl (Or.inl (Or.inl (Or.inl halpha)))
      · exact Or.inl (Or.inl (Or.inr hunderscore))
    · exact List.all_eq_true.mp hrest c hmem

theorem isRest_cases {c : Char} (h : PortId.isRest c = true) :
    c.isAlphanum = true ∨ c = '_' ∨ c = '-' ∨ c = '.' := by
  unfold PortId.isRest at h
  simp only [Bool.or_eq_true, decide_eq_true_eq, or_assoc] at h
  exact h

theorem isBlank_of_isRest {c : Char} (h : PortId.isRest c = true) : Text.isBlank c = false := by
  rcases isRest_cases h with halnum | rfl | rfl | rfl
  · exact Text.isBlank_of_isAlphanum halnum
  all_goals decide

/-- The characters of a decimal are not blank. -/
theorem isBlank_of_badDigit? {dot : Bool} {index : Nat} {cs : List Char}
    (h : badDigit? dot index cs = none) {c : Char} (hc : c ∈ cs) : Text.isBlank c = false := by
  induction cs generalizing dot index with
  | nil => cases hc
  | cons d cs ih =>
    rw [badDigit?] at h
    rcases List.mem_cons.mp hc with rfl | hmem
    · split at h
      · next hsign => rcases hsign.1 with rfl | rfl <;> decide
      split at h
      · next hpoint =>
        rw [hpoint.1]
        decide
      split at h
      · next hdigit =>
        apply Text.isBlank_of_isAlphanum
        rw [Char.isAlphanum, hdigit, Bool.or_true]
      · cases h
    · split at h
      · exact ih h hmem
      split at h
      · exact ih h hmem
      split at h
      · exact ih h hmem
      · cases h

theorem isBlank_of_readLiteral (h : readLiteral s = .ok e) {c : Char} (hc : c ∈ s.chars) :
    Text.isBlank c = false := by
  unfold readLiteral at h
  simp only at h
  split at h
  · next htrue =>
    rw [htrue] at hc
    simp only [List.mem_cons, List.not_mem_nil, or_false] at hc
    rcases hc with rfl | rfl | rfl | rfl <;> decide
  split at h
  · next hfalse =>
    rw [hfalse] at hc
    simp only [List.mem_cons, List.not_mem_nil, or_false] at hc
    rcases hc with rfl | rfl | rfl | rfl | rfl <;> decide
  split at h
  · cases h
  · next hdigits => exact isBlank_of_badDigit? hdigits hc

theorem isBlank_of_readReference {rest : List Char} (hchars : s.chars = '$' :: rest)
    (h : readReference owner s = .ok e) {c : Char} (hc : c ∈ s.chars) : Text.isBlank c = false := by
  unfold readReference at h
  rw [hchars, List.drop_succ_cons, List.drop_zero] at h
  rw [hchars] at hc
  rcases List.mem_cons.mp hc with rfl | hmem
  · decide
  simp only at h
  split at h
  · next hempty =>
    rw [hempty] at hmem
    cases hmem
  split at h
  · cases h
  · next hvalid =>
    exact isBlank_of_isRest
      (isRest_of_isValid ((invalidAt?_eq_none (List.ne_nil_of_mem hmem)).mp hvalid) hmem)

theorem readName_head? {named : Func × Span} (h : readName s = .ok named) :
    ∀ c ∈ s.chars.head?, Text.isBlank c = false := by
  unfold readName at h
  simp only at h
  split at h
  · cases h
  next hne =>
  split at h
  · cases h
  next hgood =>
  -- the name is the front part of the span, and its first character is the first of the span
  have hfront := List.takeWhile_append_dropWhile (p := fun c => decide (c ≠ '(')) (l := s.chars)
  generalize s.chars.takeWhile (· ≠ '(') = front at hne hgood hfront
  obtain ⟨back, hback⟩ : (front.reverse.dropWhile Text.isAsciiBlank).reverse <+: front := by
    rw [← List.reverse_suffix, List.reverse_reverse]
    exact List.dropWhile_suffix _
  cases hname : (front.reverse.dropWhile Text.isAsciiBlank).reverse with
  | nil => exact absurd hname hne
  | cons first rest =>
    rw [hname] at hgood hback
    intro c hc
    have hfirst : c = first := by
      rw [← hfront, ← hback] at hc
      exact (Option.some.inj hc).symm
    unfold badNameChar? at hgood
    rw [List.findIdx?_eq_none_iff] at hgood
    have hshown := hgood first List.mem_cons_self
    simp only [Bool.not_eq_false', Bool.or_eq_true, decide_eq_true_eq] at hshown
    rw [hfirst]
    rcases hshown with halnum | rfl
    · exact Text.isBlank_of_isAlphanum halnum
    · decide

theorem readParentheses_getLast? {spans : List Span} (h : readParentheses s = .ok spans) :
    s.chars.getLast? = some ')' := by
  unfold readParentheses at h
  simp only at h
  split at h
  · cases h
  · next pieces hsplit =>
    rcases Span.splitArguments_eq_some hsplit with ⟨-, hinner⟩
    rcases (List.drop_suffix 1 _).trans
      (List.dropWhile_suffix (l := s.chars) fun c => decide (c ≠ '(')) with ⟨front, hfront⟩
    rw [← hfront, hinner, ← List.append_assoc, List.getLast?_concat]
  · cases h

/-- What can be read starts and ends with characters that are not blank. -/
theorem read_ends (h : read owner room s = .ok e) :
    s.trim.chars ≠ [] ∧ (∀ c ∈ s.trim.chars.head?, Text.isBlank c = false) ∧
      ∀ c ∈ s.trim.chars.getLast?, Text.isBlank c = false := by
  rw [read.eq_def] at h
  simp only at h
  generalize s.trim = s at h ⊢
  split at h
  · cases h
  · -- a reference has no blank anywhere
    next rest hchars =>
    refine ⟨by simp [hchars], ?_, ?_⟩
    · intro c hc
      exact isBlank_of_readReference hchars h (List.mem_of_mem_head? hc)
    · intro c hc
      exact isBlank_of_readReference hchars h (List.mem_of_mem_getLast? hc)
  · next hne _ =>
    refine ⟨hne, ?_⟩
    split at h
    · -- a call starts with its name and ends with its parenthesis
      rcases bind_eq_ok.mp h with ⟨named, hname, h⟩
      refine ⟨readName_head? hname, ?_⟩
      cases room with
      | zero => cases h
      | succ inner =>
        rcases bind_eq_ok.mp h with ⟨spans, hspans, -⟩
        rw [readParentheses_getLast? hspans]
        rintro c ⟨⟩
        decide
    · split at h
      · constructor
        · intro c hc
          exact isBlank_of_readLiteral h (List.mem_of_mem_head? hc)
        · intro c hc
          exact isBlank_of_readLiteral h (List.mem_of_mem_getLast? hc)
      · cases h

/-- A span whose ends are not blank is trimmed already. -/
theorem trim_of_ends (hne : s.chars ≠ []) (hhead : ∀ c ∈ s.chars.head?, Text.isBlank c = false)
    (hlast : ∀ c ∈ s.chars.getLast?, Text.isBlank c = false) : s.trim = s := by
  have hstart : s.chars.takeWhile Text.isAsciiBlank = [] := by
    cases hchars : s.chars with
    | nil => rfl
    | cons c cs =>
      rw [hchars] at hhead
      rw [List.takeWhile_cons_of_neg (by simp [Text.isAsciiBlank_eq_false (hhead c rfl)])]
  have hchars : Text.trimBy Text.isAsciiBlank s.chars = s.chars := by
    have h : Text.trimBy Text.isAsciiBlank ([] ++ s.chars ++ []) = s.chars := Text.trimBy_append
      (by simp) (by simp) hne (fun c hc => Text.isAsciiBlank_eq_false (hhead c hc))
      (fun c hc => Text.isAsciiBlank_eq_false (hlast c hc))
    rwa [List.nil_append, List.append_nil] at h
  show Span.mk (s.start + Text.byteCount (s.chars.takeWhile Text.isAsciiBlank))
    (Text.trimBy Text.isAsciiBlank s.chars) = s
  rw [hstart, hchars]
  rfl

/-- A source that parses keeps its tree without the blanks around it. -/
theorem parse_trim {source : String} (h : parse owner source = .ok e) :
    parse owner (Text.trim source) = .ok e := by
  rcases read_ends h with ⟨hne, hhead, hlast⟩
  -- the part between the ASCII blanks is also the part between all blanks
  have htrim : Text.trimBy Text.isBlank source.toList = (Span.ofSource source).trim.chars := by
    obtain ⟨front, back, hsplit, hfront, hback⟩ :=
      Text.exists_trimBy Text.isAsciiBlank source.toList
    conv => lhs; rw [hsplit]
    refine Text.trimBy_append ?_ ?_ hne hhead hlast
    · intro c hc
      exact Text.isBlank_of_isAsciiBlank (hfront c hc)
    · intro c hc
      exact Text.isBlank_of_isAsciiBlank (hback c hc)
  have hsource : Span.ofSource (Text.trim source) = ⟨0, (Span.ofSource source).trim.chars⟩ := by
    rw [← htrim, Span.ofSource, Text.trim, String.toList_ofList]
  refine read_of_chars ?_ h
  rw [hsource, trim_of_ends (s := ⟨0, _⟩) hne hhead hlast]

/-- A source that parses is more than blanks. -/
theorem trim_ne_empty {source : String} (h : parse owner source = .ok e) :
    Text.trim source ≠ "" := by
  rcases read_ends (parse_trim h) with ⟨hne, -, -⟩
  intro hempty
  rw [hempty] at hne
  exact hne rfl

/-! ## Fresh memories -/

theorem resetAll_eq_self {es : List Expr} (h : ∀ e ∈ es, e.reset = e) : resetAll es = es := by
  induction es with
  | nil => rfl
  | cons e es ih =>
    rw [List.forall_mem_cons] at h
    rw [resetAll, h.1, ih h.2]

theorem read_reset (h : read owner room s = .ok e) : e.reset = e := by
  refine read_induction (motive := fun _ e => e.reset = e) ?_ ?_ ?_ h
  · intro room x _
    rfl
  · intro room id _
    rfl
  · intro room func args _ hargs
    rw [reset_fresh, resetAll_eq_self hargs]

/-- A parsed tree starts with fresh memories. -/
theorem parse_reset {source : String} (h : parse owner source = .ok e) : e.reset = e :=
  read_reset h

end Expr

end PortLogic
