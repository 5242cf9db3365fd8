import PortLogic.Expr.Parse

/-!
# PortLogic.Proofs.Expr.Split — arguments between commas

A list of arguments is split at the commas outside inner parentheses. The pieces with commas put
between them are the characters that were split (`splitArguments_eq_some`). Conversely items are
split where commas were put between them (`splitArguments_intercalate`), when each of them is
balanced and keeps its commas inside its parentheses. What such an item is made of can be told for
any part of it: a splitting passes over the part, whatever follows (`Passes`).
-/

namespace PortLogic

namespace Span

@[simp]
theorem ofPieces_chars (start : Nat) (pieces : List (List Char)) :
    (ofPieces start pieces).map chars = pieces := by
  induction pieces generalizing start with
  | nil => rfl
  | cons piece pieces ih => rw [ofPieces, List.map_cons, ih]

/-! ## Up to a parenthesis -/

/-- A span with an opening parenthesis is what stands before the first one, and what follows it. -/
theorem exists_open {s : Span} (h : s.chars.contains '(' = true) :
    ∃ front rest, s.chars = front ++ '(' :: rest ∧ '(' ∉ front :=
  List.eq_append_cons_of_mem (List.contains_iff_mem.mp h)

theorem takeWhile_open {front rest : List Char} (hfront : '(' ∉ front) :
    (front ++ '(' :: rest).takeWhile (fun c => decide (c ≠ '(')) = front := by
  rw [List.takeWhile_append_of_pos, List.takeWhile_cons_of_neg (by decide), List.append_nil]
  intro c hc
  exact decide_eq_true fun heq => hfront (heq ▸ hc)

theorem dropWhile_open {front rest : List Char} (hfront : '(' ∉ front) :
    (front ++ '(' :: rest).dropWhile (fun c => decide (c ≠ '(')) = '(' :: rest := by
  rw [List.dropWhile_append_of_pos, List.dropWhile_cons_of_neg (by decide)]
  intro c hc
  exact decide_eq_true fun heq => hfront (heq ▸ hc)

/-! ## What is split -/

/-- The pieces, with commas between them, stand before the closing parenthesis, and what follows
after it. -/
theorem splitArguments_eq_some {depth : Nat} {cs rest : List Char} {pieces : List (List Char)}
    (h : splitArguments depth cs = some (pieces, rest)) :
    pieces ≠ [] ∧ cs = [','].intercalate pieces ++ ')' :: rest := by
  induction cs generalizing depth pieces rest with
  | nil => cases h
  | cons c cs ih =>
    -- every branch but the ones of the closing parenthesis and of a comma outside keeps the
    -- character in the first piece
    have hkeep {depth : Nat} {keep : List (List Char) × List Char → List (List Char) × List Char}
        (hkept : ∀ piece more rest, keep (piece :: more, rest) = ((c :: piece) :: more, rest))
        (h : (splitArguments depth cs).map keep = some (pieces, rest)) :
        pieces ≠ [] ∧ c :: cs = [','].intercalate pieces ++ ')' :: rest := by
      rcases Option.map_eq_some_iff.mp h with ⟨⟨found, after⟩, hfound, heq⟩
      rcases ih hfound with ⟨hne, hcs⟩
      rcases List.exists_cons_of_ne_nil hne with ⟨piece, more, rfl⟩
      rw [hkept] at heq
      cases heq
      refine ⟨List.cons_ne_nil _ _, ?_⟩
      rw [hcs]
      cases more with
      | nil => rfl
      | cons next more => rfl
    rw [splitArguments] at h
    simp only at h
    split at h
    · exact hkeep (fun _ _ _ => rfl) h
    split at h
    · next hclose =>
      split at h
      · rcases Prod.mk.inj (Option.some.inj h) with ⟨rfl, rfl⟩
        exact ⟨List.cons_ne_nil _ _, by rw [hclose]; rfl⟩
      · exact hkeep (fun _ _ _ => rfl) h
    split at h
    · next hcomma =>
      rcases Option.map_eq_some_iff.mp h with ⟨⟨found, after⟩, hfound, heq⟩
      rcases ih hfound with ⟨hne, hcs⟩
      rcases List.exists_cons_of_ne_nil hne with ⟨piece, more, rfl⟩
      cases heq
      exact ⟨List.cons_ne_nil _ _, by rw [hcomma.1, hcs]; rfl⟩
    · exact hkeep (fun _ _ _ => rfl) h

/-! ## What is passed over -/

/-- How deep parentheses are open after a character. -/
def depthAfter (depth : Nat) (c : Char) : Nat :=
  if c = '(' then depth + 1 else if c = ')' then depth - 1 else depth

/-- A character that neither ends the arguments nor separates two is kept. -/
theorem splitArguments_keep {depth : Nat} {c : Char} {cs piece : List Char}
    {more : List (List Char)} {after : List Char} (hinside : c = ')' ∨ c = ',' → 0 < depth)
    (h : splitArguments (depthAfter depth c) cs = some (piece :: more, after)) :
    splitArguments depth (c :: cs) = some ((c :: piece) :: more, after) := by
  unfold depthAfter at h
  rw [splitArguments]
  simp only
  by_cases hopen : c = '('
  · rw [if_pos hopen] at h ⊢
    rw [h]
    rfl
  rw [if_neg hopen] at h ⊢
  by_cases hclose : c = ')'
  · rw [if_pos hclose] at h ⊢
    rw [if_neg (Nat.ne_of_gt (hinside (Or.inl hclose))), h]
    rfl
  rw [if_neg hclose] at h ⊢
  have hkept : ¬(c = ',' ∧ depth = 0) := by
    rintro ⟨hcomma, hzero⟩
    exact Nat.ne_of_gt (hinside (Or.inr hcomma)) hzero
  rw [if_neg hkept, h]
  rfl

/-- Where parentheses are open at least this deep, a splitting passes over the characters: they
become a part of the piece that goes on after them. -/
def Passes (least : Nat) (cs : List Char) : Prop :=
  ∀ depth rest piece more after, least ≤ depth →
    splitArguments depth rest = some (piece :: more, after) →
      splitArguments depth (cs ++ rest) = some ((cs ++ piece) :: more, after)

namespace Passes

variable {least : Nat} {cs ds : List Char} {c : Char}

theorem nil : Passes least [] :=
  fun _ _ _ _ _ _ h => h

theorem append (hcs : Passes least cs) (hds : Passes least ds) : Passes least (cs ++ ds) := by
  intro depth rest piece more after hdepth h
  rw [List.append_assoc, List.append_assoc]
  exact hcs _ _ _ _ _ hdepth (hds _ _ _ _ _ hdepth h)

theorem mono {deeper : Nat} (hle : least ≤ deeper) (h : Passes least cs) : Passes deeper cs :=
  fun _ _ _ _ _ hdepth => h _ _ _ _ _ (Nat.le_trans hle hdepth)

theorem char (hopen : c ≠ '(') (hclose : c ≠ ')') (hcomma : c = ',' → 0 < least) :
    Passes least [c] := by
  intro depth rest piece more after hdepth h
  refine splitArguments_keep ?_ ?_
  · rintro (hc | hc)
    · exact absurd hc hclose
    · exact Nat.lt_of_lt_of_le (hcomma hc) hdepth
  · rw [depthAfter, if_neg hopen, if_neg hclose]
    exact h

/-- Characters that separate nothing. -/
theorem of_plain (h : ∀ c ∈ cs, c ≠ '(' ∧ c ≠ ')' ∧ c ≠ ',') : Passes least cs := by
  induction cs with
  | nil => exact nil
  | cons c cs ih =>
    rcases h c List.mem_cons_self with ⟨hopen, hclose, hcomma⟩
    exact (char hopen hclose fun hc => absurd hc hcomma).append
      (ih fun d hd => h d (List.mem_cons_of_mem c hd))

/-- Inside parentheses commas separate nothing. -/
theorem parentheses (h : Passes 1 cs) : Passes 0 ('(' :: (cs ++ [')'])) := by
  intro depth rest piece more after _ hrest
  have hclosed : splitArguments (depth + 1) (')' :: rest) = some ((')' :: piece) :: more, after) :=
    splitArguments_keep (fun _ => Nat.succ_pos depth) hrest
  have hinner := h _ _ _ _ _ (Nat.le_add_left 1 depth) hclosed
  show splitArguments depth ('(' :: (cs ++ [')'] ++ rest)) =
    some (('(' :: (cs ++ [')'] ++ piece)) :: more, after)
  rw [List.append_assoc, List.append_assoc]
  refine splitArguments_keep ?_ hinner
  rintro (hc | hc)
  · cases hc
  · cases hc

/-- Between parentheses, items with commas between them. -/
theorem intercalate {items : List (List Char)} (h : ∀ item ∈ items, Passes 0 item) :
    Passes 1 ([','].intercalate items) := by
  induction items with
  | nil => exact nil
  | cons first rest ih =>
    have hfirst : Passes 1 first := (h first List.mem_cons_self).mono (Nat.zero_le 1)
    have hrest := ih fun item hitem => h item (List.mem_cons_of_mem first hitem)
    cases rest with
    | nil => rwa [List.intercalate_singleton]
    | cons next rest =>
      have hcomma : Passes 1 [','] := char (by decide) (by decide) fun _ => Nat.one_pos
      rw [List.intercalate_cons_cons]
      exact (hfirst.append hcomma).append hrest

end Passes

/-- Items are split where commas were put between them. -/
theorem splitArguments_intercalate (first : List Char) (rest : List (List Char))
    (h : ∀ item ∈ first :: rest, Passes 0 item) :
    splitArguments 0 ([','].intercalate (first :: rest) ++ [')']) = some (first :: rest, []) := by
  induction rest generalizing first with
  | nil =>
    have hlast := h first List.mem_cons_self 0 [')'] [] [] [] (Nat.le_refl 0) rfl
    rw [List.append_nil] at hlast
    rwa [List.intercalate_singleton]
  | cons next rest ih =>
    have hrest := ih next fun item hitem => h item (List.mem_cons_of_mem first hitem)
    have hcomma : splitArguments 0 (',' :: ([','].intercalate (next :: rest) ++ [')'])) =
        some ([] :: next :: rest, []) := by
      rw [splitArguments, hrest]
      rfl
    have hfirst := h first List.mem_cons_self 0 _ _ _ _ (Nat.le_refl 0) hcomma
    rw [List.append_nil] at hfirst
    rw [List.intercalate_cons_cons, List.append_assoc, List.append_assoc]
    exact hfirst

end Span

end PortLogic
