import PortLogic.Proofs.Expr.Decimal
import PortLogic.Proofs.Expr.Parse

/-!
# PortLogic.Proofs.Expr.Grammar — the grammar that is read

`Expr.Derives` is the grammar of expressions, as a relation between characters and trees. Reading
accepts exactly this grammar, with calls nested thirty-two deep at most (`parse_eq_ok_iff_derives`).

1. **Grammar**: a rule for each kind of expression, and the lists that stand between parentheses.
2. **Soundness**: what is read is derived, by induction on the calls that may still be nested.
3. **Balance**: derived characters are balanced, and their commas stand inside their parentheses, so
   that a splitting passes over them.
4. **Completeness**: what is derived is read, by induction on the derivation.
-/

namespace PortLogic

/-! ## Grammar -/

namespace Expr

/-- What stands between the parentheses of a call, and its items. A blank list has none; the items
of every other list have commas between them. -/
inductive ListText : List Char → List (List Char) → Prop where
  | blank {cs : List Char} (h : ∀ c ∈ cs, Text.isAsciiBlank c = true) : ListText cs []
  | items (first : List Char) (rest : List (List Char)) :
      ListText ([','].intercalate (first :: rest)) (first :: rest)

/-- The grammar: the characters of an expression, and its tree. -/
inductive Derives (owner : String) : List Char → Expr → Prop where
  | padded {front cs back : List Char} {e : Expr}
      (hfront : ∀ c ∈ front, Text.isAsciiBlank c = true)
      (hback : ∀ c ∈ back, Text.isAsciiBlank c = true) (h : Derives owner cs e) :
      Derives owner (front ++ cs ++ back) e
  | owner : Derives owner ['$'] (.port owner)
  | port {id : String} (hvalid : PortId.isValid id.toList = true) :
      Derives owner ('$' :: id.toList) (.port id)
  | true : Derives owner "true".toList (.literal 1)
  | false : Derives owner "false".toList (.literal 0)
  | decimal (d : SignedDecimal) (hfinite : d.value.isFinite = true) :
      Derives owner d.chars (.literal d.value)
  | call {func : Func} {name gap inside : List Char} {items : List (List Char × Expr)}
      (hname : name.map Char.toUpper = func.name.toList)
      (hgap : ∀ c ∈ gap, Text.isAsciiBlank c = true)
      (hlist : ListText inside (items.map Prod.fst))
      (hitems : ∀ item ∈ items, Derives owner item.1 item.2)
      (harity : func.arity.accepts items.length = true) :
      Derives owner (name ++ gap ++ '(' :: (inside ++ [')'])) (fresh func (items.map Prod.snd))

mutual
/-- How deep calls are nested. -/
def nesting : Expr → Nat
  | .literal _ => 0
  | .port _ => 0
  | .call _ _ args => nestingOfAll args + 1
/-- How deep calls are nested in any of the trees. -/
def nestingOfAll : List Expr → Nat
  | [] => 0
  | e :: es => max e.nesting (nestingOfAll es)
end

theorem nestingOfAll_le {es : List Expr} {n : Nat} :
    nestingOfAll es ≤ n ↔ ∀ e ∈ es, e.nesting ≤ n := by
  induction es with
  | nil => simp [nestingOfAll]
  | cons e es ih => rw [nestingOfAll, Nat.max_le, ih, List.forall_mem_cons]

theorem nesting_fresh_le {func : Func} {args : List Expr} {n : Nat} :
    (fresh func args).nesting ≤ n + 1 ↔ ∀ e ∈ args, e.nesting ≤ n := by
  rw [fresh, nesting, Nat.add_le_add_iff_right, nestingOfAll_le]

end Expr

/-! ## Soundness -/

/-- A function is found by its name in letters of any case, and by nothing else. -/
theorem Func.ofName?_eq_some_iff {name : List Char} {func : Func} :
    Func.ofName? name = some func ↔ name.map Char.toUpper = func.name.toList := by
  -- no two functions share a name
  have hfind : (all.find? fun f => f.name.toList = func.name.toList) = some func := by
    cases func <;> rfl
  constructor
  · intro h
    have hname := List.find?_some h
    exact (of_decide_eq_true hname).symm
  · intro h
    rw [Func.ofName?, h, hfind]

namespace Span

/-- The pieces of a list are its items, unless the list is blank. -/
theorem arguments_listText (start : Nat) {pieces : List (List Char)} (hne : pieces ≠ []) :
    Expr.ListText ([','].intercalate pieces) ((arguments start pieces).map chars) := by
  unfold arguments
  split
  · next piece =>
    split
    · next hblank =>
      rw [List.intercalate_singleton]
      exact Expr.ListText.blank (List.all_eq_true.mp hblank)
    · exact Expr.ListText.items piece []
  · rcases List.exists_cons_of_ne_nil hne with ⟨first, rest, rfl⟩
    rw [ofPieces_chars]
    exact Expr.ListText.items first rest

end Span

namespace Expr

variable {owner : String} {room : Nat} {s : Span} {e : Expr}

theorem derives_of_readReference {rest : List Char} (hchars : s.chars = '$' :: rest)
    (h : readReference owner s = .ok e) : Derives owner s.chars e ∧ e.nesting ≤ room := by
  unfold readReference at h
  rw [hchars, List.drop_succ_cons, List.drop_zero] at h
  simp only at h
  rw [hchars]
  split at h
  · next hempty =>
    cases Except.ok.inj h
    rw [hempty]
    exact ⟨Derives.owner, Nat.zero_le room⟩
  next hne =>
  split at h
  · cases h
  · next hgood =>
    cases Except.ok.inj h
    have hvalid := (invalidAt?_eq_none hne).mp hgood
    have hport : Derives owner ('$' :: (String.ofList rest).toList) (.port (String.ofList rest)) :=
      Derives.port (by rwa [String.toList_ofList])
    rw [String.toList_ofList] at hport
    exact ⟨hport, Nat.zero_le room⟩

theorem derives_of_readLiteral (h : readLiteral s = .ok e) :
    Derives owner s.chars e ∧ e.nesting ≤ room := by
  rcases readLiteral_eq_ok_iff.mp h with ⟨hchars, rfl⟩ | ⟨hchars, rfl⟩ | ⟨d, hchars, hfinite, rfl⟩
  · rw [hchars]
    exact ⟨Derives.true, Nat.zero_le room⟩
  · rw [hchars]
    exact ⟨Derives.false, Nat.zero_le room⟩
  · rw [hchars]
    exact ⟨Derives.decimal d hfinite, Nat.zero_le room⟩

/-- A name is read from letters with blanks after them. -/
theorem readName_eq_ok {named : Func × Span} (h : readName s = .ok named) :
    ∃ name gap, s.chars.takeWhile (· ≠ '(') = name ++ gap ∧
      name.map Char.toUpper = named.1.name.toList ∧ ∀ c ∈ gap, Text.isAsciiBlank c = true := by
  unfold readName at h
  simp only at h
  generalize s.chars.takeWhile (· ≠ '(') = front at h ⊢
  split at h
  · cases h
  split at h
  · cases h
  split at h
  · cases h
  next func hfunc =>
  cases Except.ok.inj h
  refine ⟨_, (front.reverse.takeWhile Text.isAsciiBlank).reverse, ?_,
    Func.ofName?_eq_some_iff.mp hfunc, ?_⟩
  · rw [← List.reverse_append, List.takeWhile_append_dropWhile, List.reverse_reverse]
  · intro c hc
    exact List.all_eq_true.mp List.all_takeWhile c (List.mem_reverse.mp hc)

/-- The spans between parentheses are the items of a list. -/
theorem readParentheses_eq_ok {spans : List Span} (h : readParentheses s = .ok spans) :
    ∃ inside, s.chars.dropWhile (· ≠ '(') = '(' :: (inside ++ [')']) ∧
      ListText inside (spans.map Span.chars) := by
  unfold readParentheses at h
  simp only at h
  split at h
  · cases h
  · next pieces hsplit =>
    rcases Span.splitArguments_eq_some hsplit with ⟨hne, hinside⟩
    refine ⟨[','].intercalate pieces, ?_, ?_⟩
    · cases hafter : s.chars.dropWhile (· ≠ '(') with
      | nil =>
        rw [hafter] at hsplit
        cases hsplit
      | cons c after =>
        have hopen : c = '(' := by
          have hfirst := List.head?_dropWhile_not (fun c => decide (c ≠ '(')) s.chars
          rw [hafter] at hfirst
          simpa using hfirst
        rw [hafter, List.drop_succ_cons, List.drop_zero] at hinside
        rw [hopen, hinside]
    · cases Except.ok.inj h
      exact Span.arguments_listText _ hne
  · cases h

theorem derives_of_call {named : Func × Span} {spans : List Span} {args : List Expr}
    (hname : readName s = .ok named) (hspans : readParentheses s = .ok spans)
    (hargs : List.Forall₂ (fun s e => Derives owner s.chars e ∧ e.nesting ≤ room) spans args)
    (harity : named.1.arity.accepts args.length = true) :
    Derives owner s.chars (fresh named.1 args) ∧ (fresh named.1 args).nesting ≤ room + 1 := by
  rcases readName_eq_ok hname with ⟨name, gap, hfront, hletters, hgap⟩
  rcases readParentheses_eq_ok hspans with ⟨inside, hback, hlist⟩
  have hchars : s.chars = name ++ gap ++ '(' :: (inside ++ [')']) := by
    rw [← List.takeWhile_append_dropWhile (p := fun c => decide (c ≠ '(')) (l := s.chars), hfront,
      hback]
  -- each argument with the characters that it was read from
  have hread : List.Forall₂ (fun cs e => Derives owner cs e ∧ e.nesting ≤ room)
      (spans.map Span.chars) args := List.forall₂_map_left_iff.mpr hargs
  rcases List.forall₂_iff_zip.mp hread with ⟨hlength, hall⟩
  have hfst : ((spans.map Span.chars).zip args).map Prod.fst = spans.map Span.chars :=
    List.map_fst_zip (Nat.le_of_eq hlength)
  have hsnd : ((spans.map Span.chars).zip args).map Prod.snd = args :=
    List.map_snd_zip (Nat.le_of_eq hlength.symm)
  have hitems : ∀ item ∈ (spans.map Span.chars).zip args,
      Derives owner item.1 item.2 ∧ item.2.nesting ≤ room := fun item hitem => hall hitem
  generalize (spans.map Span.chars).zip args = items at hfst hsnd hitems
  rw [← hfst] at hlist
  rw [← hsnd] at harity ⊢
  rw [List.length_map] at harity
  constructor
  · rw [hchars]
    exact Derives.call hletters hgap hlist (fun item hitem => (hitems item hitem).1) harity
  · rw [nesting_fresh_le]
    intro e he
    rcases List.mem_map.mp he with ⟨item, hitem, rfl⟩
    exact (hitems item hitem).2

/-- What is read is derived, and its calls are nested no deeper than there was room for. -/
theorem derives_of_read (h : read owner room s = .ok e) :
    Derives owner s.chars e ∧ e.nesting ≤ room := by
  induction room using Nat.strongRecOn generalizing s e with
  | ind room ih =>
    suffices htrimmed : Derives owner s.trim.chars e ∧ e.nesting ≤ room by
      obtain ⟨front, back, hsplit, hfront, hback⟩ := Text.exists_trimBy Text.isAsciiBlank s.chars
      rw [hsplit]
      exact ⟨Derives.padded hfront hback htrimmed.1, htrimmed.2⟩
    rw [read.eq_def] at h
    simp only at h
    generalize s.trim = s at h ⊢
    split at h
    · cases h
    · next hchars => exact derives_of_readReference hchars h
    split at h
    · rcases bind_eq_ok.mp h with ⟨⟨func, name⟩, hname, h⟩
      cases room with
      | zero => cases h
      | succ inner =>
        rcases bind_eq_ok.mp h with ⟨spans, hspans, h⟩
        rcases bind_eq_ok.mp h with ⟨args, hargs, h⟩
        split at h
        · next harity =>
          cases Except.ok.inj h
          have hall : List.Forall₂ (fun s e => Derives owner s.chars e ∧ e.nesting ≤ inner)
              spans args := by
            refine (readArguments_eq_ok.mp hargs).imp ?_
            intro s e hread
            exact ih inner (Nat.lt_succ_self inner) (read_of_chars s.trim_trim_chars hread.2)
          exact derives_of_call hname hspans hall harity
        · cases h
    · split at h
      · exact derives_of_readLiteral h
      · cases h

end Expr

/-! ## Balance -/

/-! ### Characters that separate nothing -/

/-- The name of a function has capital letters only. -/
theorem Func.isUpper_of_mem_name {func : Func} {c : Char} (h : c ∈ func.name.toList) :
    c.isUpper = true := by
  have hall : func.name.toList.all Char.isUpper = true := by
    cases func <;> rfl
  exact List.all_eq_true.mp hall c h

theorem Func.name_ne_nil (func : Func) : func.name.toList ≠ [] := by
  cases func <;> exact List.cons_ne_nil _ _

namespace Expr

variable {owner : String} {room : Nat} {s : Span} {e : Expr} {c : Char}

theorem isAlphanum_of_isUpper_toUpper (h : c.toUpper.isUpper = true) : c.isAlphanum = true := by
  unfold Char.toUpper at h
  split at h
  · next hlower =>
    have hletter : c.isLower = true := by
      unfold Char.isLower
      simpa using hlower
    show (c.isUpper || c.isLower || c.isDigit) = true
    rw [hletter, Bool.or_true, Bool.true_or]
  · show (c.isUpper || c.isLower || c.isDigit) = true
    rw [h, Bool.true_or, Bool.true_or]

section Name

variable {func : Func} {name : List Char} (hname : name.map Char.toUpper = func.name.toList)
include hname

theorem isAlphanum_of_mem_name (h : c ∈ name) : c.isAlphanum = true := by
  have hmem : c.toUpper ∈ func.name.toList := hname ▸ List.mem_map_of_mem h
  exact isAlphanum_of_isUpper_toUpper (Func.isUpper_of_mem_name hmem)

theorem name_ne_nil : name ≠ [] := by
  rintro rfl
  exact func.name_ne_nil hname.symm

end Name

theorem plain_of_isAlphanum (h : c.isAlphanum = true) : c ≠ '(' ∧ c ≠ ')' ∧ c ≠ ',' := by
  refine ⟨?_, ?_, ?_⟩
  all_goals
    rintro rfl
    cases h

theorem plain_of_isAsciiBlank (h : Text.isAsciiBlank c = true) : c ≠ '(' ∧ c ≠ ')' ∧ c ≠ ',' := by
  refine ⟨?_, ?_, ?_⟩
  all_goals
    rintro rfl
    cases h

theorem plain_of_isRest (h : PortId.isRest c = true) : c ≠ '(' ∧ c ≠ ')' ∧ c ≠ ',' := by
  rcases isRest_cases h with halnum | rfl | rfl | rfl
  · exact plain_of_isAlphanum halnum
  all_goals decide

theorem plain_of_mem_port {id : List Char} (hvalid : PortId.isValid id = true)
    (h : c ∈ '$' :: id) : c ≠ '(' ∧ c ≠ ')' ∧ c ≠ ',' := by
  rcases List.mem_cons.mp h with rfl | hmem
  · decide
  · exact plain_of_isRest (isRest_of_isValid hvalid hmem)

theorem unreserved_of_isAlphanum (h : c.isAlphanum = true) :
    c ≠ '$' ∧ c ≠ '(' ∧ c ≠ ')' ∧ c ≠ ',' := by
  refine ⟨?_, plain_of_isAlphanum h⟩
  rintro rfl
  cases h

theorem plain_of_readLiteral (h : readLiteral s = .ok e) (hc : c ∈ s.chars) :
    c ≠ '$' ∧ c ≠ '(' ∧ c ≠ ')' ∧ c ≠ ',' := by
  rcases readLiteral_eq_ok_iff.mp h with ⟨hchars, -⟩ | ⟨hchars, -⟩ | ⟨d, hchars, -, -⟩
  · rw [hchars] at hc
    exact unreserved_of_isAlphanum (List.all_eq_true.mp (by decide) c hc)
  · rw [hchars] at hc
    exact unreserved_of_isAlphanum (List.all_eq_true.mp (by decide) c hc)
  · rw [hchars] at hc
    rcases SignedDecimal.mem_chars hc with rfl | rfl | rfl | hdigit
    · decide
    · decide
    · decide
    · exact unreserved_of_isAlphanum (by rw [Char.isAlphanum, hdigit, Bool.or_true])

/-! ### Sentences are balanced -/

/-- A list is balanced when its items are. -/
theorem ListText.passes {inside : List Char} {items : List (List Char)} (h : ListText inside items)
    (hitems : ∀ item ∈ items, Span.Passes 0 item) : Span.Passes 1 inside := by
  cases h with
  | blank hblank => exact Span.Passes.of_plain fun c hc => plain_of_isAsciiBlank (hblank c hc)
  | items first rest => exact Span.Passes.intercalate hitems

/-- A splitting passes over what is derived. -/
theorem Derives.passes {cs : List Char} (h : Derives owner cs e) : Span.Passes 0 cs := by
  induction h with
  | padded hfront hback h ih =>
    exact ((Span.Passes.of_plain fun c hc => plain_of_isAsciiBlank (hfront c hc)).append ih).append
      (Span.Passes.of_plain fun c hc => plain_of_isAsciiBlank (hback c hc))
  | owner => exact Span.Passes.of_plain (by simp)
  | port hvalid => exact Span.Passes.of_plain fun c hc => plain_of_mem_port hvalid hc
  | true => exact Span.Passes.of_plain (by simp)
  | false => exact Span.Passes.of_plain (by simp)
  | decimal d hfinite =>
    have hread := readLiteral_chars d 0 hfinite
    exact Span.Passes.of_plain fun c hc => (plain_of_readLiteral hread hc).2
  | @call func name gap inside items hname hgap hlist hitems harity ih =>
    refine Span.Passes.append (Span.Passes.append ?_ ?_) ?_
    · exact Span.Passes.of_plain fun c hc => plain_of_isAlphanum (isAlphanum_of_mem_name hname hc)
    · exact Span.Passes.of_plain fun c hc => plain_of_isAsciiBlank (hgap c hc)
    · refine (hlist.passes ?_).parentheses
      intro cs hcs
      rcases List.mem_map.mp hcs with ⟨item, hitem, rfl⟩
      exact ih item hitem

/-! ## Completeness -/

/-- The spans between parentheses are the items of the list, when none of them is blank. -/
theorem ListText.split {inside : List Char} {items : List (List Char)} (h : ListText inside items)
    (hpasses : ∀ item ∈ items, Span.Passes 0 item)
    (hshown : ∀ item ∈ items, item.all Text.isAsciiBlank = false) :
    ∃ pieces, Span.splitArguments 0 (inside ++ [')']) = some (pieces, []) ∧
      ∀ start, (Span.arguments start pieces).map Span.chars = items := by
  cases h with
  | blank hblank =>
    have hpass : Span.Passes 0 inside :=
      Span.Passes.of_plain fun c hc => plain_of_isAsciiBlank (hblank c hc)
    have hsplit := hpass 0 [')'] [] [] [] (Nat.le_refl 0) rfl
    rw [List.append_nil] at hsplit
    refine ⟨[inside], hsplit, fun start => ?_⟩
    rw [Span.arguments, if_pos (List.all_eq_true.mpr hblank), List.map_nil]
  | items first rest =>
    refine ⟨first :: rest, Span.splitArguments_intercalate first rest hpasses, fun start => ?_⟩
    unfold Span.arguments
    split
    · next piece hpiece =>
      cases hpiece
      rw [if_neg (by simp [hshown])]
      rfl
    · exact Span.ofPieces_chars start _

theorem read_port {id : List Char} (hid : id = [] ∨ PortId.isValid id = true) (start : Nat) :
    read owner room ⟨start, '$' :: id⟩ =
      .ok (.port (if id = [] then owner else String.ofList id)) := by
  have hshown : ∀ c ∈ '$' :: id, Text.isBlank c = false := by
    intro c hc
    rcases List.mem_cons.mp hc with rfl | hmem
    · decide
    · rcases hid with rfl | hvalid
      · cases hmem
      · exact isBlank_of_isRest (isRest_of_isValid hvalid hmem)
  have htrim : Span.trim ⟨start, '$' :: id⟩ = ⟨start, '$' :: id⟩ :=
    trim_of_ends (List.cons_ne_nil _ _) (fun c hc => hshown c (List.mem_of_mem_head? hc))
      fun c hc => hshown c (List.mem_of_mem_getLast? hc)
  rw [read.eq_def]
  simp only
  rw [htrim]
  simp only
  unfold readReference
  simp only [List.drop_succ_cons, List.drop_zero]
  split
  · rfl
  · next hne => rw [(invalidAt?_eq_none hne).mpr (hid.resolve_left hne)]

theorem readLiteral_ne_nil (h : readLiteral s = .ok e) : s.chars ≠ [] := by
  intro hempty
  rcases s with ⟨start, cs⟩
  cases hempty
  cases h

theorem read_of_readLiteral (h : readLiteral s = .ok e) : read owner room s = .ok e := by
  have htrim : s.trim = s :=
    trim_of_ends (readLiteral_ne_nil h)
      (fun c hc => isBlank_of_readLiteral h (List.mem_of_mem_head? hc))
      fun c hc => isBlank_of_readLiteral h (List.mem_of_mem_getLast? hc)
  have hcall : ¬s.chars.contains '(' = true := by
    rw [List.contains_iff_mem]
    intro hmem
    exact (plain_of_readLiteral h hmem).2.1 rfl
  have hplain : s.chars.dropWhile (fun c => decide (c ≠ ')' ∧ c ≠ ',')) = [] := by
    rw [List.dropWhile_eq_nil_iff]
    intro c hc
    exact decide_eq_true (plain_of_readLiteral h hc).2.2
  rw [read.eq_def]
  simp only
  rw [htrim]
  split
  · next hempty => exact absurd hempty (readLiteral_ne_nil h)
  · next rest hdollar =>
    have hmem : '$' ∈ s.chars := hdollar ▸ List.mem_cons_self
    exact absurd rfl (plain_of_readLiteral h hmem).1
  · rw [if_neg hcall, hplain]
    exact h

/-- What is read is not blank. -/
theorem not_blank_of_read (h : read owner room s = .ok e) :
    s.chars.all Text.isAsciiBlank = false := by
  rw [Bool.eq_false_iff]
  intro hblank
  have hempty : s.chars.dropWhile Text.isAsciiBlank = [] :=
    List.dropWhile_eq_nil_iff.mpr (List.all_eq_true.mp hblank)
  refine (read_ends h).1 ?_
  show (s.chars.dropWhile Text.isAsciiBlank).rdropWhile Text.isAsciiBlank = []
  rw [hempty]
  rfl

/-- Blanks around a span do not matter. -/
theorem read_padded {front cs back : List Char}
    (hfront : ∀ c ∈ front, Text.isAsciiBlank c = true)
    (hback : ∀ c ∈ back, Text.isAsciiBlank c = true) {start : Nat}
    (h : read owner room ⟨start, cs⟩ = .ok e) :
    read owner room ⟨start, front ++ cs ++ back⟩ = .ok e := by
  obtain ⟨inner, outer, hsplit, hinner, houter⟩ := Text.exists_trimBy Text.isAsciiBlank cs
  rcases read_ends h with ⟨hne, hhead, hlast⟩
  have htrim : (Span.trim ⟨start, cs⟩).chars =
      (Span.trim ⟨start, front ++ cs ++ back⟩).chars := by
    show Text.trimBy Text.isAsciiBlank cs = Text.trimBy Text.isAsciiBlank (front ++ cs ++ back)
    symm
    have hwhole : front ++ cs ++ back =
        (front ++ inner) ++ Text.trimBy Text.isAsciiBlank cs ++ (outer ++ back) := by
      conv => lhs; rw [hsplit]
      simp only [List.append_assoc]
    rw [hwhole]
    refine Text.trimBy_append ?_ ?_ hne (fun c hc => Text.isAsciiBlank_eq_false (hhead c hc))
      fun c hc => Text.isAsciiBlank_eq_false (hlast c hc)
    · exact fun c hc => (List.mem_append.mp hc).elim (hfront c) (hinner c)
    · exact fun c hc => (List.mem_append.mp hc).elim (houter c) (hback c)
  exact read_of_chars htrim h

/-- Spans with the characters of items are read as the trees of the items. -/
theorem readArguments_of_items {spans : List Span} {items : List (List Char × Expr)}
    (hspans : spans.map Span.chars = items.map Prod.fst)
    (hread : ∀ item ∈ items, ∀ start, read owner room ⟨start, item.1⟩ = .ok item.2) :
    readArguments (read owner room) spans = .ok (items.map Prod.snd) := by
  induction items generalizing spans with
  | nil =>
    rw [List.map_eq_nil_iff.mp hspans]
    rfl
  | cons item items ih =>
    rcases List.map_eq_cons_iff.mp hspans with ⟨s, rest, rfl, hchars, hrest⟩
    have hs : read owner room s.trim = .ok item.2 :=
      read_of_chars (by rw [s.trim_trim_chars, ← hchars]) (hread item List.mem_cons_self s.start)
    have hne : s.trim.chars ≠ [] := s.trim_trim_chars ▸ (read_ends hs).1
    have hall := ih hrest fun other hother => hread other (List.mem_cons_of_mem item hother)
    exact readArguments_eq_ok.mpr (.cons ⟨hne, hs⟩ (readArguments_eq_ok.mp hall))

section Call

variable {func : Func} {name gap : List Char} (hname : name.map Char.toUpper = func.name.toList)
  (hgap : ∀ c ∈ gap, Text.isAsciiBlank c = true)
include hname hgap

theorem open_not_mem : '(' ∉ name ++ gap := by
  intro hc
  rcases List.mem_append.mp hc with hletter | hblank
  · exact (plain_of_isAlphanum (isAlphanum_of_mem_name hname hletter)).1 rfl
  · exact (plain_of_isAsciiBlank (hgap _ hblank)).1 rfl

theorem readName_call (rest : List Char) (start : Nat) :
    readName ⟨start, name ++ gap ++ '(' :: rest⟩ = .ok (func, ⟨start, name⟩) := by
  have hletters {c : Char} (hc : c ∈ name) := isAlphanum_of_mem_name hname hc
  have htrimmed : ((name ++ gap).reverse.dropWhile Text.isAsciiBlank).reverse = name := by
    have hend : ∀ c ∈ name.reverse, ¬Text.isAsciiBlank c = true := by
      intro c hc hblank
      have hshown := Text.isBlank_of_isAlphanum (hletters (List.mem_reverse.mp hc))
      rw [Text.isBlank_of_isAsciiBlank hblank] at hshown
      cases hshown
    rw [List.reverse_append, List.dropWhile_append_of_pos
      fun c hc => hgap c (List.mem_reverse.mp hc), List.reverse_eq_iff, List.dropWhile_eq_self_iff]
    exact fun hpos => hend _ (List.getElem_mem hpos)
  have hgood : badNameChar? name = none := by
    unfold badNameChar?
    rw [List.findIdx?_eq_none_iff]
    intro c hc
    rw [hletters hc]
    rfl
  unfold readName
  simp only
  rw [Span.takeWhile_open (open_not_mem hname hgap), htrimmed, if_neg (name_ne_nil hname), hgood]
  simp only
  rw [Func.ofName?_eq_some_iff.mpr hname]

omit hgap in
theorem trim_call (inside : List Char) (start : Nat) :
    Span.trim ⟨start, name ++ gap ++ '(' :: (inside ++ [')'])⟩ =
      ⟨start, name ++ gap ++ '(' :: (inside ++ [')'])⟩ := by
  refine trim_of_ends (by simp) ?_ ?_
  · intro c hc
    rw [List.append_assoc, List.head?_append_of_ne_nil _ (name_ne_nil hname)] at hc
    exact Text.isBlank_of_isAlphanum (isAlphanum_of_mem_name hname (List.mem_of_mem_head? hc))
  · rw [← List.cons_append, ← List.append_assoc, List.getLast?_concat]
    rintro c ⟨⟩
    decide

theorem read_call {inside : List Char} {items : List (List Char × Expr)}
    (hlist : ListText inside (items.map Prod.fst))
    (hpasses : ∀ item ∈ items, Span.Passes 0 item.1)
    (hread : ∀ item ∈ items, ∀ start, read owner room ⟨start, item.1⟩ = .ok item.2)
    (harity : func.arity.accepts items.length = true) (start : Nat) :
    read owner (room + 1) ⟨start, name ++ gap ++ '(' :: (inside ++ [')'])⟩ =
      .ok (fresh func (items.map Prod.snd)) := by
  obtain ⟨pieces, hsplit, hpieces⟩ := hlist.split (List.forall_mem_map.mpr hpasses)
    (List.forall_mem_map.mpr fun item hitem => not_blank_of_read (hread item hitem 0))
  have hspans : readParentheses ⟨start, name ++ gap ++ '(' :: (inside ++ [')'])⟩ =
      .ok (Span.arguments (start + Text.byteCount (name ++ gap) + 1) pieces) := by
    unfold readParentheses
    simp only
    rw [Span.takeWhile_open (open_not_mem hname hgap),
      Span.dropWhile_open (open_not_mem hname hgap), List.drop_succ_cons, List.drop_zero, hsplit]
  have hargs (start : Nat) : readArguments (read owner room) (Span.arguments start pieces) =
      .ok (items.map Prod.snd) := readArguments_of_items (hpieces start) hread
  have hcall : (name ++ gap ++ '(' :: (inside ++ [')'])).contains '(' = true := by
    rw [List.contains_iff_mem]
    exact List.mem_append_right _ List.mem_cons_self
  rw [read.eq_def]
  simp only
  rw [trim_call hname]
  split
  · next hempty => exact absurd hempty (by simp)
  · next rest hdollar =>
    -- a name does not start like a reference
    have hfirst := congrArg List.head? hdollar
    rw [List.append_assoc, List.head?_append_of_ne_nil _ (name_ne_nil hname)] at hfirst
    have halnum := isAlphanum_of_mem_name hname (List.mem_of_mem_head? hfirst)
    cases halnum
  · rw [if_pos hcall]
    refine bind_eq_ok.mpr ⟨_, readName_call hname hgap _ start, ?_⟩
    refine bind_eq_ok.mpr ⟨_, hspans, ?_⟩
    refine bind_eq_ok.mpr ⟨_, hargs _, ?_⟩
    rw [List.length_map, if_pos harity]
    rfl

end Call

/-- What is derived is read, where there is room for its calls. -/
theorem Derives.read {cs : List Char} (h : Derives owner cs e) (hroom : e.nesting ≤ room)
    (start : Nat) : read owner room ⟨start, cs⟩ = .ok e := by
  induction h generalizing room start with
  | padded hfront hback h ih => exact read_padded hfront hback (ih hroom start)
  | owner => exact read_port (Or.inl rfl) start
  | @port id hvalid =>
    have hne : id.toList ≠ [] := by
      intro hempty
      rw [hempty] at hvalid
      cases hvalid
    rw [read_port (Or.inr hvalid), if_neg hne, String.ofList_toList]
  | true => exact read_of_readLiteral (readLiteral_eq_ok_iff.mpr (Or.inl ⟨rfl, rfl⟩))
  | false => exact read_of_readLiteral (readLiteral_eq_ok_iff.mpr (Or.inr (Or.inl ⟨rfl, rfl⟩)))
  | decimal d hfinite => exact read_of_readLiteral (readLiteral_chars d start hfinite)
  | @call func name gap inside items hname hgap hlist hitems harity ih =>
    cases room with
    | zero => cases hroom
    | succ inner =>
      rw [nesting_fresh_le] at hroom
      exact read_call hname hgap hlist (fun item hitem => (hitems item hitem).passes)
        (fun item hitem start => ih item hitem (hroom _ (List.mem_map_of_mem hitem)) start)
        harity start

/-- The grammar is unambiguous. -/
theorem Derives.unique {cs : List Char} {d : Expr} (hd : Derives owner cs d)
    (he : Derives owner cs e) : d = e := by
  have hread := hd.read (Nat.le_max_left d.nesting e.nesting) 0
  rw [he.read (Nat.le_max_right d.nesting e.nesting) 0] at hread
  exact (Except.ok.inj hread).symm

/-- Reading accepts exactly the grammar, with calls nested thirty-two deep at most. -/
theorem parse_eq_ok_iff_derives {source : String} :
    parse owner source = .ok e ↔ Derives owner source.toList e ∧ e.nesting ≤ maxNesting :=
  ⟨derives_of_read, fun h => h.1.read h.2 0⟩

end Expr

end PortLogic
