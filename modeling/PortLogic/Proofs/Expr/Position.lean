import PortLogic.Proofs.Bytes
import PortLogic.Proofs.Expr.Parse

/-!
# PortLogic.Proofs.Expr.Position — where errors are

A reading goes to ever smaller parts of its span (`Span.Within`), and an error of a part is an error
inside the whole. So an error is inside the span without the blanks around it, and only a blank
span has its error at the end (`read_position`).
-/

namespace PortLogic

/-! ## Parts of spans -/

namespace Span

variable {s t u : Span}

/-- A span is a part of another. -/
def Within (s t : Span) : Prop :=
  ∃ before after, t.chars = before ++ s.chars ++ after ∧ s.start = t.start + Text.byteCount before

namespace Within

theorem refl (s : Span) : s.Within s :=
  ⟨[], [], by simp, rfl⟩

theorem trans (hst : s.Within t) (htu : t.Within u) : s.Within u := by
  rcases hst with ⟨before, after, hchars, hstart⟩
  rcases htu with ⟨front, back, hchars', hstart'⟩
  refine ⟨front ++ before, after ++ back, ?_, ?_⟩
  · rw [hchars', hchars]
    simp only [List.append_assoc]
  · rw [hstart, hstart', Text.byteCount_append, Nat.add_assoc]

theorem start_le (h : s.Within t) : t.start ≤ s.start := by
  rcases h with ⟨before, -, -, hstart⟩
  rw [hstart]
  exact Nat.le_add_right ..

theorem stop_le (h : s.Within t) : s.stop ≤ t.stop := by
  rcases h with ⟨before, after, hchars, hstart⟩
  unfold stop
  rw [hstart, hchars, Text.byteCount_append, Text.byteCount_append]
  omega

end Within

theorem dropWhile_within (p : Char → Bool) (s : Span) : (s.dropWhile p).Within s :=
  ⟨s.chars.takeWhile p, [], by simp [dropWhile], rfl⟩

/-- A span without its last characters that satisfy a predicate. -/
theorem dropEnd_within (p : Char → Bool) (s : Span) :
    (⟨s.start, (s.chars.reverse.dropWhile p).reverse⟩ : Span).Within s := by
  refine ⟨[], (s.chars.reverse.takeWhile p).reverse, ?_, rfl⟩
  rw [List.nil_append, ← List.reverse_append, List.takeWhile_append_dropWhile,
    List.reverse_reverse]

theorem trim_within (s : Span) : s.trim.Within s :=
  (dropEnd_within Text.isAsciiBlank _).trans (dropWhile_within Text.isAsciiBlank s)

/-- A trimmed span does not start with a blank. -/
theorem trim_head? (s : Span) : ∀ c ∈ s.trim.chars.head?, Text.isAsciiBlank c = false := by
  intro c hc
  have hprefix : s.trim.chars <+: s.chars.dropWhile Text.isAsciiBlank :=
    List.rdropWhile_prefix Text.isAsciiBlank _
  rcases hprefix with ⟨back, hback⟩
  have hfirst := List.head?_dropWhile_not Text.isAsciiBlank s.chars
  rw [← hback, List.head?_append, Option.mem_def.mp hc] at hfirst
  simpa using hfirst

theorem all_blank (h : s.trim.chars = []) : s.chars.all Text.isAsciiBlank = true := by
  obtain ⟨front, back, hsplit, hfront, hback⟩ := Text.exists_trimBy Text.isAsciiBlank s.chars
  have hnil : Text.trimBy Text.isAsciiBlank s.chars = [] := h
  rw [hsplit, hnil, List.append_nil, List.all_append, List.all_eq_true.mpr hfront,
    List.all_eq_true.mpr hback]
  rfl

/-- A blank span is trimmed to its end. -/
theorem trim_start_of_blank (h : s.chars.all Text.isAsciiBlank = true) : s.trim.start = s.stop := by
  have htake : s.chars.takeWhile Text.isAsciiBlank = s.chars :=
    List.takeWhile_eq_self_iff.mpr (List.all_eq_true.mp h)
  show s.start + Text.byteCount (s.chars.takeWhile Text.isAsciiBlank) = s.stop
  rw [htake]
  rfl

theorem ofPieces_within (start : Nat) (pieces : List (List Char)) :
    ∀ s ∈ ofPieces start pieces, s.Within ⟨start, [','].intercalate pieces⟩ := by
  induction pieces generalizing start with
  | nil => exact List.forall_mem_nil _
  | cons piece more ih =>
    intro s hs
    cases more with
    | nil =>
      rw [List.intercalate_singleton]
      rw [List.mem_singleton.mp hs]
      exact Within.refl _
    | cons next more =>
      have hwhole : [','].intercalate (piece :: next :: more) =
          piece ++ [','] ++ [','].intercalate (next :: more) := List.intercalate_cons_cons ..
      rcases List.mem_cons.mp hs with rfl | hmore
      · exact ⟨[], [','] ++ [','].intercalate (next :: more), by simp [hwhole], rfl⟩
      · refine (ih _ s hmore).trans ⟨piece ++ [','], [], by simp [hwhole], ?_⟩
        rw [Text.byteCount_append, ← Nat.add_assoc]
        rfl

theorem arguments_within (start : Nat) (pieces : List (List Char)) :
    ∀ s ∈ arguments start pieces, s.Within ⟨start, [','].intercalate pieces⟩ := by
  intro s hs
  unfold arguments at hs
  split at hs
  · next piece =>
    split at hs
    · cases hs
    · exact ofPieces_within start [piece] s hs
  · exact ofPieces_within start _ s hs

end Span

/-! ## Errors inside -/

namespace Expr

variable {owner : String} {room : Nat} {s t : Span} {α β : Type}

/-- What fails only inside a span. -/
def Inside (s : Span) (x : Except ParseError α) : Prop :=
  ∀ err, x = .error err → s.start ≤ err.position ∧ err.position < s.stop

theorem Inside.ok (a : α) : Inside s (.ok a) := by
  intro err h
  cases h

theorem Inside.error {err : ParseError} (hstart : s.start ≤ err.position)
    (hstop : err.position < s.stop) : Inside s (.error err : Except ParseError α) := by
  intro other h
  cases h
  exact ⟨hstart, hstop⟩

theorem Inside.bind {x : Except ParseError α} {f : α → Except ParseError β} (hx : Inside s x)
    (hf : ∀ a, x = .ok a → Inside s (f a)) : Inside s (x >>= f) := by
  cases x with
  | error err =>
    rcases hx err rfl with ⟨hstart, hstop⟩
    exact Inside.error hstart hstop
  | ok a => exact hf a rfl

theorem Inside.mono {x : Except ParseError α} (hx : Inside s x) (h : s.Within t) : Inside t x := by
  intro err herr
  rcases hx err herr with ⟨hstart, hstop⟩
  exact ⟨Nat.le_trans h.start_le hstart, Nat.lt_of_lt_of_le hstop h.stop_le⟩

theorem length_le_byteCount (cs : List Char) : cs.length ≤ Text.byteCount cs := by
  induction cs with
  | nil => exact Nat.le_refl 0
  | cons c cs ih =>
    have hsize := c.utf8Size_pos
    rw [List.length_cons, Text.byteCount_cons]
    omega

/-- The position of a character by its index is inside. -/
theorem add_lt_stop {index : Nat} (h : index < s.chars.length) : s.start + index < s.stop :=
  Nat.add_lt_add_left (Nat.lt_of_lt_of_le h (length_le_byteCount s.chars)) s.start

theorem badDigit?_lt {dot : Bool} {first index : Nat} {cs : List Char}
    (h : badDigit? dot first cs = some index) : index < first + cs.length := by
  induction cs generalizing dot first with
  | nil => cases h
  | cons c cs ih =>
    rw [badDigit?] at h
    rw [List.length_cons]
    have hrest {dot : Bool} (h : badDigit? dot (first + 1) cs = some index) :
        index < first + (cs.length + 1) := by
      have hlt := ih h
      omega
    split at h
    · exact hrest h
    split at h
    · exact hrest h
    split at h
    · exact hrest h
    · cases h
      omega

theorem invalidAt?_lt {id : List Char} {index : Nat} (h : PortId.invalidAt? id = some index) :
    index < id.length := by
  unfold PortId.invalidAt? at h
  split at h
  · cases h
  · next c cs =>
    rw [List.length_cons]
    split at h
    · rcases Option.map_eq_some_iff.mp h with ⟨i, hi, rfl⟩
      exact Nat.succ_lt_succ (List.findIdx?_eq_some_iff_getElem.mp hi).1
    · cases h
      exact Nat.succ_pos _

theorem readLiteral_inside (hne : s.chars ≠ []) : Inside s (readLiteral s) := by
  have hinvalid (index : Nat) (h : index < s.chars.length) :
      Inside s (.error ⟨.invalidToken, some s.text, s.start + index⟩ : Except ParseError Expr) :=
    Inside.error (Nat.le_add_right ..) (add_lt_stop h)
  unfold readLiteral
  simp only
  split
  · exact Inside.ok _
  split
  · exact Inside.ok _
  split
  · next index hbad =>
    have hlt := badDigit?_lt hbad
    rw [Nat.zero_add] at hlt
    exact hinvalid index hlt
  · split
    · exact Inside.ok _
    · exact hinvalid 0 (List.length_pos_iff.mpr hne)

theorem readReference_inside : Inside s (readReference owner s) := by
  unfold readReference
  simp only
  split
  · exact Inside.ok _
  split
  · next index hinvalid =>
    have hlt := invalidAt?_lt hinvalid
    rw [List.length_drop] at hlt
    have hstop : s.start + (1 + index) < s.stop := add_lt_stop (by omega)
    rw [← Nat.add_assoc] at hstop
    exact Inside.error (Nat.le_trans (Nat.le_add_right ..) (Nat.le_add_right ..)) hstop
  · exact Inside.ok _

/-- The name of a call is a part of its span. -/
theorem readName_within {named : Func × Span} (h : readName s = .ok named) :
    named.2.Within s ∧ named.2.chars ≠ [] := by
  unfold readName at h
  simp only at h
  split at h
  · cases h
  next hne =>
  split at h
  · cases h
  split at h
  · cases h
  · cases Except.ok.inj h
    have hfront : (⟨s.start, s.chars.takeWhile (· ≠ '(')⟩ : Span).Within s :=
      ⟨[], s.chars.dropWhile (· ≠ '('), by simp, rfl⟩
    exact ⟨(Span.dropEnd_within Text.isAsciiBlank _).trans hfront, hne⟩

theorem start_lt_stop (hne : s.chars ≠ []) : s.start < s.stop := by
  have hfirst : s.start + 0 < s.stop := add_lt_stop (List.length_pos_iff.mpr hne)
  exact hfirst

theorem readName_inside (hopen : s.chars.contains '(' = true) : Inside s (readName s) := by
  rcases Span.exists_open hopen with ⟨front, rest, hchars, hfront⟩
  unfold readName
  simp only [hchars, Span.takeWhile_open hfront]
  have hname : (⟨s.start, (front.reverse.dropWhile Text.isAsciiBlank).reverse⟩ : Span).Within s :=
    (Span.dropEnd_within Text.isAsciiBlank ⟨s.start, front⟩).trans
      ⟨[], '(' :: rest, by simp [hchars], rfl⟩
  generalize (front.reverse.dropWhile Text.isAsciiBlank).reverse = name at hname ⊢
  split
  · refine Inside.error (Nat.le_add_right ..) ?_
    unfold Span.stop
    rw [hchars, Text.byteCount_append, Text.byteCount_cons]
    have hsize := Char.utf8Size_pos '('
    show s.start + Text.byteCount front < _
    omega
  next hne =>
  split
  · next index hbad =>
    refine Inside.mono (s := ⟨s.start, name⟩)
      (Inside.error (Nat.le_add_right ..) (add_lt_stop (s := ⟨s.start, name⟩) ?_)) hname
    exact (List.findIdx?_eq_some_iff_getElem.mp hbad).1
  split
  · exact Inside.mono (s := ⟨s.start, name⟩)
      (Inside.error (Nat.le_refl _) (start_lt_stop (s := ⟨s.start, name⟩) hne)) hname
  · exact Inside.ok _

theorem readParentheses_inside (hopen : s.chars.contains '(' = true) :
    Inside s (readParentheses s) := by
  rcases Span.exists_open hopen with ⟨front, rest, hchars, hfront⟩
  unfold readParentheses
  simp only [hchars, Span.takeWhile_open hfront, Span.dropWhile_open hfront, List.drop_succ_cons,
    List.drop_zero]
  have hstop : s.stop =
      s.start + (Text.byteCount front + ('('.utf8Size + Text.byteCount rest)) := by
    rw [← Text.byteCount_cons, ← Text.byteCount_append, ← hchars]
    rfl
  have hsize := Char.utf8Size_pos '('
  split
  · refine Inside.error (Nat.le_add_right ..) ?_
    show s.start + Text.byteCount front < s.stop
    omega
  · exact Inside.ok _
  · next pieces c after hsplit =>
    rcases Span.splitArguments_eq_some hsplit with ⟨-, hinner⟩
    have hle : Text.byteCount (c :: after) ≤ Text.byteCount rest :=
      Text.byteCount_le_of_suffix (hinner ▸ (List.suffix_cons _ _).trans (List.suffix_append ..))
    have hpos : 0 < Text.byteCount (c :: after) := by
      have hsize := c.utf8Size_pos
      rw [Text.byteCount_cons]
      omega
    refine Inside.error ?_ ?_
    · show s.start ≤ s.stop - Text.byteCount (c :: after)
      omega
    · show s.stop - Text.byteCount (c :: after) < s.stop
      omega

/-- Arguments are parts of the span of their call, and end before it does. -/
theorem readParentheses_within {spans : List Span} (hopen : s.chars.contains '(' = true)
    (h : readParentheses s = .ok spans) : ∀ t ∈ spans, t.Within s ∧ t.stop < s.stop := by
  rcases Span.exists_open hopen with ⟨front, rest, hchars, hfront⟩
  unfold readParentheses at h
  simp only [hchars, Span.takeWhile_open hfront, Span.dropWhile_open hfront, List.drop_succ_cons,
    List.drop_zero] at h
  split at h
  · cases h
  · next pieces hsplit =>
    rcases Span.splitArguments_eq_some hsplit with ⟨-, hinner⟩
    cases Except.ok.inj h
    intro t ht
    have harguments := Span.arguments_within _ _ t ht
    have hinside : (⟨s.start + Text.byteCount front + 1, [','].intercalate pieces⟩ : Span).Within
        s := by
      refine ⟨front ++ ['('], [')'], ?_, ?_⟩
      · rw [hchars, hinner]
        simp
      · rw [Text.byteCount_append, ← Nat.add_assoc]
        rfl
    refine ⟨harguments.trans hinside, Nat.lt_of_le_of_lt harguments.stop_le ?_⟩
    unfold Span.stop
    rw [hchars, hinner]
    simp only [Text.byteCount_append, Text.byteCount_cons, Text.byteCount_nil]
    have hopening : '('.utf8Size = 1 := rfl
    have hclosing : ')'.utf8Size = 1 := rfl
    omega
  · cases h

theorem readArguments_inside {reader : Span → Except ParseError Expr} {spans : List Span}
    (hreader : ∀ t : Span, t.trim.chars ≠ [] → Inside t.trim (reader t.trim))
    (hspans : ∀ t ∈ spans, t.Within s ∧ t.stop < s.stop) :
    Inside s (readArguments reader spans) := by
  induction spans with
  | nil => exact Inside.ok _
  | cons t rest ih =>
    rcases hspans t List.mem_cons_self with ⟨hwithin, hstop⟩
    have htrim : t.trim.Within s := t.trim_within.trans hwithin
    rw [readArguments]
    split
    · refine Inside.error htrim.start_le (Nat.lt_of_le_of_lt ?_ hstop)
      exact Nat.le_trans (Nat.le_add_right ..) t.trim_within.stop_le
    · next hne =>
      refine ((hreader t hne).mono htrim).bind fun e _ => ?_
      refine (ih fun u hu => hspans u (List.mem_cons_of_mem t hu)).bind fun es _ => ?_
      exact Inside.ok _

/-- An error of a span that is not blank is between the blanks around it. -/
theorem read_inside (hne : s.trim.chars ≠ []) : Inside s.trim (read owner room s) := by
  induction room using Nat.strongRecOn generalizing s with
  | ind room ih =>
    rw [read.eq_def]
    simp only
    have hagain (t : Span) (h : t.trim.chars ≠ []) (inner : Nat) (hinner : inner < room) :
        Inside t.trim (read owner inner t.trim) :=
      (ih inner hinner (by rwa [Span.trim_trim_chars])).mono t.trim.trim_within
    generalize s.trim = s at hne ⊢
    split
    · next hempty => exact absurd hempty hne
    · exact readReference_inside
    split
    · next hopen =>
      refine (readName_inside hopen).bind fun named hnamed => ?_
      rcases readName_within hnamed with ⟨hname, hletters⟩
      -- what is wrong with the whole of a call is reported at its name
      have hcall (fault : ParseFault) (α : Type) :
          Inside s (.error ⟨fault, some named.2.text, named.2.start⟩ : Except ParseError α) :=
        (Inside.error (Nat.le_refl _) (start_lt_stop hletters)).mono hname
      cases room with
      | zero => exact hcall .tooDeep Expr
      | succ inner =>
        refine (readParentheses_inside hopen).bind fun spans hspans => ?_
        refine (readArguments_inside (fun t ht => hagain t ht inner (Nat.lt_succ_self inner))
          (readParentheses_within hopen hspans)).bind fun args _ => ?_
        split
        · exact Inside.ok _
        · exact hcall .invalidArgumentCount Expr
    · split
      · exact readLiteral_inside hne
      · next c rest hdrop =>
        have hchars := List.takeWhile_append_dropWhile (p := fun c => decide (c ≠ ')' ∧ c ≠ ','))
          (l := s.chars)
        rw [hdrop] at hchars
        refine Inside.error (Nat.le_add_right ..) ?_
        unfold Span.stop
        conv => rhs; rw [← hchars, Text.byteCount_append, Text.byteCount_cons]
        have hsize := c.utf8Size_pos
        show s.start + Text.byteCount _ < _
        omega

/-- An error is at a position of the span, and at its end only when the span is blank. -/
theorem read_position {err : ParseError} (h : read owner room s = .error err) :
    s.start ≤ err.position ∧ err.position ≤ s.stop ∧
      (err.position < s.stop ∨ s.chars.all Text.isAsciiBlank = true) := by
  by_cases hblank : s.trim.chars = []
  · have hall := Span.all_blank hblank
    rw [read.eq_def] at h
    simp only [hblank] at h
    cases h
    refine ⟨s.trim_within.start_le, Nat.le_of_eq (Span.trim_start_of_blank hall), Or.inr hall⟩
  · rcases (read_inside hblank).mono s.trim_within err h with ⟨hstart, hstop⟩
    exact ⟨hstart, Nat.le_of_lt hstop, Or.inl hstop⟩

end Expr

end PortLogic
