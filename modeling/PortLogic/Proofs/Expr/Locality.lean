import PortLogic.Proofs.Expr.Range

/-!
# PortLogic.Proofs.Expr.Locality — a range reads as its text

Between character boundaries a checked reading is not refused, and reads what `Expr.read` reads from
the span (`read_yields`). So a range of a source reads as its text does on its own, with the errors
as much further on as the range starts (`read_range`).

One slice may end inside a character: the single byte that is shown when something follows the
closing parenthesis of a call. It is decoded with `Text.lossy?`; as a slice of the text it would be
refused (`following_byte_is_no_slice`).
-/

namespace PortLogic

namespace ByteRange

variable {source : List Char} {s : Span} {owner : String} {room : Nat} {α β γ : Type}

/-! ## Agreement -/

/-- A checked reading is not refused, and yields what another reading yields. -/
def Yields (x : Checked α) (y : Except ParseError α) : Prop :=
  x.run = some y

theorem Yields.lift {o : Option β} {b : β} {f : β → Checked α} {y : Except ParseError α}
    (ho : o = some b) (hf : Yields (f b) y) : Yields ((liftM o : Checked β) >>= f) y := by
  rw [ho]
  exact hf

/-- Two readings in sequence, of which the first yields the same in another form. -/
theorem Yields.bind {x : Checked β} {y : Except ParseError γ} {k : γ → β} {f : β → Checked α}
    {g : γ → Except ParseError α} (hx : Yields x (y.map k))
    (hf : ∀ c, y = .ok c → Yields (f (k c)) (g c)) : Yields (x >>= f) (y >>= g) := by
  unfold Yields at hx ⊢
  rw [ExceptT.run_bind, hx]
  cases y with
  | error err => rfl
  | ok c => exact hf c rfl

theorem Yields.and_then {x : Checked β} {y : Except ParseError β} {f : β → Checked α}
    {g : β → Except ParseError α} (hx : Yields x y)
    (hf : ∀ b, y = .ok b → Yields (f b) (g b)) : Yields (x >>= f) (y >>= g) := by
  refine Yields.bind (k := id) ?_ hf
  cases y <;> exact hx

theorem fail_yields (hs : s.Within ⟨0, source⟩) (fault : ParseFault) (position : Nat) :
    Yields (fail source fault s.range position : Checked α)
      (.error ⟨fault, some s.text, position⟩) :=
  Yields.lift (text?_range hs) rfl

theorem readLiteral_yields (hs : s.Within ⟨0, source⟩) :
    Yields (readLiteral source s.range) (Expr.readLiteral s) := by
  refine Yields.lift (text?_range hs) ?_
  unfold Expr.readLiteral
  simp only
  by_cases htrue : s.chars = ['t', 'r', 'u', 'e']
  · rw [if_pos htrue, if_pos htrue]
    rfl
  rw [if_neg htrue, if_neg htrue]
  by_cases hfalse : s.chars = ['f', 'a', 'l', 's', 'e']
  · rw [if_pos hfalse, if_pos hfalse]
    rfl
  rw [if_neg hfalse, if_neg hfalse, badDigit?_codes]
  cases Expr.badDigit? false 0 s.chars with
  | some index => exact fail_yields hs _ _
  | none =>
    simp only
    split
    · rfl
    · exact fail_yields hs _ _

theorem readReference_yields {id : List Char} (hs : s.Within ⟨0, source⟩)
    (hchars : s.chars = '$' :: id) :
    Yields (readReference source owner s.range) (Expr.readReference owner s) := by
  have hid : (⟨s.start + 1, id⟩ : Span).Within s := ⟨['$'], [], by simp [hchars], rfl⟩
  have hrange : (⟨s.range.start + 1, s.range.stop⟩ : ByteRange) =
      (⟨s.start + 1, id⟩ : Span).range := by
    unfold Span.range Span.stop
    rw [hchars, Text.byteCount_cons, ← Nat.add_assoc]
    rfl
  unfold readReference Expr.readReference
  rw [hrange, hchars, List.drop_succ_cons, List.drop_zero]
  refine Yields.lift (text?_range (hid.trans hs)) ?_
  simp only
  by_cases howner : id = []
  · rw [if_pos howner, if_pos howner]
    rfl
  rw [if_neg howner, if_neg howner, invalidAt?_codes]
  cases PortId.invalidAt? id with
  | some index => exact fail_yields hs _ _
  | none => rfl

/-- Names are read between the start of a span and its first parenthesis. -/
theorem readName_yields {front rest : List Char} (hs : s.Within ⟨0, source⟩)
    (hhead : ∀ c ∈ s.chars.head?, Text.isAsciiBlank c = false)
    (hchars : s.chars = front ++ '(' :: rest) (hfront : '(' ∉ front) :
    Yields (readName source s.start (s.start + Text.byteCount front))
      ((Expr.readName s).map fun (func, name) => (func, name.range)) := by
  have hbefore : (⟨s.start, front⟩ : Span).Within ⟨0, source⟩ :=
    Span.Within.trans ⟨[], '(' :: rest, by simp [hchars], rfl⟩ hs
  -- the front does not start with blanks, so that trimming it leaves its start where it is
  have htrim : (⟨s.start, front⟩ : Span).trim =
      ⟨s.start, (front.reverse.dropWhile Text.isAsciiBlank).reverse⟩ := by
    unfold Span.trim Span.dropWhile
    cases front with
    | nil => rfl
    | cons c front =>
      rw [hchars] at hhead
      have hc : ¬Text.isAsciiBlank c = true := by simp [hhead c rfl]
      simp only [List.takeWhile_cons_of_neg hc, List.dropWhile_cons_of_neg hc]
      rfl
  have hname := (⟨s.start, front⟩ : Span).trim_within.trans hbefore
  refine Yields.lift (trim?_range hbefore) ?_
  unfold Expr.readName
  simp only [hchars, Span.takeWhile_open hfront]
  rw [htrim] at hname ⊢
  generalize (front.reverse.dropWhile Text.isAsciiBlank).reverse = name at hname ⊢
  show Yields (if s.start = s.start + Text.byteCount name then _ else _) _
  by_cases hempty : name = []
  · rw [if_pos hempty, if_pos (by rw [hempty]; rfl)]
    rfl
  have hlt : s.start < s.start + Text.byteCount name :=
    Expr.start_lt_stop (s := ⟨s.start, name⟩) hempty
  rw [if_neg hempty, if_neg (Nat.ne_of_lt hlt)]
  refine Yields.lift (text?_range hname) ?_
  simp only [badNameChar?_codes]
  cases Expr.badNameChar? name with
  | some index => exact fail_yields hname _ _
  | none =>
    cases Func.ofName? name with
    | none => exact fail_yields hname _ _
    | some func => rfl

/-- What follows a call shows as its first byte. -/
theorem lossy?_after (front : List Char) {after : List Char} {c : Char}
    (hs : s.Within ⟨0, source⟩) (hchars : s.chars = front ++ c :: after) :
    Text.lossy? source (s.start + Text.byteCount front) (s.start + Text.byteCount front + 1) =
      some [if c.toNat < 128 then c else '\ufffd'] := by
  rcases hs with ⟨before, back, hsource, hstart⟩
  have hall : source = before ++ front ++ c :: (after ++ back) := by
    rw [show source = before ++ s.chars ++ back from hsource, hchars]
    simp
  have hcount : s.start + Text.byteCount front = Text.byteCount (before ++ front) := by
    rw [hstart, Text.byteCount_append, Nat.zero_add]
  have hshown := Text.lossy?_first (before ++ front) c (after ++ back)
  rw [hcount, hall, hshown]
  simp only [Text.toNat_lt_iff]

theorem arguments_yields {start : Nat} {pieces : List (List Char)}
    (hs : (⟨start, [','].intercalate pieces⟩ : Span).Within ⟨0, source⟩) :
    Yields (arguments source ((Span.ofPieces start pieces).map Span.range))
      (.ok ((Span.arguments start pieces).map Span.range)) := by
  match pieces with
  | [] => rfl
  | [piece] =>
    rw [List.intercalate_singleton] at hs
    refine Yields.lift (trim?_range hs) ?_
    show Yields (pure (if (⟨start, piece⟩ : Span).trim.start = (⟨start, piece⟩ : Span).stop then []
      else [(⟨start, piece⟩ : Span).range]))
      (.ok ((if piece.all Text.isAsciiBlank then [] else [⟨start, piece⟩]).map Span.range))
    by_cases hblank : piece.all Text.isAsciiBlank = true
    · rw [if_pos hblank, if_pos (Span.trim_start_of_blank hblank)]
      rfl
    · have hne : (⟨start, piece⟩ : Span).trim.chars ≠ [] := fun hnil => hblank (Span.all_blank hnil)
      have hlt := Nat.lt_of_lt_of_le (Expr.start_lt_stop hne) (Span.trim_within _).stop_le
      rw [if_neg hblank, if_neg (Nat.ne_of_lt hlt)]
      rfl
  | _ :: _ :: _ => rfl

theorem toString_eq (c : Char) : c.toString = String.ofList [c] :=
  String.toByteArray_inj.mp rfl

/-- The offset of the closing parenthesis of a call, told from its start and from its end. -/
theorem exists_close {front rest inside after : List Char} (hchars : s.chars = front ++ '(' :: rest)
    (hinner : rest = inside ++ ')' :: after) :
    ∃ close, close + 1 = s.start + Text.byteCount (front ++ '(' :: (inside ++ [')'])) ∧
      close + 1 = s.stop - Text.byteCount after ∧
      close =
        s.start + Text.byteCount front + 1 + Text.byteCount rest - Text.byteCount after - 1 := by
  have hopening : '('.utf8Size = 1 := rfl
  have hclosing : ')'.utf8Size = 1 := rfl
  refine ⟨s.start + Text.byteCount front + 1 + Text.byteCount inside, ?_, ?_, ?_⟩
  · simp only [Text.byteCount_append, Text.byteCount_cons, Text.byteCount_nil]
    omega
  · simp only [Span.stop, hchars, hinner, Text.byteCount_append, Text.byteCount_cons]
    omega
  · simp only [hinner, Text.byteCount_append, Text.byteCount_cons]
    omega

theorem readParentheses_yields {front rest : List Char} (hs : s.Within ⟨0, source⟩)
    (hchars : s.chars = front ++ '(' :: rest) (hfront : '(' ∉ front) :
    Yields (readParentheses (Text.lossy? source) source (s.start + Text.byteCount front) s.stop)
      ((Expr.readParentheses s).map (List.map Span.range)) := by
  have hrest : (⟨s.start + Text.byteCount front + 1, rest⟩ : Span).Within ⟨0, source⟩ := by
    refine Span.Within.trans ⟨front ++ ['('], [], by simp [hchars], ?_⟩ hs
    rw [Text.byteCount_append, ← Nat.add_assoc]
    rfl
  have hstop : s.stop = s.start + Text.byteCount front + 1 + Text.byteCount rest := by
    rw [Span.stop, hchars, Text.byteCount_append, Text.byteCount_cons, ← Nat.add_assoc,
      ← Nat.add_assoc]
    rfl
  unfold readParentheses Expr.readParentheses
  rw [hstop, Nat.add_sub_cancel_left, ← hstop]
  refine Yields.lift (split?_eq 0 _ hrest) ?_
  simp only [hchars, Span.takeWhile_open hfront, Span.dropWhile_open hfront, List.drop_succ_cons,
    List.drop_zero]
  cases hsplit : Span.splitArguments 0 rest with
  | none => rfl
  | some found =>
    rcases found with ⟨pieces, after⟩
    rcases Span.splitArguments_eq_some hsplit with ⟨-, hinner⟩
    rcases exists_close hchars hinner with ⟨close, hbefore, hback, hclose⟩
    simp only [Option.map_some, ofSplit, ofPieces_self, ← hclose]
    cases after with
    | nil =>
      rw [Text.byteCount_nil, Nat.sub_zero] at hback
      rw [hback, if_neg (Nat.lt_irrefl _)]
      refine arguments_yields (Span.Within.trans ⟨[], [')'], ?_, rfl⟩ hrest)
      rw [List.nil_append, hinner]
    | cons c after =>
      have hlt : close + 1 < s.stop := by
        have hsize := c.utf8Size_pos
        rw [Text.byteCount_cons] at hback
        omega
      have hfollows : s.chars =
          (front ++ '(' :: ([','].intercalate pieces ++ [')'])) ++ c :: after := by
        simp [hchars, hinner]
      have hshown := lossy?_after _ hs hfollows
      rw [← hbefore] at hshown
      rw [if_pos hlt]
      refine Yields.lift hshown ?_
      show Yields (throw _)
        (.error ⟨_, some (Char.toString _), s.stop - Text.byteCount (c :: after)⟩)
      rw [toString_eq, ← hback]
      rfl

theorem readArguments_yields {checked : ByteRange → Checked Expr}
    {reader : Span → Except ParseError Expr} {spans : List Span}
    (hreader : ∀ t : Span, t.Within ⟨0, source⟩ → Yields (checked t.range) (reader t))
    (hspans : ∀ t ∈ spans, t.Within ⟨0, source⟩) :
    Yields (readArguments source checked (spans.map Span.range))
      (Expr.readArguments reader spans) := by
  induction spans with
  | nil => rfl
  | cons t rest ih =>
    have ht := hspans t List.mem_cons_self
    rw [List.map_cons, readArguments, Expr.readArguments]
    refine Yields.lift (trim?_range ht) ?_
    by_cases hempty : t.trim.chars = []
    · rw [if_pos hempty, if_pos (start_eq_stop_iff.mpr hempty)]
      rfl
    rw [if_neg hempty, if_neg (mt start_eq_stop_iff.mp hempty)]
    refine (hreader t.trim (t.trim_within.trans ht)).and_then fun e _ => ?_
    refine (ih fun u hu => hspans u (List.mem_cons_of_mem t hu)).and_then fun es _ => ?_
    rfl

/-- A character in ASCII is the byte where it stands, and a range of its own. -/
theorem stray_yields {front after : List Char} {c : Char} (hs : s.Within ⟨0, source⟩)
    (hchars : s.chars = front ++ c :: after) (hlow : c.toNat < 128) :
    byte? source (s.start + Text.byteCount front) = some c ∧
      ∀ fault, Yields (fail source fault ⟨s.start + Text.byteCount front,
          s.start + Text.byteCount front + 1⟩ (s.start + Text.byteCount front) : Checked α)
        (.error ⟨fault, some c.toString, s.start + Text.byteCount front⟩) := by
  obtain ⟨d, hat, hshows⟩ := byte?_shows hs front hchars c.utf8Size_pos
  rw [(hshows.eq_iff hlow).mpr rfl] at hat
  refine ⟨hat, fun fault => ?_⟩
  have hpart : (⟨s.start + Text.byteCount front, [c]⟩ : Span).Within ⟨0, source⟩ :=
    Span.Within.trans ⟨front, after, by simp [hchars], rfl⟩ hs
  have hsize : Text.byteCount [c] = 1 := Text.toNat_lt_iff.mp hlow
  have hfail := fail_yields (α := α) hpart fault (s.start + Text.byteCount front)
  unfold Span.range Span.stop at hfail
  rw [hsize] at hfail
  rw [toString_eq]
  exact hfail

/-- Nothing is refused in a part of the source, when nothing is in the arguments of a call. -/
theorem readWith_yields {inner : Option (ByteRange → Checked Expr)} (hs : s.Within ⟨0, source⟩)
    (hinner : inner = none ∧ room = 0 ∨ ∃ reader less, inner = some reader ∧ room = less + 1 ∧
      ∀ t : Span, t.Within ⟨0, source⟩ → Yields (reader t.range) (Expr.read owner less t)) :
    Yields (readWith (Text.lossy? source) source owner inner s.range)
      (Expr.read owner room s) := by
  have htrim := trim?_range hs
  have hhead := s.trim_head?
  have ht := s.trim_within.trans hs
  generalize hchecked : readWith (Text.lossy? source) source owner inner s.range = checked
  rw [Expr.read.eq_def]
  simp only
  generalize s.trim = t at htrim hhead ht ⊢
  split
  · -- nothing but blanks
    next hempty =>
    rw [← hchecked, readWith]
    refine Yields.lift htrim ?_
    rw [if_pos (start_eq_stop_iff.mpr hempty)]
    rfl
  · -- a reference
    next id hchars =>
    rw [← hchecked, readWith]
    refine Yields.lift htrim ?_
    rw [if_neg (mt start_eq_stop_iff.mp (hchars ▸ List.cons_ne_nil _ _))]
    obtain ⟨d, hbyte, hshows⟩ := byte?_shows ht [] hchars (Char.utf8Size_pos _)
    refine Yields.lift hbyte ?_
    rw [if_pos ((hshows.eq_iff (by decide)).mpr rfl)]
    exact readReference_yields ht hchars
  next hne hfirst =>
  rw [← hchecked, readWith]
  refine Yields.lift htrim ?_
  rw [if_neg (mt start_eq_stop_iff.mp hne)]
  obtain ⟨c, cs, hchars⟩ := List.exists_cons_of_ne_nil hne
  obtain ⟨d, hbyte, hshows⟩ := byte?_shows ht [] hchars c.utf8Size_pos
  refine Yields.lift hbyte ?_
  have hdollar : ¬d = '$' := by
    rw [hshows.eq_iff (by decide)]
    intro heq
    exact hfirst cs (heq ▸ hchars)
  rw [if_neg hdollar]
  by_cases hcall : t.chars.contains '(' = true
  · -- a call, of which the arguments are read as the spans that are theirs
    rcases Span.exists_open hcall with ⟨front, rest, hsplit, hfront⟩
    rw [if_pos hcall]
    refine Yields.lift (find?_open ht hsplit hfront) ?_
    refine (readName_yields ht hhead hsplit hfront).bind fun named hnamed => ?_
    have hname := (Expr.readName_within hnamed).1.trans ht
    rcases named with ⟨func, name⟩
    rcases hinner with ⟨rfl, rfl⟩ | ⟨reader, less, rfl, rfl, hreader⟩
    · exact fail_yields hname _ _
    · refine (readParentheses_yields ht hsplit hfront).bind fun spans hspans => ?_
      have hargs := readArguments_yields hreader fun u hu =>
        (Expr.readParentheses_within hcall hspans u hu).1.trans ht
      refine hargs.and_then fun args _ => ?_
      split
      · rfl
      · exact fail_yields hname _ _
  · -- a literal, unless something stands in it that belongs to a call
    rw [if_neg hcall]
    refine Yields.lift (find?_no_open ht hcall) ?_
    refine Yields.lift (find?_stray ht) ?_
    cases hstray : t.chars.dropWhile fun c => decide (c ≠ ')' ∧ c ≠ ',') with
    | nil =>
      rw [if_pos rfl]
      exact readLiteral_yields ht
    | cons stray after =>
      rw [if_neg (List.cons_ne_nil _ _)]
      have hsplit := List.takeWhile_append_dropWhile (p := fun c => decide (c ≠ ')' ∧ c ≠ ','))
        (l := t.chars)
      rw [hstray] at hsplit
      rcases stray_yields ht hsplit.symm (stray_ascii hstray) with ⟨hat, hfail⟩
      exact Yields.lift hat (hfail _)

/-- Nothing is refused in a part of the source, and what is read is what is read from the span. -/
theorem read_yields (hs : s.Within ⟨0, source⟩) :
    Yields (read (Text.lossy? source) source owner room s.range) (Expr.read owner room s) := by
  induction room generalizing s with
  | zero => exact readWith_yields hs (Or.inl ⟨rfl, rfl⟩)
  | succ room ih => exact readWith_yields hs (Or.inr ⟨_, room, rfl, rfl, fun _ ht => ih ht⟩)

/-! ## Locality -/

/-- A range between character boundaries is read without an index or a slice out of range, and as
its text is on its own: as the same tree, or with the same fault and token as much further on as the
range starts. The position of an error is inside the range, and at its end only when the range is
blank. -/
theorem read_range (owner source : String) (nesting start stop : Nat)
    (hstart : (⟨start⟩ : String.Pos.Raw).IsValid source)
    (hstop : (⟨stop⟩ : String.Pos.Raw).IsValid source) (hle : start ≤ stop) :
    ∃ (text : String) (alone inside : Except ParseError Expr),
      text? source.toList ⟨start, stop⟩ = some text.toList ∧
      (read (Text.lossy? text.toList) text.toList owner (Expr.maxNesting - nesting)
        ⟨0, text.utf8ByteSize⟩).run = some alone ∧
      (read (Text.lossy? source.toList) source.toList owner (Expr.maxNesting - nesting)
        ⟨start, stop⟩).run = some inside ∧
      alone = Expr.read owner (Expr.maxNesting - nesting) (Span.ofSource text) ∧
      inside = alone.mapError (ParseError.shift start) ∧
      ∀ err, inside = .error err → start ≤ err.position ∧ err.position ≤ stop ∧
        (err.position < stop ∨ text.toList.all Text.isAsciiBlank = true) := by
  obtain ⟨text, htext⟩ := Text.exists_slice? hstart hstop hle
  obtain ⟨before, after, hsource, hcount, hend⟩ := Text.slice?_eq_some.mp htext
  -- the range of the source, and the whole of the text, as spans
  have hinside : ((Span.ofSource text).shift start).Within ⟨0, source.toList⟩ := by
    refine ⟨before, after, hsource, ?_⟩
    show 0 + start = 0 + Text.byteCount before
    rw [hcount]
  have hrange : ((Span.ofSource text).shift start).range = ⟨start, stop⟩ := by
    unfold Span.range
    rw [Span.shift_stop, Span.shift_start]
    show (⟨0 + start, 0 + Text.byteCount text.toList + start⟩ : ByteRange) = _
    rw [Nat.zero_add, Nat.zero_add, Nat.add_comm, hend]
  have hwhole : (Span.ofSource text).range = ⟨0, text.utf8ByteSize⟩ := by
    rw [Text.utf8ByteSize_eq]
    exact congrArg (ByteRange.mk 0) (Nat.zero_add _)
  have hshift := Expr.read_shift owner (Expr.maxNesting - nesting) start (Span.ofSource text)
  refine ⟨text, _, _, htext, ?_, ?_, rfl, hshift, ?_⟩
  · rw [← hwhole]
    exact read_yields (Span.Within.refl (Span.ofSource text))
  · rw [← hrange]
    exact read_yields hinside
  · intro err herr
    have hposition := Expr.read_position herr
    rw [← show _ = start from congrArg ByteRange.start hrange,
      ← show _ = stop from congrArg ByteRange.stop hrange]
    exact hposition

/-- A call inside a longer text: what follows its closing parenthesis is reported at its offset in
the text. -/
theorem read_range_after_comma :
    (⟨4⟩ : String.Pos.Raw).IsValid "é, ADD(1,2)é" ∧
      (⟨14⟩ : String.Pos.Raw).IsValid "é, ADD(1,2)é" ∧
      (read (Text.lossy? "é, ADD(1,2)é".toList) "é, ADD(1,2)é".toList "p" Expr.maxNesting
        ⟨4, 14⟩).run = some (.error ⟨.unexpectedCharacter, some "\ufffd", 12⟩) := by
  have hstart : (⟨4⟩ : String.Pos.Raw).IsValid "é, ADD(1,2)é" := by decide
  have hstop : (⟨14⟩ : String.Pos.Raw).IsValid "é, ADD(1,2)é" := by decide
  refine ⟨hstart, hstop, ?_⟩
  obtain ⟨text, alone, inside, htext, -, hinside, halone, hshift, -⟩ :=
    read_range "p" "é, ADD(1,2)é" 0 4 14 hstart hstop (by decide)
  have hslice : text? "é, ADD(1,2)é".toList ⟨4, 14⟩ = some "ADD(1,2)é".toList := by
    decide +kernel
  have hsame : text = "ADD(1,2)é" :=
    String.toList_inj.mp (Option.some.inj (htext.symm.trans hslice))
  rw [hsame] at halone
  have hfails : (match Expr.read "p" Expr.maxNesting (Span.ofSource "ADD(1,2)é") with
      | .error err => err == ⟨.unexpectedCharacter, some "\ufffd", 8⟩
      | .ok _ => false) = true := by
    decide +kernel
  refine hinside.trans ?_
  rw [hshift, halone, Nat.sub_zero]
  cases hread : Expr.read "p" Expr.maxNesting (Span.ofSource "ADD(1,2)é") with
  | ok e =>
    rw [hread] at hfails
    cases hfails
  | error err =>
    rw [hread] at hfails
    rw [eq_of_beq hfails]
    rfl

/-- The byte that is shown after a call is not a slice of the text when it is a part of a
character. -/
theorem following_byte_is_no_slice :
    ¬∀ (owner source : String) (nesting start stop : Nat),
      (⟨start⟩ : String.Pos.Raw).IsValid source → (⟨stop⟩ : String.Pos.Raw).IsValid source →
        start ≤ stop → ∃ outcome,
          (read (Text.slice? source.toList) source.toList owner (Expr.maxNesting - nesting)
            ⟨start, stop⟩).run = some outcome := by
  intro h
  obtain ⟨outcome, hread⟩ := h "p" "ADD(1,2)é" 0 0 10 (by decide) (by decide) (by decide)
  have hrefused : ((read (Text.slice? "ADD(1,2)é".toList) "ADD(1,2)é".toList "p"
      (Expr.maxNesting - 0) ⟨0, 10⟩).run).isNone = true := by
    decide +kernel
  rw [hread] at hrefused
  cases hrefused

end ByteRange

end PortLogic
