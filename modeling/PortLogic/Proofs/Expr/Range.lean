import PortLogic.Proofs.Expr.Position

/-!
# PortLogic.Proofs.Expr.Range — reading between byte offsets

A range of a source is read by looking at single bytes and cutting out slices. Here every index and
every slice is checked: `ByteRange.read` is refused by an index out of range, and by a slice that is
out of range or ends inside a character.

1. **Checked reading**: the steps of a reading between byte offsets.
2. **Predicates**: what is tested of a byte holds of characters in ASCII only, so that bytes pass
   and fail the tests where characters do.
3. **Loops**: in a part of the source, going over bytes is going over the characters of a span.
-/

namespace PortLogic

/-- Offsets of the first byte of a stretch and of the one after its last. -/
structure ByteRange where
  start : Nat
  stop : Nat
deriving DecidableEq

/-- The offsets of a span. -/
def Span.range (s : Span) : ByteRange :=
  ⟨s.start, s.stop⟩

/-- A reading that may fail, and may be refused. -/
abbrev Checked : Type → Type :=
  ExceptT ParseError Option

namespace ByteRange

/-! ## Checked reading -/

/-- The byte at an offset. -/
def byte? (source : List Char) (pos : Nat) : Option Char :=
  (Text.codes source)[pos]?

/-- The text of a range. -/
def text? (source : List Char) (r : ByteRange) : Option (List Char) :=
  Text.slice? source r.start r.stop

/-- Goes over blanks, up to so many bytes. -/
def skipBlanks? (source : List Char) : (start left : Nat) → Option Nat
  | start, 0 => some start
  | start, left + 1 => do
    let c ← byte? source start
    if Text.isAsciiBlank c then skipBlanks? source (start + 1) left else some start

/-- Goes back over blanks to the end of what stands before them. -/
def dropBlanks? (source : List Char) (start : Nat) : (left : Nat) → Option Nat
  | 0 => some start
  | left + 1 => do
    let c ← byte? source (start + left)
    if Text.isAsciiBlank c then dropBlanks? source start left else some (start + (left + 1))

/-- A range without the blanks around it. -/
def trim? (source : List Char) (r : ByteRange) : Option ByteRange := do
  let start ← skipBlanks? source r.start (r.stop - r.start)
  let stop ← dropBlanks? source start (r.stop - start)
  some ⟨start, stop⟩

/-- The offset of the first byte in a range with a property. -/
def find? (source : List Char) (p : Char → Bool) (r : ByteRange) : Option (Option Nat) := do
  let text ← text? source r
  some (((Text.codes text).findIdx? p).map (r.start + ·))

/-- Splits so many bytes at the commas outside inner parentheses: the ranges between them, and the
offset of the closing parenthesis. The inner none tells that there is none. -/
def split? (source : List Char) :
    (depth first pos left : Nat) → Option (Option (List ByteRange × Nat))
  | _, _, _, 0 => some none
  | depth, first, pos, left + 1 => do
    let c ← byte? source pos
    if c = '(' then split? source (depth + 1) first (pos + 1) left
    else if c = ')' then
      if depth = 0 then some (some ([⟨first, pos⟩], pos))
      else split? source (depth - 1) first (pos + 1) left
    else if c = ',' ∧ depth = 0 then do
      let found ← split? source 0 (pos + 1) (pos + 1) left
      some (found.map fun (ranges, close) => (⟨first, pos⟩ :: ranges, close))
    else split? source depth first (pos + 1) left

/-- Fails at a position with the text of a range, which its bytes decode to
(`Text.lossy?_of_slice?`). -/
def fail {α : Type} (source : List Char) (fault : ParseFault) (r : ByteRange) (position : Nat) :
    Checked α := do
  let text ← text? source r
  throw ⟨fault, some (String.ofList text), position⟩

/-- Reads a number or a truth value. -/
def readLiteral (source : List Char) (r : ByteRange) : Checked Expr := do
  let text ← text? source r
  if text = ['t', 'r', 'u', 'e'] then return .literal 1
  else if text = ['f', 'a', 'l', 's', 'e'] then return .literal 0
  else
    match Expr.badDigit? false 0 (Text.codes text) with
    | some index => fail source .invalidToken r (r.start + index)
    | none =>
      let value := Number.ofDecimal (text.head? = some '-') (Expr.decimalOf text)
      if text.any Char.isDigit ∧ value.isFinite then return .literal value
      else fail source .invalidToken r r.start

/-- Reads what follows the `$` at the start of a range. -/
def readReference (source : List Char) (owner : String) (r : ByteRange) : Checked Expr := do
  let id ← text? source ⟨r.start + 1, r.stop⟩
  if id = [] then return .port owner
  else
    match PortId.invalidAt? (Text.codes id) with
    | some index => fail source .invalidToken r (r.start + 1 + index)
    | none => return .port (String.ofList id)

/-- Reads the name of a call between the start of its range and its first parenthesis. -/
def readName (source : List Char) (start opening : Nat) : Checked (Func × ByteRange) := do
  let trimmed ← trim? source ⟨start, opening⟩
  let name : ByteRange := ⟨start, trimmed.stop⟩
  if name.start = name.stop then throw ⟨.unexpectedCharacter, some "(", opening⟩
  else
    let letters ← text? source name
    match Expr.badNameChar? (Text.codes letters) with
    | some index => fail source .invalidToken name (name.start + index)
    | none =>
      match Func.ofName? letters with
      | none => fail source .unknownFunction name name.start
      | some func => return (func, name)

/-- The arguments in a list of ranges; a single blank range is no argument. -/
def arguments (source : List Char) : List ByteRange → Checked (List ByteRange)
  | [only] => do
    let trimmed ← trim? source only
    return if trimmed.start = only.stop then [] else [only]
  | ranges => return ranges

/-- The ranges of the arguments between the parentheses of a call. `shown` cuts out the byte that
follows the closing one. -/
def readParentheses (shown : Nat → Nat → Option (List Char)) (source : List Char)
    (opening stop : Nat) : Checked (List ByteRange) := do
  match ← split? source 0 (opening + 1) (opening + 1) (stop - (opening + 1)) with
  | none => throw ⟨.unbalancedParentheses, some "(", opening⟩
  | some (ranges, close) =>
    if close + 1 < stop then
      let text ← shown (close + 1) (close + 2)
      throw ⟨.unexpectedCharacter, some (String.ofList text), close + 1⟩
    else arguments source ranges

/-- Reads the arguments of a call in order. -/
def readArguments (source : List Char) (read : ByteRange → Checked Expr) :
    List ByteRange → Checked (List Expr)
  | [] => return []
  | r :: rest => do
    let trimmed ← trim? source r
    if trimmed.start = trimmed.stop then throw ⟨.emptyArgument, none, trimmed.start⟩
    else
      let e ← read trimmed
      let es ← readArguments source read rest
      return e :: es

/-- Reads a range of a source. `inner` reads the arguments of a call, when there is room for
them. -/
def readWith (shown : Nat → Nat → Option (List Char)) (source : List Char) (owner : String)
    (inner : Option (ByteRange → Checked Expr)) (r : ByteRange) : Checked Expr := do
  let r ← trim? source r
  if r.start = r.stop then throw ⟨.empty, none, r.start⟩
  else
    let first ← byte? source r.start
    if first = '$' then readReference source owner r
    else
      match ← find? source (fun c => c = '(') r with
      | some opening =>
        let (func, name) ← readName source r.start opening
        match inner with
        | none => fail source .tooDeep name name.start
        | some reader =>
          let ranges ← readParentheses shown source opening r.stop
          let args ← readArguments source reader ranges
          if func.arity.accepts args.length then return Expr.fresh func args
          else fail source .invalidArgumentCount name name.start
      | none =>
        match ← find? source (fun c => c = ')' || c = ',') r with
        | some pos =>
          let c ← byte? source pos
          let fault := if c = ')' then .unbalancedParentheses else .unexpectedCharacter
          fail source fault ⟨pos, pos + 1⟩ pos
        | none => readLiteral source r

/-- Reads a range of a source of which the calls may be nested so deep. -/
def read (shown : Nat → Nat → Option (List Char)) (source : List Char) (owner : String) :
    (room : Nat) → ByteRange → Checked Expr
  | 0 => readWith shown source owner none
  | room + 1 => readWith shown source owner (some (read shown source owner room))

/-! ## Predicates of ASCII characters -/

theorem ascii_isAsciiBlank : Text.Ascii Text.isAsciiBlank := by
  intro c h
  unfold Text.isAsciiBlank at h
  simp only [Bool.or_eq_true, decide_eq_true_eq] at h
  rcases h with (((rfl | rfl) | rfl) | rfl) | rfl <;> decide

theorem ascii_isAlphanum : Text.Ascii Char.isAlphanum :=
  fun _ h => (Text.bounds_of_isAlphanum h).2

theorem ascii_isDigit : Text.Ascii Char.isDigit := by
  intro c h
  refine ascii_isAlphanum c ?_
  rw [Char.isAlphanum, h, Bool.or_true]

theorem ascii_isRest : Text.Ascii PortId.isRest := by
  intro c h
  rcases Expr.isRest_cases h with halnum | rfl | rfl | rfl
  · exact ascii_isAlphanum c halnum
  all_goals decide

theorem ascii_isFirst : Text.Ascii PortId.isFirst := by
  intro c h
  rcases Bool.or_eq_true_iff.mp h with halpha | hunderscore
  · refine ascii_isAlphanum c ?_
    rw [Char.isAlphanum, halpha, Bool.true_or]
  · rw [of_decide_eq_true hunderscore]
    decide

/-- The first byte that cannot stand in a number. -/
theorem badDigit?_codes (dot : Bool) (index : Nat) (cs : List Char) :
    Expr.badDigit? dot index (Text.codes cs) = Expr.badDigit? dot index cs := by
  have hhigh {c : Char} (hc : 128 ≤ c.toNat) (dot : Bool) (index : Nat) (cs : List Char) :
      Expr.badDigit? dot index (c :: cs) = some index := by
    have hne (a : Char) (ha : a.toNat < 128) : c ≠ a := by
      rintro rfl
      omega
    rw [Expr.badDigit?, ascii_isDigit.eq_false hc]
    simp [hne '+' (by decide), hne '-' (by decide), hne '.' (by decide)]
  induction cs generalizing dot index with
  | nil => rfl
  | cons c cs ih =>
    rcases Text.codes_first c cs with ⟨-, hcodes⟩ | ⟨hc, d, ds, hcodes, hd⟩
    · rw [hcodes, Expr.badDigit?, Expr.badDigit?, ih, ih]
    · rw [hcodes, hhigh hc, hhigh hd]

theorem invalidAt?_codes (id : List Char) :
    PortId.invalidAt? (Text.codes id) = PortId.invalidAt? id := by
  cases id with
  | nil => rfl
  | cons c cs =>
    rcases Text.codes_first c cs with ⟨-, hcodes⟩ | ⟨hc, d, ds, hcodes, hd⟩
    · rw [hcodes, PortId.invalidAt?, PortId.invalidAt?, Text.findIdx?_not_codes ascii_isRest]
    · rw [hcodes, PortId.invalidAt?, PortId.invalidAt?, ascii_isFirst.eq_false hc,
        ascii_isFirst.eq_false hd]
      rfl

theorem badNameChar?_codes (name : List Char) :
    Expr.badNameChar? (Text.codes name) = Expr.badNameChar? name := by
  refine Text.findIdx?_not_codes ?_ name
  intro c h
  rcases Bool.or_eq_true_iff.mp h with halnum | hunderscore
  · exact ascii_isAlphanum c halnum
  · rw [of_decide_eq_true hunderscore]
    decide

/-! ## Loops over bytes -/

variable {source : List Char} {s t : Span}

/-- Cuts the text of a part of the source out of it. -/
theorem text?_range (hs : s.Within ⟨0, source⟩) : text? source s.range = some s.chars := by
  rcases hs with ⟨before, after, hchars, hstart⟩
  refine Text.slice?_eq_some.mpr ⟨before, after, hchars, ?_, rfl⟩
  rw [show s.range.start = s.start from rfl, hstart, Nat.zero_add]

theorem start_eq_stop_iff : s.range.start = s.range.stop ↔ s.chars = [] := by
  constructor
  · intro h
    by_contra hne
    exact absurd h (Nat.ne_of_lt (Expr.start_lt_stop hne))
  · intro h
    unfold Span.range Span.stop
    rw [h]
    rfl

/-- The bytes of a character of a part of the source show it. -/
theorem byte?_shows (hs : s.Within ⟨0, source⟩) (front : List Char) {back : List Char} {c : Char}
    (hchars : s.chars = front ++ c :: back) {i : Nat} (hi : i < c.utf8Size) :
    ∃ d, byte? source (s.start + Text.byteCount front + i) = some d ∧ Text.Shows d c := by
  rcases hs with ⟨before, after, hsource, hstart⟩
  obtain ⟨d, hd, hshows⟩ := Text.exists_shows (before ++ front) (back ++ after) hi
  refine ⟨d, ?_, hshows⟩
  rw [← hd, byte?, Text.byteCount_append, hstart, Nat.zero_add]
  congr 2
  rw [show source = before ++ s.chars ++ after from hsource, hchars]
  simp

theorem byte?_first {start : Nat} {c : Char} {cs : List Char}
    (hs : (⟨start, c :: cs⟩ : Span).Within ⟨0, source⟩) :
    ∃ d, byte? source start = some d ∧ Text.Shows d c :=
  byte?_shows hs [] rfl c.utf8Size_pos

/-- What follows the first character of a part of the source. -/
theorem within_tail {start : Nat} {c : Char} {cs : List Char}
    (hs : (⟨start, c :: cs⟩ : Span).Within ⟨0, source⟩) :
    (⟨start + c.utf8Size, cs⟩ : Span).Within ⟨0, source⟩ :=
  Span.Within.trans ⟨[c], [], by simp, rfl⟩ hs

theorem skipBlanks?_eq {start : Nat} {cs : List Char}
    (hs : (⟨start, cs⟩ : Span).Within ⟨0, source⟩) :
    skipBlanks? source start (Text.byteCount cs) =
      some (start + Text.byteCount (cs.takeWhile Text.isAsciiBlank)) := by
  induction cs generalizing start with
  | nil => rfl
  | cons c cs ih =>
    rcases byte?_first hs with ⟨d, hbyte, hshows⟩
    have hsame : Text.isAsciiBlank d = Text.isAsciiBlank c := hshows.apply ascii_isAsciiBlank
    rw [Text.byteCount_cons]
    cases hblank : Text.isAsciiBlank c with
    | true =>
      have hsize : c.utf8Size = 1 := Text.toNat_lt_iff.mp (ascii_isAsciiBlank c hblank)
      have htail := within_tail hs
      rw [hsize] at htail ⊢
      rw [Nat.add_comm 1, skipBlanks?, hbyte, Option.bind_eq_bind, Option.bind_some, hsame, hblank,
        if_pos rfl, ih htail, List.takeWhile_cons_of_pos hblank, Text.byteCount_cons, hsize,
        Nat.add_assoc]
    | false =>
      obtain ⟨left, hleft⟩ : ∃ left, c.utf8Size + Text.byteCount cs = left + 1 :=
        Nat.exists_eq_add_one_of_ne_zero (by have := c.utf8Size_pos; omega)
      rw [hleft, skipBlanks?, hbyte, Option.bind_eq_bind, Option.bind_some, hsame, hblank,
        List.takeWhile_cons_of_neg (by simp [hblank])]
      rfl

theorem dropBlanks?_eq {start : Nat} {cs : List Char}
    (hs : (⟨start, cs⟩ : Span).Within ⟨0, source⟩) :
    dropBlanks? source start (Text.byteCount cs) =
      some (start + Text.byteCount (cs.reverse.dropWhile Text.isAsciiBlank).reverse) := by
  induction cs using List.reverseRecOn with
  | nil => rfl
  | append_singleton cs c ih =>
    have hsize := c.utf8Size_pos
    obtain ⟨d, hbyte, hshows⟩ := byte?_shows hs cs rfl (Nat.sub_lt hsize Nat.one_pos)
    have hsame : Text.isAsciiBlank d = Text.isAsciiBlank c := hshows.apply ascii_isAsciiBlank
    have hleft : Text.byteCount (cs ++ [c]) = Text.byteCount cs + (c.utf8Size - 1) + 1 := by
      rw [Text.byteCount_append, Text.byteCount_cons, Text.byteCount_nil]
      omega
    have hstep (left : Nat) (h : left = Text.byteCount cs + (c.utf8Size - 1)) :
        byte? source (start + left) = some d := by
      rw [h, ← Nat.add_assoc]
      exact hbyte
    rw [hleft, dropBlanks?, hstep _ rfl, Option.bind_eq_bind, Option.bind_some, hsame,
      List.reverse_append, List.reverse_singleton, List.singleton_append]
    cases hblank : Text.isAsciiBlank c with
    | true =>
      have hone : c.utf8Size = 1 := Text.toNat_lt_iff.mp (ascii_isAsciiBlank c hblank)
      have hinit : (⟨start, cs⟩ : Span).Within ⟨0, source⟩ :=
        Span.Within.trans ⟨[], [c], rfl, rfl⟩ hs
      rw [if_pos rfl, hone, Nat.sub_self, Nat.add_zero, ih hinit,
        List.dropWhile_cons_of_pos hblank]
    | false =>
      rw [List.dropWhile_cons_of_neg (by simp [hblank]), List.reverse_cons, List.reverse_reverse,
        ← hleft]
      rfl

theorem trim?_range (hs : s.Within ⟨0, source⟩) : trim? source s.range = some s.trim.range := by
  have hstart : skipBlanks? source s.start (s.stop - s.start) =
      some (s.dropWhile Text.isAsciiBlank).start := by
    rw [Span.stop, Nat.add_sub_cancel_left]
    exact skipBlanks?_eq hs
  have hrest := (s.dropWhile_within Text.isAsciiBlank).trans hs
  have hcount : s.stop - (s.dropWhile Text.isAsciiBlank).start =
      Text.byteCount (s.dropWhile Text.isAsciiBlank).chars := by
    have hsplit : Text.byteCount s.chars = Text.byteCount (s.chars.takeWhile Text.isAsciiBlank) +
        Text.byteCount (s.chars.dropWhile Text.isAsciiBlank) := by
      rw [← Text.byteCount_append, List.takeWhile_append_dropWhile]
    unfold Span.stop Span.dropWhile
    simp only
    omega
  have hstop : dropBlanks? source (s.dropWhile Text.isAsciiBlank).start
      (Text.byteCount (s.dropWhile Text.isAsciiBlank).chars) = some s.trim.stop :=
    dropBlanks?_eq hrest
  unfold trim? Span.range
  simp only [hstart, hcount, Option.bind_eq_bind, Option.bind_some, hstop]
  rfl

theorem find?_range {p : Char → Bool} (hp : Text.Ascii p) (hs : s.Within ⟨0, source⟩) :
    find? source p s.range =
      some (if s.chars.any p then
        some (s.start + Text.byteCount (s.chars.takeWhile fun c => !p c)) else none) := by
  unfold find?
  rw [text?_range hs, Option.bind_eq_bind, Option.bind_some, Text.findIdx?_codes hp]
  split <;> rfl

/-- The first byte of a kind is looked for as the first character that is not of another kind. -/
theorem find?_eq {p q : Char → Bool} (hp : Text.Ascii p) (hq : ∀ c, q c = !p c)
    (hs : s.Within ⟨0, source⟩) :
    find? source p s.range =
      some (if s.chars.dropWhile q = [] then none
        else some (s.start + Text.byteCount (s.chars.takeWhile q))) := by
  obtain rfl : q = fun c => !p c := funext hq
  rw [find?_range hp hs]
  by_cases hany : s.chars.any p = true
  · rw [if_pos hany, if_neg]
    rw [List.dropWhile_eq_nil_iff]
    intro hnone
    rcases List.any_eq_true.mp hany with ⟨c, hc, hpc⟩
    have hnot := hnone c hc
    rw [hpc] at hnot
    cases hnot
  · rw [if_neg hany, if_pos]
    rw [List.dropWhile_eq_nil_iff]
    intro c hc
    rw [Bool.not_eq_true, List.any_eq_false] at hany
    simpa using hany c hc

theorem ascii_eq {a : Char} (ha : a.toNat < 128) : Text.Ascii fun c => decide (c = a) :=
  fun _ h => of_decide_eq_true h ▸ ha

theorem find?_open {front rest : List Char} (hs : s.Within ⟨0, source⟩)
    (hchars : s.chars = front ++ '(' :: rest) (hfront : '(' ∉ front) :
    find? source (fun c => c = '(') s.range = some (some (s.start + Text.byteCount front)) := by
  rw [find?_eq (q := fun c => decide (c ≠ '(')) (ascii_eq (by decide)) (fun c => decide_not) hs,
    hchars, Span.dropWhile_open hfront, Span.takeWhile_open hfront, if_neg (List.cons_ne_nil _ _)]

theorem find?_no_open (hs : s.Within ⟨0, source⟩) (h : ¬s.chars.contains '(' = true) :
    find? source (fun c => c = '(') s.range = some none := by
  rw [find?_eq (q := fun c => decide (c ≠ '(')) (ascii_eq (by decide)) (fun c => decide_not) hs,
    if_pos]
  rw [List.dropWhile_eq_nil_iff]
  intro c hc
  refine decide_eq_true fun heq => h ?_
  rw [List.contains_iff_mem, ← heq]
  exact hc

/-- A closing parenthesis or a comma, the first of them, in a part of the source. -/
theorem find?_stray (hs : s.Within ⟨0, source⟩) :
    find? source (fun c => c = ')' || c = ',') s.range =
      some (if s.chars.dropWhile (fun c => c ≠ ')' ∧ c ≠ ',') = [] then none
        else some (s.start + Text.byteCount (s.chars.takeWhile fun c => c ≠ ')' ∧ c ≠ ','))) := by
  refine find?_eq ?_ (fun c => by simp) hs
  intro c h
  rcases Bool.or_eq_true_iff.mp h with hclose | hcomma
  · exact ascii_eq (by decide) c hclose
  · exact ascii_eq (by decide) c hcomma

/-- What is left from the first closing parenthesis or comma on starts with a character in ASCII. -/
theorem stray_ascii {cs after : List Char} {c : Char}
    (h : cs.dropWhile (fun c => decide (c ≠ ')' ∧ c ≠ ',')) = c :: after) : c.toNat < 128 := by
  have hkind := List.head?_dropWhile_not (fun c => decide (c ≠ ')' ∧ c ≠ ',')) cs
  rw [h] at hkind
  have hcases : c = ')' ∨ c = ',' := by
    by_cases hclose : c = ')'
    · exact Or.inl hclose
    · exact Or.inr (by simpa [hclose] using hkind)
  rcases hcases with rfl | rfl <;> decide

/-! ## Splitting -/

/-- The ranges of pieces that start at an offset, the first of them counted from another one. -/
def ofPieces (first start : Nat) (pieces : List (List Char)) : List ByteRange :=
  match Span.ofPieces start pieces with
  | [] => []
  | s :: rest => ⟨first, s.stop⟩ :: rest.map Span.range

/-- What splitting a text at an offset comes to in offsets. -/
def ofSplit (first start : Nat) (cs : List Char) (found : List (List Char) × List Char) :
    List ByteRange × Nat :=
  (ofPieces first start found.1, start + Text.byteCount cs - Text.byteCount found.2 - 1)

theorem ofPieces_self (start : Nat) (pieces : List (List Char)) :
    ofPieces start start pieces = (Span.ofPieces start pieces).map Span.range := by
  cases pieces <;> rfl

/-- Bytes that neither open, close nor separate are gone over. -/
theorem split?_skip {depth first left n pos : Nat}
    (h : ∀ i < n, ∃ d, byte? source (pos + i) = some d ∧ d ≠ '(' ∧ d ≠ ')' ∧
      ¬(d = ',' ∧ depth = 0)) :
    split? source depth first pos (n + left) = split? source depth first (pos + n) left := by
  induction n generalizing pos with
  | zero => rw [Nat.zero_add, Nat.add_zero]
  | succ n ih =>
    rcases h 0 (Nat.succ_pos n) with ⟨d, hbyte, hopen, hclose, hcomma⟩
    rw [Nat.add_zero] at hbyte
    rw [Nat.add_right_comm, split?, hbyte, Option.bind_eq_bind, Option.bind_some, if_neg hopen,
      if_neg hclose, if_neg hcomma, ih, Nat.add_assoc, Nat.add_comm 1]
    intro i hi
    rw [Nat.add_assoc, Nat.add_comm 1]
    exact h (i + 1) (Nat.succ_lt_succ hi)

/-- Splitting bytes finds what splitting characters finds. -/
theorem split?_eq (depth first : Nat) {pos : Nat} {cs : List Char}
    (hs : (⟨pos, cs⟩ : Span).Within ⟨0, source⟩) :
    split? source depth first pos (Text.byteCount cs) =
      some ((Span.splitArguments depth cs).map (ofSplit first pos cs)) := by
  induction cs generalizing depth first pos with
  | nil => rfl
  | cons c cs ih =>
    have htail := within_tail hs
    have hsize := c.utf8Size_pos
    -- a character that is kept goes in front of the first piece
    have hkeep (depth : Nat)
        {keep : List (List Char) × List Char → List (List Char) × List Char}
        (hkept : ∀ piece more rest, keep (piece :: more, rest) = ((c :: piece) :: more, rest)) :
        split? source depth first (pos + c.utf8Size) (Text.byteCount cs) =
          some (((Span.splitArguments depth cs).map keep).map (ofSplit first pos (c :: cs))) := by
      rw [ih _ _ htail]
      cases hsplit : Span.splitArguments depth cs with
      | none => rfl
      | some found =>
        rcases found with ⟨pieces, rest⟩
        rcases List.exists_cons_of_ne_nil (Span.splitArguments_eq_some hsplit).1 with
          ⟨piece, more, rfl⟩
        simp only [Option.map_some, hkept, ofSplit, ofPieces, Span.ofPieces, Span.stop,
          Text.byteCount_cons, Nat.add_assoc]
    have hbyte (hc : c.toNat < 128) : byte? source pos = some c ∧ c.utf8Size = 1 := by
      rcases byte?_first hs with ⟨d, hd, hshows⟩
      rw [(hshows.eq_iff hc).mpr rfl] at hd
      exact ⟨hd, Text.toNat_lt_iff.mp hc⟩
    rw [Span.splitArguments, Text.byteCount_cons]
    simp only
    by_cases hopen : c = '('
    · rcases hbyte (hopen ▸ by decide) with ⟨hat, hone⟩
      rw [hone] at hkeep ⊢
      rw [Nat.add_comm 1, split?, hat, Option.bind_eq_bind, Option.bind_some, if_pos hopen,
        if_pos hopen]
      exact hkeep (depth + 1) fun _ _ _ => rfl
    rw [if_neg hopen]
    by_cases hclose : c = ')'
    · rcases hbyte (hclose ▸ by decide) with ⟨hat, hone⟩
      rw [hone] at hkeep ⊢
      rw [Nat.add_comm 1, split?, hat, Option.bind_eq_bind, Option.bind_some, if_neg hopen,
        if_pos hclose, if_pos hclose]
      by_cases hdepth : depth = 0
      · rw [if_pos hdepth, if_pos hdepth]
        simp only [Option.map_some, ofSplit, ofPieces, Span.ofPieces, Span.stop,
          Text.byteCount_cons, Text.byteCount_nil, hone, List.map_nil]
        congr 3
        omega
      · rw [if_neg hdepth, if_neg hdepth]
        exact hkeep (depth - 1) fun _ _ _ => rfl
    rw [if_neg hclose]
    by_cases hcomma : c = ',' ∧ depth = 0
    · rcases hbyte (hcomma.1 ▸ by decide) with ⟨hat, hone⟩
      rw [hone] at htail ⊢
      rw [Nat.add_comm 1, split?, hat, Option.bind_eq_bind, Option.bind_some, if_neg hopen,
        if_neg hclose, if_pos hcomma, if_pos hcomma, ih _ _ htail, Option.bind_eq_bind,
        Option.bind_some]
      cases Span.splitArguments 0 cs with
      | none => rfl
      | some found =>
        simp only [Option.map_some, ofSplit, ofPieces_self]
        simp only [ofPieces, Span.ofPieces, Span.stop, Text.byteCount_cons, Text.byteCount_nil,
          hone, Nat.add_zero, Nat.add_assoc]
    rw [if_neg hcomma]
    refine (split?_skip fun i hi => ?_).trans (hkeep depth fun _ _ _ => rfl)
    obtain ⟨d, hd, hshows⟩ := byte?_shows hs [] rfl hi
    refine ⟨d, hd, ?_, ?_, ?_⟩
    · exact mt (hshows.eq_iff (by decide)).mp hopen
    · exact mt (hshows.eq_iff (by decide)).mp hclose
    · exact mt (And.imp_left (hshows.eq_iff (by decide)).mp) hcomma

end ByteRange

end PortLogic
