import PortLogic.Proofs.Json.Number
import PortLogic.Proofs.Json.Text

/-!
# PortLogic.Proofs.Json.Plain — a format that keeps what storage relies on

The plain format reads every text of a value as that value (`IsText.reads`), by induction on the
text: a leaf is read up to what follows it, and items and members are read one after the other. The
nesting that a reading allows is bounded by the length of the text. The plain format writes a text
of the value (`Writable.isText_print`), by induction on the value. So it is lawful.
-/

namespace PortLogic

-- powers of naturals are the built-in ones, whatever algebra is in scope
attribute [local instance (2000)] instPowNat

namespace Json

variable {fuel level : Nat} {rest cs : List Char}

/-! ## Blanks -/

theorem skipBlanks_cons {c : Char} (h : isBlank c = false) : skipBlanks (c :: cs) = c :: cs :=
  List.dropWhile_cons_of_neg (by simp [h])

theorem skipBlanks_append {blanks : List Char} (h : AllBlank blanks) (cs : List Char) :
    skipBlanks (blanks ++ cs) = skipBlanks cs :=
  List.dropWhile_append_of_pos h

theorem skipBlanks_skipBlanks (cs : List Char) : skipBlanks (skipBlanks cs) = skipBlanks cs := by
  induction cs with
  | nil => rfl
  | cons c cs ih =>
    unfold skipBlanks at ih ⊢
    rw [List.dropWhile_cons]
    split
    · exact ih
    · next h => exact List.dropWhile_cons_of_neg h

/-- Blanks before a value do not matter. -/
theorem readValue_of_skipBlanks {ds : List Char} (h : skipBlanks cs = skipBlanks ds) (fuel : Nat) :
    readValue fuel cs = readValue fuel ds := by
  cases fuel with
  | zero => rfl
  | succ fuel => rw [readValue, readValue, h]

theorem readItems_of_skipBlanks {ds : List Char} (h : skipBlanks cs = skipBlanks ds) (fuel : Nat) :
    readItems fuel cs = readItems fuel ds := by
  cases fuel with
  | zero => rfl
  | succ fuel => rw [readItems, readItems, readValue_of_skipBlanks h]

theorem readMembers_of_skipBlanks {ds : List Char} (h : skipBlanks cs = skipBlanks ds)
    (fuel : Nat) : readMembers fuel cs = readMembers fuel ds := by
  cases fuel with
  | zero => rfl
  | succ fuel => rw [readMembers, readMembers, h]

theorem isBlank_of_isDigit {c : Char} (h : c.isDigit = true) : isBlank c = false := by
  rw [Bool.eq_false_iff]
  intro hblank
  unfold isBlank at hblank
  simp only [Bool.or_eq_true, decide_eq_true_eq] at hblank
  rcases hblank with ((rfl | rfl) | rfl) | rfl
  all_goals cases h

/-- Blanks go on with no number. -/
theorem ends_blanks {blanks : List Char} (h : AllBlank blanks) (hends : Ends rest) :
    Ends (blanks ++ rest) := by
  cases blanks with
  | nil => exact hends
  | cons c blanks =>
    have hc := h c List.mem_cons_self
    unfold isBlank at hc
    simp only [Bool.or_eq_true, decide_eq_true_eq] at hc
    rintro _ ⟨⟩
    rcases hc with ((rfl | rfl) | rfl) | rfl
    all_goals decide

theorem ends_cons {c : Char} (h : c = ',' ∨ c = ']' ∨ c = '\x7d') (cs : List Char) :
    Ends (c :: cs) := by
  rintro _ ⟨⟩
  rcases h with rfl | rfl | rfl
  all_goals decide

/-! ## Numbers -/

/-- What starts with a digit, after a sign or none, is read as a number. -/
theorem readValue_number (negative : Bool) (h : ∃ c ds, cs = c :: ds ∧ c.isDigit = true) :
    readValue (fuel + 1) (sign negative ++ (cs ++ rest)) = readMagnitude negative (cs ++ rest) := by
  rcases h with ⟨c, ds, rfl, hdigit⟩
  cases negative with
  | true =>
    show readValue (fuel + 1) ('-' :: c :: (ds ++ rest)) = _
    rw [readValue, skipBlanks_cons rfl]
    rfl
  | false =>
    show readValue (fuel + 1) (c :: (ds ++ rest)) = _
    rw [readValue, skipBlanks_cons (isBlank_of_isDigit hdigit)]
    split
    case h_8 => rfl
    all_goals
      next h =>
        cases h
        cases hdigit

theorem toDigits_first (n : Nat) : ∃ c ds, Nat.toDigits 10 n = c :: ds ∧ c.isDigit = true := by
  rcases List.exists_cons_of_ne_nil (Nat.toDigits_ne_nil (n := n) (b := 10)) with ⟨c, ds, hds⟩
  exact ⟨c, ds, hds, Nat.isDigit_of_mem_toDigits (by decide) (by decide)
    (hds ▸ List.mem_cons_self)⟩

theorem toList_integerText (i : Int) :
    (Number.integerText i).toList = sign (i < 0) ++ Nat.toDigits 10 i.natAbs := by
  rw [Number.integerText, String.toList_ofList, sign]
  simp only [decide_eq_true_eq]

theorem readValue_integer {i : Int} (hlow : -(2 ^ (63 : Nat)) ≤ i) (hhigh : i < 2 ^ (64 : Nat))
    (hends : Ends rest) :
    readValue (fuel + 1) ((Number.integerText i).toList ++ rest) = some (.integer i, rest) := by
  rw [toList_integerText, List.append_assoc, readValue_number _ (toDigits_first i.natAbs),
    readMagnitude_integer i hlow hhigh hends]

theorem readValue_real {x : Number} (hreal : IsReal cs x) (hfinite : x.isFinite = true)
    (hends : Ends rest) : readValue (fuel + 1) (cs ++ rest) = some (.real x, rest) := by
  rcases hreal.readMagnitude hfinite with ⟨negative, digits, rfl, hfirst, hread⟩
  rw [List.append_assoc, readValue_number negative hfirst, hread rest hends]

/-! ## Items and members -/

/-- Whatever follows, a text is read as a value, up to blanks. -/
def Reads (cs : List Char) (j : Json) : Prop :=
  ∀ (fuel : Nat) (rest : List Char), Ends rest → cs.length ≤ fuel →
    ∃ rest', readValue fuel (cs ++ rest) = some (j, rest') ∧ skipBlanks rest' = skipBlanks rest

/-- Items are read one after the other, up to the closing bracket. -/
theorem readItems_texts (item : List Char × Json) (items : List (List Char × Json))
    (hreads : ∀ i ∈ item :: items, Reads i.1 i.2) (rest : List Char)
    (hfuel : ([','].intercalate ((item :: items).map (·.1))).length < fuel) :
    readItems fuel ([','].intercalate ((item :: items).map (·.1)) ++ ']' :: rest) =
      some ((item :: items).map (·.2), rest) := by
  induction items generalizing item fuel with
  | nil =>
    obtain ⟨fuel, rfl⟩ := Nat.exists_eq_add_one.mpr (Nat.zero_lt_of_lt hfuel)
    rw [List.map_singleton, List.intercalate_singleton] at hfuel ⊢
    rcases hreads item List.mem_cons_self fuel (']' :: rest) (ends_cons (by decide) rest)
      (by omega) with ⟨rest', hread, hsame⟩
    rw [readItems, hread]
    simp only [Option.bind_eq_bind, Option.bind_some]
    rw [hsame, skipBlanks_cons rfl]
    rfl
  | cons next items ih =>
    obtain ⟨fuel, rfl⟩ := Nat.exists_eq_add_one.mpr (Nat.zero_lt_of_lt hfuel)
    rw [List.map_cons, List.map_cons, List.intercalate_cons_cons] at hfuel ⊢
    simp only [List.length_append, List.length_singleton] at hfuel
    have hlater : ([','].intercalate ((next :: items).map (·.1))).length < fuel := by
      rw [List.map_cons]
      omega
    -- the item ends at its comma, and the text of the later items follows
    have hrest := ih next (fun i hi => hreads i (List.mem_cons_of_mem item hi)) hlater
    simp only [List.append_assoc, List.cons_append, List.nil_append]
    rcases hreads item List.mem_cons_self fuel _ (ends_cons (c := ',') (by decide) _)
      (by omega) with ⟨rest', hread, hsame⟩
    rw [readItems, hread]
    simp only [Option.bind_eq_bind, Option.bind_some]
    rw [hsame, skipBlanks_cons rfl]
    rw [List.map_cons] at hrest
    simp only
    rw [hrest]
    rfl

/-- A member is read with its key, and then the closing brace or the other members. -/
theorem readMembers_member (m : MemberText) (hreads : Reads m.value m.json) (hends : Ends rest)
    (hfuel : m.value.length ≤ fuel) :
    readMembers (fuel + 1) (m.chars ++ rest) =
      match skipBlanks rest with
      | '\x7d' :: rest => some ([keyed m.member], rest)
      | ',' :: cs => do
        let (members, rest) ← readMembers fuel cs
        return (keyed m.member :: members, rest)
      | _ => none := by
  rcases hreads fuel rest hends hfuel with ⟨rest', hread, hsame⟩
  rw [MemberText.chars, List.append_assoc,
    readMembers_of_skipBlanks (skipBlanks_append m.before_blank _)]
  simp only [List.cons_append, List.append_assoc]
  rw [readMembers, skipBlanks_cons rfl]
  simp only
  rw [m.spells.readText]
  simp only [Option.bind_eq_bind, Option.bind_some]
  rw [skipBlanks_append m.after_blank, skipBlanks_cons rfl]
  simp only
  rw [hread]
  simp only [Option.bind_some]
  rw [hsame]
  rfl

theorem length_value_lt (m : MemberText) : m.value.length < m.chars.length := by
  unfold MemberText.chars
  simp only [List.length_append, List.length_cons]
  omega

/-- Members are read one after the other, up to the closing brace. -/
theorem readMembers_texts (m : MemberText) (members : List MemberText)
    (hreads : ∀ n ∈ m :: members, Reads n.value n.json) (rest : List Char)
    (hfuel : ([','].intercalate ((m :: members).map MemberText.chars)).length < fuel) :
    readMembers fuel ([','].intercalate ((m :: members).map MemberText.chars) ++ '\x7d' :: rest) =
      some (((m :: members).map MemberText.member).map keyed, rest) := by
  have hvalue := length_value_lt m
  induction members generalizing m fuel with
  | nil =>
    obtain ⟨fuel, rfl⟩ := Nat.exists_eq_add_one.mpr (Nat.zero_lt_of_lt hfuel)
    rw [List.map_singleton, List.intercalate_singleton] at hfuel ⊢
    rw [readMembers_member m (hreads m List.mem_cons_self) (ends_cons (by decide) rest) (by omega),
      skipBlanks_cons rfl]
    rfl
  | cons next members ih =>
    obtain ⟨fuel, rfl⟩ := Nat.exists_eq_add_one.mpr (Nat.zero_lt_of_lt hfuel)
    rw [List.map_cons, List.map_cons, List.intercalate_cons_cons] at hfuel ⊢
    simp only [List.length_append, List.length_singleton] at hfuel
    have hlater : ([','].intercalate ((next :: members).map MemberText.chars)).length < fuel := by
      rw [List.map_cons]
      omega
    have hrest := ih next (fun n hn => hreads n (List.mem_cons_of_mem m hn)) hlater
      (length_value_lt next)
    simp only [List.append_assoc, List.cons_append, List.nil_append]
    rw [readMembers_member m (hreads m List.mem_cons_self) (ends_cons (by decide) _) (by omega),
      skipBlanks_cons rfl]
    rw [List.map_cons] at hrest
    simp only
    rw [hrest]
    rfl

/-! ## Reading -/

/-- The text of a value holds more than blanks, and does not start with a closing bracket. -/
theorem IsText.first {j : Json} (h : IsText cs j) (rest : List Char) :
    ∃ c ds, skipBlanks (cs ++ rest) = c :: ds ∧ c ≠ ']' := by
  -- a number starts with a sign or a digit, every other text with a character of its own
  have hnumber (negative : Bool) {digits : List Char}
      (hfirst : ∃ c ds, digits = c :: ds ∧ c.isDigit = true) (rest : List Char) :
      ∃ c ds, skipBlanks (sign negative ++ digits ++ rest) = c :: ds ∧ c ≠ ']' := by
    rcases hfirst with ⟨c, ds, rfl, hdigit⟩
    cases negative with
    | true => exact ⟨'-', _, skipBlanks_cons rfl, by decide⟩
    | false =>
      refine ⟨c, _, skipBlanks_cons (isBlank_of_isDigit hdigit), ?_⟩
      rintro rfl
      cases hdigit
  induction h generalizing rest with
  | null => exact ⟨_, _, skipBlanks_cons rfl, by decide⟩
  | boolTrue => exact ⟨_, _, skipBlanks_cons rfl, by decide⟩
  | boolFalse => exact ⟨_, _, skipBlanks_cons rfl, by decide⟩
  | @integer i _ _ =>
    rw [toList_integerText]
    exact hnumber _ (toDigits_first i.natAbs) rest
  | real hreal hfinite =>
    rcases hreal.readMagnitude hfinite with ⟨negative, digits, rfl, hfirst, -⟩
    exact hnumber negative hfirst rest
  | text _ => exact ⟨_, _, skipBlanks_cons rfl, by decide⟩
  | array _ _ _ => exact ⟨_, _, skipBlanks_cons rfl, by decide⟩
  | object _ _ _ => exact ⟨_, _, skipBlanks_cons rfl, by decide⟩
  | padded hbefore _ _ ih =>
    rw [List.append_assoc, skipBlanks_append hbefore, List.append_assoc]
    exact ih _

theorem IsText.length_pos {j : Json} (h : IsText cs j) : 0 < cs.length := by
  rcases h.first [] with ⟨c, ds, hcs, -⟩
  cases cs with
  | nil => cases hcs
  | cons _ _ => exact Nat.succ_pos _

/-- What is read wherever any nesting is allowed is read: no text is empty. -/
theorem IsText.reads_of_succ {j : Json} (h : IsText cs j)
    (hread : ∀ (fuel : Nat) (rest : List Char), Ends rest → cs.length ≤ fuel + 1 →
      readValue (fuel + 1) (cs ++ rest) = some (j, rest)) : Reads cs j := by
  intro fuel rest hends hfuel
  obtain ⟨fuel, rfl⟩ := Nat.exists_eq_add_one.mpr (Nat.lt_of_lt_of_le h.length_pos hfuel)
  exact ⟨rest, hread fuel rest hends hfuel, rfl⟩

/-- The items of an array are read, unless a bracket closes it at once. -/
theorem readValue_array {blanks : List Char} {items : List (List Char × Json)}
    (hblanks : AllBlank blanks) (htexts : ∀ item ∈ items, IsText item.1 item.2)
    (hreads : ∀ item ∈ items, Reads item.1 item.2)
    (hfuel : ([','].intercalate (items.map (·.1))).length < fuel) :
    readValue (fuel + 1)
        ('[' :: (blanks ++ ([','].intercalate (items.map (·.1)) ++ [']'])) ++ rest) =
      some (.array (items.map (·.2)), rest) := by
  simp only [List.cons_append, List.append_assoc, List.nil_append]
  rw [readValue, skipBlanks_cons rfl]
  simp only
  rw [skipBlanks_append hblanks]
  cases items with
  | nil =>
    rw [List.map_nil, List.intercalate_nil, List.nil_append, skipBlanks_cons rfl]
    rfl
  | cons item items =>
    have hitems := readItems_texts item items hreads rest hfuel
    rw [← readItems_of_skipBlanks (skipBlanks_skipBlanks _)] at hitems
    -- the first character is that of the first item
    obtain ⟨c, ds, hcs, hclose⟩ : ∃ c ds,
        skipBlanks ([','].intercalate ((item :: items).map (·.1)) ++ ']' :: rest) = c :: ds ∧
          c ≠ ']' := by
      have hfirst := (htexts item List.mem_cons_self).first
      cases items with
      | nil =>
        rw [List.map_singleton, List.intercalate_singleton]
        exact hfirst _
      | cons next items =>
        rw [List.map_cons, List.map_cons, List.intercalate_cons_cons, List.append_assoc,
          List.append_assoc]
        exact hfirst _
    rw [hcs] at hitems ⊢
    split
    · next h =>
      cases h
      exact absurd rfl hclose
    · rw [hitems]
      rfl

/-- The members of an object are read, unless a brace closes it at once. -/
theorem readValue_object {blanks : List Char} {members : List MemberText}
    (hblanks : AllBlank blanks) (hreads : ∀ m ∈ members, Reads m.value m.json)
    (hfuel : ([','].intercalate (members.map MemberText.chars)).length < fuel) :
    readValue (fuel + 1) ('\x7b' :: (blanks ++
        ([','].intercalate (members.map MemberText.chars) ++ ['\x7d'])) ++ rest) =
      some (.record (members.map MemberText.member), rest) := by
  simp only [List.cons_append, List.append_assoc, List.nil_append]
  rw [readValue, skipBlanks_cons rfl]
  simp only
  rw [skipBlanks_append hblanks, record_eq]
  cases members with
  | nil =>
    rw [List.map_nil, List.intercalate_nil, List.nil_append, skipBlanks_cons rfl]
    rfl
  | cons m members =>
    have hmembers := readMembers_texts m members hreads rest hfuel
    rw [← readMembers_of_skipBlanks (skipBlanks_skipBlanks _)] at hmembers
    -- the first character is the quote of the first key
    obtain ⟨ds, hcs⟩ : ∃ ds, skipBlanks ([','].intercalate ((m :: members).map MemberText.chars) ++
        '\x7d' :: rest) = '"' :: ds := by
      cases members with
      | nil =>
        rw [List.map_singleton, List.intercalate_singleton, MemberText.chars, List.append_assoc,
          skipBlanks_append m.before_blank]
        exact ⟨_, skipBlanks_cons rfl⟩
      | cons next members =>
        rw [List.map_cons, List.map_cons, List.intercalate_cons_cons, List.append_assoc,
          List.append_assoc, MemberText.chars, List.append_assoc, skipBlanks_append m.before_blank]
        exact ⟨_, skipBlanks_cons rfl⟩
    rw [hcs] at hmembers ⊢
    exact congrArg (Option.map fun (found, rest) => (Json.object found, rest)) hmembers

/-- A text of a value is read as the value. -/
theorem IsText.reads {j : Json} (h : IsText cs j) : Reads cs j := by
  induction h with
  | null =>
    refine IsText.null.reads_of_succ fun fuel rest _ _ => ?_
    rw [List.cons_append, readValue, skipBlanks_cons rfl]
    rfl
  | boolTrue =>
    refine IsText.boolTrue.reads_of_succ fun fuel rest _ _ => ?_
    rw [List.cons_append, readValue, skipBlanks_cons rfl]
    rfl
  | boolFalse =>
    refine IsText.boolFalse.reads_of_succ fun fuel rest _ _ => ?_
    rw [List.cons_append, readValue, skipBlanks_cons rfl]
    rfl
  | integer hlow hhigh =>
    exact (IsText.integer hlow hhigh).reads_of_succ fun _ _ hends _ =>
      readValue_integer hlow hhigh hends
  | real hreal hfinite =>
    exact (IsText.real hreal hfinite).reads_of_succ fun _ _ hends _ =>
      readValue_real hreal hfinite hends
  | text hspells =>
    refine (IsText.text hspells).reads_of_succ fun fuel rest _ _ => ?_
    rw [List.cons_append, List.append_assoc, readValue, skipBlanks_cons rfl]
    simp only [List.cons_append, List.nil_append]
    rw [hspells.readText]
    rfl
  | array hblanks hitems ih =>
    refine (IsText.array hblanks hitems).reads_of_succ fun fuel rest _ hfuel => ?_
    simp only [List.length_cons, List.length_append] at hfuel
    exact readValue_array hblanks hitems ih (by omega)
  | object hblanks hmembers ih =>
    refine (IsText.object hblanks hmembers).reads_of_succ fun fuel rest _ hfuel => ?_
    simp only [List.length_cons, List.length_append] at hfuel
    exact readValue_object hblanks ih (by omega)
  | padded hbefore hafter _ ih =>
    intro fuel rest hends hfuel
    simp only [List.length_append] at hfuel
    rcases ih fuel _ (ends_blanks hafter hends) (by omega) with ⟨rest', hread, hsame⟩
    refine ⟨rest', ?_, hsame.trans (skipBlanks_append hafter rest)⟩
    rwa [List.append_assoc, readValue_of_skipBlanks (skipBlanks_append hbefore _),
      List.append_assoc]

theorem IsText.parse {j : Json} (h : IsText cs j) : Json.parse (String.ofList cs) = some j := by
  rcases h.reads (2 * cs.length + 1) [] (by rintro c ⟨⟩) (by omega) with ⟨rest, hread, hsame⟩
  rw [List.append_nil] at hread
  rw [Json.parse, String.toList_ofList, hread]
  exact if_pos hsame

/-! ## Writing -/

theorem allBlank_newLine (level : Nat) : AllBlank (newLine level) := by
  intro c hc
  rcases List.mem_cons.mp hc with rfl | hmem
  · decide
  · rw [(List.mem_replicate.mp hmem).2]
    decide

theorem allBlank_nil : AllBlank [] := by
  rintro c ⟨⟩

theorem quote_append (s : String) (cs : List Char) :
    quote s ++ cs = '"' :: (s.toList.flatMap escapeChar ++ '"' :: cs) := by
  simp [quote]

/-- Items on lines of their own are texts with blanks around them. -/
theorem exists_items (level outer : Nat) {before : List Char} (hbefore : AllBlank before) (j : Json)
    (js : List Json) (htexts : ∀ i ∈ j :: js, IsText (print level i) i) :
    ∃ items : List (List Char × Json), items.map (·.2) = j :: js ∧
      (∀ item ∈ items, IsText item.1 item.2) ∧
      [','].intercalate (items.map (·.1)) =
        before ++ (print level j ++ (printItems level js ++ newLine outer)) := by
  have hj := htexts j List.mem_cons_self
  induction js generalizing j before with
  | nil =>
    refine ⟨[(before ++ (print level j ++ newLine outer), j)], rfl, ?_, ?_⟩
    · rw [List.forall_mem_singleton]
      exact hj.padded hbefore (allBlank_newLine outer)
    · rw [List.map_singleton, List.intercalate_singleton, printItems, List.nil_append]
  | cons next js ih =>
    have hlater := fun i hi => htexts i (List.mem_cons_of_mem j hi)
    rcases ih (allBlank_newLine level) next hlater
      (hlater next List.mem_cons_self) with ⟨items, hvalues, hitems, hchars⟩
    -- the new line stands before the next item and is counted to that one
    refine ⟨(before ++ (print level j ++ []), j) :: items, by rw [List.map_cons, hvalues], ?_, ?_⟩
    · rw [List.forall_mem_cons]
      exact ⟨hj.padded hbefore allBlank_nil, hitems⟩
    · cases items with
      | nil => cases hvalues
      | cons item items =>
        rw [List.map_cons, List.map_cons, List.intercalate_cons_cons, ← List.map_cons, hchars,
          printItems]
        simp

/-- A member as it is written, with blanks before its key and after its value. -/
def memberText (level : Nat) {before : List Char} (hbefore : AllBlank before) (after : List Char)
    (m : String × Json) : MemberText where
  before := before
  spelling := m.1.toList.flatMap escapeChar
  key := m.1.toList
  after := []
  value := [' '] ++ (print level m.2 ++ after)
  json := m.2
  before_blank := hbefore
  after_blank := allBlank_nil
  spells := spells_escape m.1.toList

section Members

variable {before after : List Char} (hbefore : AllBlank before) (m : String × Json)

theorem memberText_chars :
    (memberText level hbefore after m).chars =
      before ++ (quote m.1 ++ (':' :: ' ' :: (print level m.2 ++ after))) := by
  rw [quote_append]
  rfl

theorem memberText_member : (memberText level hbefore after m).member = m := by
  rw [MemberText.member, memberText, String.ofList_toList]

theorem isText_memberText (h : IsText (print level m.2) m.2) (hafter : AllBlank after) :
    IsText (memberText level hbefore after m).value (memberText level hbefore after m).json := by
  refine h.padded ?_ hafter
  unfold AllBlank
  rw [List.forall_mem_singleton]
  rfl

end Members

/-- Members on lines of their own are texts with blanks around them. -/
theorem exists_members (level outer : Nat) {before : List Char} (hbefore : AllBlank before)
    (m : String × Json) (members : List (String × Json))
    (htexts : ∀ n ∈ m :: members, IsText (print level n.2) n.2) :
    ∃ texts : List MemberText, texts.map MemberText.member = m :: members ∧
      (∀ t ∈ texts, IsText t.value t.json) ∧
      [','].intercalate (texts.map MemberText.chars) =
        before ++ (quote m.1 ++ (':' :: ' ' :: (print level m.2 ++
          (printMembers level (members.map keyed) ++ newLine outer)))) := by
  have hm := htexts m List.mem_cons_self
  induction members generalizing m before with
  | nil =>
    refine ⟨[memberText level hbefore (newLine outer) m], ?_, ?_, ?_⟩
    · rw [List.map_singleton, memberText_member]
    · rw [List.forall_mem_singleton]
      exact isText_memberText hbefore m hm (allBlank_newLine outer)
    · rw [List.map_singleton, List.intercalate_singleton, memberText_chars, List.map_nil,
        printMembers, List.nil_append]
  | cons next members ih =>
    have hlater := fun n hn => htexts n (List.mem_cons_of_mem m hn)
    rcases ih (allBlank_newLine level) next hlater (hlater next List.mem_cons_self) with
      ⟨texts, hmembers, hvalues, hchars⟩
    refine ⟨memberText level hbefore [] m :: texts, ?_, ?_, ?_⟩
    · rw [List.map_cons, hmembers, memberText_member]
    · rw [List.forall_mem_cons]
      exact ⟨isText_memberText hbefore m hm allBlank_nil, hvalues⟩
    · cases texts with
      | nil => cases hmembers
      | cons t texts =>
        rw [List.map_cons, List.map_cons, List.intercalate_cons_cons, ← List.map_cons, hchars,
          memberText_chars, List.map_cons, keyed, printMembers]
        simp

theorem isText_array {items : List Json}
    (htexts : ∀ j ∈ items, IsText (print (level + 1) j) j) :
    IsText (print level (.array items)) (.array items) := by
  cases items with
  | nil =>
    rw [print]
    exact IsText.array allBlank_nil (List.forall_mem_nil fun item : List Char × Json =>
      IsText item.1 item.2)
  | cons j js =>
    rcases exists_items (level + 1) level (allBlank_newLine (level + 1)) j js htexts with
      ⟨items, hvalues, hitems, hchars⟩
    have htext := IsText.array allBlank_nil hitems
    rw [hvalues, hchars, List.nil_append] at htext
    rw [print]
    simpa using htext

theorem isText_record {members : List (String × Json)}
    (htexts : ∀ m ∈ members, IsText (print (level + 1) m.2) m.2) :
    IsText (print level (.record members)) (.record members) := by
  cases members with
  | nil =>
    rw [record_eq, List.map_nil, print]
    exact IsText.object allBlank_nil (List.forall_mem_nil fun m : MemberText =>
      IsText m.value m.json)
  | cons m members =>
    rcases exists_members (level + 1) level (allBlank_newLine (level + 1)) m members htexts with
      ⟨texts, hmembers, hvalues, hchars⟩
    have htext := IsText.object allBlank_nil hvalues
    rw [hmembers, hchars, List.nil_append] at htext
    rw [record_eq, List.map_cons, keyed, print, ← keyed, ← List.map_cons, ← record_eq]
    simpa using htext

/-- A writable value is written as a text of it. -/
theorem Writable.isText_print {j : Json} (h : Writable j) (level : Nat) :
    IsText (print level j) j := by
  induction h generalizing level with
  | null =>
    rw [print]
    exact .null
  | bool b =>
    cases b with
    | true =>
      rw [print]
      exact .boolTrue
    | false =>
      rw [print]
      exact .boolFalse
  | integer hlow hhigh =>
    rw [print]
    exact .integer hlow hhigh
  | @real x hfinite =>
    cases x with
    | nan => cases hfinite
    | infinite => cases hfinite
    | finite negative m =>
      rw [print, if_pos hfinite]
      exact .real (isReal_magnitudeText m negative) hfinite
  | text s =>
    have htext := IsText.text (spells_escape s.toList)
    rw [String.ofList_toList] at htext
    rw [print, quote]
    exact htext
  | array _ ih => exact isText_array fun j hj => ih j hj (level + 1)
  | record _ ih => exact isText_record fun m hm => ih m hm (level + 1)

end Json

/-- The plain format reads every text of a value, at any depth, and writes one. -/
instance : @LawfulJsonFormat JsonFormat.plain :=
  letI := JsonFormat.plain
  { read_text := fun h _ => h.parse
    write_text := fun h => by
      show Json.IsText (Json.pretty _).toList _
      rw [Json.pretty, String.toList_ofList]
      exact h.isText_print 0 }

end PortLogic
