import PortLogic.Proofs.Text

/-!
# PortLogic.Proofs.Bytes — texts and their bytes

A byte offset into a text is on a character boundary or inside a character. `slice?` is the part of
a text between two boundaries, and nothing else (`slice?_eq_some`); `lossy?` decodes the bytes
between any two offsets, with U+FFFD for what is no character. A byte of a character in ASCII is the
character, and a byte of any other is above ASCII (`Shows`), so that a test for ASCII characters
finds the same in the bytes of a text as in its characters.
-/

namespace PortLogic

namespace Text

/-! ## Counting -/

@[simp]
theorem byteCount_nil : byteCount [] = 0 := rfl

@[simp]
theorem byteCount_cons (c : Char) (cs : List Char) :
    byteCount (c :: cs) = c.utf8Size + byteCount cs := rfl

@[simp]
theorem byteCount_append (cs ds : List Char) :
    byteCount (cs ++ ds) = byteCount cs + byteCount ds := by
  unfold byteCount
  rw [List.map_append, List.sum_append]

/-- Bytes of a text as characters: the one with the number of the byte. -/
def codes (cs : List Char) : List Char :=
  (cs.flatMap String.utf8EncodeChar).map Char.ofUInt8

theorem codes_append (cs ds : List Char) : codes (cs ++ ds) = codes cs ++ codes ds := by
  unfold codes
  rw [List.flatMap_append, List.map_append]

theorem codes_cons (c : Char) (cs : List Char) : codes (c :: cs) = codes [c] ++ codes cs :=
  codes_append [c] cs

@[simp]
theorem length_codes (cs : List Char) : (codes cs).length = byteCount cs := by
  induction cs with
  | nil => rfl
  | cons c cs ih =>
    rw [codes_cons, List.length_append, ih, byteCount_cons]
    simp [codes, String.length_utf8EncodeChar]

theorem utf8ByteSize_eq (text : String) : text.utf8ByteSize = byteCount text.toList := by
  rw [← length_codes, codes, List.length_map, ← List.size_toByteArray]
  exact congrArg ByteArray.size String.utf8Encode_toList.symm

/-! ## Slices -/

/-- The characters before a byte offset and those after it. None when the offset is out of range or
inside a character. -/
def cut? : Nat → List Char → Option (List Char × List Char)
  | 0, cs => some ([], cs)
  | _ + 1, [] => none
  | n + 1, c :: cs =>
    if c.utf8Size ≤ n + 1 then
      (cut? (n + 1 - c.utf8Size) cs).map fun (front, rest) => (c :: front, rest)
    else none

theorem cut?_eq_some {n : Nat} {cs front rest : List Char} :
    cut? n cs = some (front, rest) ↔ cs = front ++ rest ∧ byteCount front = n := by
  induction cs generalizing n front rest with
  | nil =>
    cases n with
    | zero =>
      rw [cut?]
      constructor
      · intro h
        rcases Prod.mk.inj (Option.some.inj h) with ⟨rfl, rfl⟩
        exact ⟨rfl, rfl⟩
      · rintro ⟨hnil, -⟩
        rcases List.append_eq_nil_iff.mp hnil.symm with ⟨rfl, rfl⟩
        rfl
    | succ n =>
      constructor
      · intro h
        cases h
      · rintro ⟨hnil, hcount⟩
        rw [(List.append_eq_nil_iff.mp hnil.symm).1] at hcount
        cases hcount
  | cons c cs ih =>
    have hsize : 0 < c.utf8Size := c.utf8Size_pos
    cases n with
    | zero =>
      rw [cut?]
      constructor
      · intro h
        rcases Prod.mk.inj (Option.some.inj h) with ⟨rfl, rfl⟩
        exact ⟨rfl, rfl⟩
      · rintro ⟨hcs, hcount⟩
        cases front with
        | nil => rw [hcs, List.nil_append]
        | cons d front =>
          have hpos := d.utf8Size_pos
          rw [byteCount_cons] at hcount
          omega
    | succ n =>
      rw [cut?]
      constructor
      · intro h
        split at h
        · next hle =>
          rcases Option.map_eq_some_iff.mp h with ⟨⟨inner, after⟩, hcut, heq⟩
          rcases Prod.mk.inj heq with ⟨rfl, rfl⟩
          rcases ih.mp hcut with ⟨rfl, hcount⟩
          refine ⟨rfl, ?_⟩
          rw [byteCount_cons]
          omega
        · cases h
      · rintro ⟨hcs, hcount⟩
        cases front with
        | nil => cases hcount
        | cons d front =>
          rcases List.cons.inj hcs with ⟨rfl, rfl⟩
          rw [byteCount_cons] at hcount
          rw [if_pos (by omega), ih.mpr ⟨rfl, by omega⟩]
          rfl

/-- The text between two byte offsets. None when they are no range of the text, or one of them is
inside a character. -/
def slice? (cs : List Char) (start stop : Nat) : Option (List Char) :=
  if start ≤ stop then
    (cut? start cs).bind fun (_, rest) => (cut? (stop - start) rest).map Prod.fst
  else none

theorem slice?_eq_some {cs text : List Char} {start stop : Nat} :
    slice? cs start stop = some text ↔
      ∃ before after, cs = before ++ text ++ after ∧ byteCount before = start ∧
        start + byteCount text = stop := by
  unfold slice?
  constructor
  · intro h
    split at h
    · next hle =>
      rcases Option.bind_eq_some_iff.mp h with ⟨⟨before, rest⟩, hbefore, hrest⟩
      rcases Option.map_eq_some_iff.mp hrest with ⟨⟨front, after⟩, hcut, rfl⟩
      rcases cut?_eq_some.mp hbefore with ⟨rfl, hstart⟩
      rcases cut?_eq_some.mp hcut with ⟨rfl, hcount⟩
      exact ⟨before, after, (List.append_assoc ..).symm, hstart, by rw [hcount]; omega⟩
    · cases h
  · rintro ⟨before, after, rfl, rfl, rfl⟩
    rw [if_pos (Nat.le_add_right ..), Nat.add_sub_cancel_left, List.append_assoc,
      cut?_eq_some.mpr ⟨rfl, rfl⟩]
    show (cut? (byteCount text) (text ++ after)).map Prod.fst = some text
    rw [cut?_eq_some.mpr ⟨rfl, rfl⟩]
    rfl

/-- Between two character boundaries there is a text. -/
theorem exists_slice? {source : String} {start stop : Nat}
    (hstart : (⟨start⟩ : String.Pos.Raw).IsValid source)
    (hstop : (⟨stop⟩ : String.Pos.Raw).IsValid source) (hle : start ≤ stop) :
    ∃ text : String, slice? source.toList start stop = some text.toList := by
  obtain ⟨front, rest, hfront, hstart⟩ := String.Pos.Raw.isValid_iff_exists_append.mp hstart
  obtain ⟨whole, back, hwhole, hstop⟩ := String.Pos.Raw.isValid_iff_exists_append.mp hstop
  have hcountFront : byteCount front.toList = start := by
    rw [← utf8ByteSize_eq]
    exact (congrArg String.Pos.Raw.byteIdx hstart).symm
  have hcountWhole : byteCount whole.toList = stop := by
    rw [← utf8ByteSize_eq]
    exact (congrArg String.Pos.Raw.byteIdx hstop).symm
  have htwo : front.toList ++ rest.toList = whole.toList ++ back.toList := by
    rw [← String.toList_append, ← String.toList_append, ← hfront, ← hwhole]
  -- the front is a part of the whole, as it is not longer
  have hprefix : front.toList <+: whole.toList := by
    rcases List.append_eq_append_iff.mp htwo with ⟨more, hmore, -⟩ | ⟨more, hmore, -⟩
    · exact ⟨more, hmore.symm⟩
    · cases more with
      | nil => exact ⟨[], by rw [hmore, List.append_nil, List.append_nil]⟩
      | cons c more =>
        have hsize := c.utf8Size_pos
        rw [hmore, byteCount_append, byteCount_cons] at hcountFront
        omega
  obtain ⟨text, htext⟩ := hprefix
  refine ⟨String.ofList text, ?_⟩
  rw [String.toList_ofList]
  refine slice?_eq_some.mpr ⟨front.toList, back.toList, ?_, hcountFront, ?_⟩
  · rw [htext, hwhole, String.toList_append]
  · rw [← hcountFront, ← hcountWhole, ← htext, byteCount_append]

/-! ## Decoding -/

/-- Decodes bytes of a text, after some that are left out. The bytes of a part of a character show
as U+FFFD, one for a front part and one for each byte of another part. -/
def lossy : (skip take : Nat) → List Char → List Char
  | _, _, [] => []
  | skip, take, c :: cs =>
    if c.utf8Size ≤ skip then lossy (skip - c.utf8Size) take cs
    else if take = 0 then []
    else if skip = 0 then
      if c.utf8Size ≤ take then c :: lossy 0 (take - c.utf8Size) cs else ['\ufffd']
    else
      let inside := min take (c.utf8Size - skip)
      List.replicate inside '\ufffd' ++ lossy 0 (take - inside) cs

/-- Decodes the bytes between two offsets. None when they are no range of the text. -/
def lossy? (cs : List Char) (start stop : Nat) : Option (List Char) :=
  if start ≤ stop ∧ stop ≤ byteCount cs then some (lossy start (stop - start) cs) else none

theorem lossy_zero (cs : List Char) : lossy 0 0 cs = [] := by
  cases cs with
  | nil => rfl
  | cons c cs => rw [lossy, if_neg (Nat.not_le_of_gt c.utf8Size_pos), if_pos rfl]

theorem lossy_byteCount (before : List Char) (take : Nat) (cs : List Char) :
    lossy (byteCount before) take (before ++ cs) = lossy 0 take cs := by
  induction before with
  | nil => rfl
  | cons c before ih =>
    rw [byteCount_cons, List.cons_append, lossy, if_pos (Nat.le_add_right ..),
      Nat.add_sub_cancel_left, ih]

/-- Between character boundaries, decoding is slicing. -/
theorem lossy?_of_slice? {cs text : List Char} {start stop : Nat}
    (h : slice? cs start stop = some text) : lossy? cs start stop = some text := by
  have hwhole (text after : List Char) : lossy 0 (byteCount text) (text ++ after) = text := by
    induction text with
    | nil => exact lossy_zero after
    | cons c text ih =>
      have hsize : 0 < c.utf8Size := c.utf8Size_pos
      rw [byteCount_cons, List.cons_append, lossy, if_neg (by omega), if_neg (by omega),
        if_pos rfl, if_pos (Nat.le_add_right ..), Nat.add_sub_cancel_left, ih]
  rcases slice?_eq_some.mp h with ⟨before, after, rfl, rfl, rfl⟩
  unfold lossy?
  rw [if_pos ⟨Nat.le_add_right .., by simp⟩, Nat.add_sub_cancel_left, List.append_assoc,
    lossy_byteCount, hwhole]

/-- The first byte of a character is the character, or U+FFFD. -/
theorem lossy?_first (before : List Char) (c : Char) (after : List Char) :
    lossy? (before ++ c :: after) (byteCount before) (byteCount before + 1) =
      some [if c.utf8Size = 1 then c else '\ufffd'] := by
  have hsize : 0 < c.utf8Size := c.utf8Size_pos
  unfold lossy?
  rw [if_pos ⟨Nat.le_add_right .., by simp; omega⟩, Nat.add_sub_cancel_left, lossy_byteCount, lossy,
    if_neg (by omega), if_neg (by omega), if_pos rfl]
  by_cases hone : c.utf8Size = 1
  · rw [if_pos (Nat.le_of_eq hone), if_pos hone, hone, lossy_zero]
  · rw [if_neg (by omega), if_neg hone]

/-! ## Bytes of characters -/

/-- A byte that stands for a character: the character, or one above ASCII as the character is. -/
def Shows (d c : Char) : Prop :=
  d = c ∨ 128 ≤ d.toNat ∧ 128 ≤ c.toNat

/-- A predicate of characters in ASCII. -/
def Ascii (p : Char → Bool) : Prop :=
  ∀ c, p c = true → c.toNat < 128

theorem Ascii.eq_false {p : Char → Bool} (hp : Ascii p) {c : Char} (h : 128 ≤ c.toNat) :
    p c = false := by
  by_contra htrue
  have hlow := hp c (by simpa using htrue)
  omega

theorem Shows.apply {p : Char → Bool} {d c : Char} (h : Shows d c) (hp : Ascii p) : p d = p c := by
  rcases h with rfl | ⟨hd, hc⟩
  · rfl
  · rw [hp.eq_false hd, hp.eq_false hc]

theorem Shows.eq_iff {a d c : Char} (h : Shows d c) (ha : a.toNat < 128) : d = a ↔ c = a := by
  have hp : Ascii (· == a) := fun e he => by rwa [eq_of_beq he]
  have heq : (d == a) = (c == a) := h.apply hp
  rw [← beq_iff_eq, heq, beq_iff_eq]

theorem toNat_lt_iff {c : Char} : c.toNat < 128 ↔ c.utf8Size = 1 := by
  rw [Char.utf8Size_eq_one_iff, UInt32.le_iff_toNat_le]
  exact Nat.lt_succ_iff

theorem codes_ascii {c : Char} (h : c.toNat < 128) : codes [c] = [c] := by
  have hencode : String.utf8EncodeChar c = [c.val.toUInt8] :=
    String.utf8EncodeChar_eq_singleton (toNat_lt_iff.mp h)
  have hsame : Char.ofUInt8 c.val.toUInt8 = c := by
    have hmod : c.val.toNat % 256 = c.val.toNat := Nat.mod_eq_of_lt (Nat.lt_trans h (by decide))
    refine Char.ext (UInt32.toNat_inj.mp ?_)
    show c.val.toUInt8.toUInt32.toNat = c.val.toNat
    rw [UInt8.toNat_toUInt32, UInt32.toNat_toUInt8, hmod]
  rw [codes, List.flatMap_singleton, hencode, List.map_singleton, hsame]

/-- The bytes of a character above ASCII are above ASCII. -/
theorem codes_high {c d : Char} (h : 128 ≤ c.toNat) (hd : d ∈ codes [c]) : 128 ≤ d.toNat := by
  rw [codes, List.flatMap_singleton] at hd
  rcases List.mem_map.mp hd with ⟨b, hb, rfl⟩
  have hvalue : c.val.toNat = c.toNat := rfl
  have hnat : (Char.ofUInt8 b).toNat = b.toNat := UInt8.toNat_toUInt32 b
  rw [hnat]
  unfold String.utf8EncodeChar at hb
  simp only [hvalue] at hb
  rw [if_neg (by omega)] at hb
  -- the first byte of a character tells how many there are, and each of them has its high bit set
  split at hb
  · simp only [List.mem_cons, List.not_mem_nil, or_false] at hb
    rcases hb with rfl | rfl <;> simp <;> omega
  split at hb
  · simp only [List.mem_cons, List.not_mem_nil, or_false] at hb
    rcases hb with rfl | rfl | rfl <;> simp <;> omega
  · simp only [List.mem_cons, List.not_mem_nil, or_false] at hb
    rcases hb with rfl | rfl | rfl | rfl <;> simp <;> omega

theorem shows_of_mem {c d : Char} (hd : d ∈ codes [c]) : Shows d c := by
  rcases Nat.lt_or_ge c.toNat 128 with hlow | hhigh
  · rw [codes_ascii hlow] at hd
    exact Or.inl (List.mem_singleton.mp hd)
  · exact Or.inr ⟨codes_high hhigh hd, hhigh⟩

/-- The bytes of a character in a text show it. -/
theorem exists_shows (before after : List Char) {c : Char} {i : Nat} (hi : i < c.utf8Size) :
    ∃ d, (codes (before ++ c :: after))[byteCount before + i]? = some d ∧ Shows d c := by
  have hlt : i < (codes [c]).length := by simpa using hi
  refine ⟨(codes [c])[i], ?_, shows_of_mem (List.getElem_mem hlt)⟩
  rw [codes_append, List.getElem?_append_right (by simp), length_codes, Nat.add_sub_cancel_left,
    codes_cons, List.getElem?_append_left hlt, List.getElem?_eq_getElem hlt]

/-- The bytes of a text start with its first character, or with a byte above ASCII as that character
is. -/
theorem codes_first (c : Char) (cs : List Char) :
    c.toNat < 128 ∧ codes (c :: cs) = c :: codes cs ∨
      128 ≤ c.toNat ∧ ∃ d ds, codes (c :: cs) = d :: ds ∧ 128 ≤ d.toNat := by
  rw [codes_cons]
  rcases Nat.lt_or_ge c.toNat 128 with hlow | hhigh
  · left
    rw [codes_ascii hlow]
    exact ⟨hlow, rfl⟩
  · right
    cases hcodes : codes [c] with
    | nil =>
      have hlength := length_codes [c]
      have hsize := c.utf8Size_pos
      rw [hcodes, byteCount_cons, List.length_nil] at hlength
      omega
    | cons d ds =>
      have hd : d ∈ codes [c] := hcodes ▸ List.mem_cons_self
      exact ⟨hhigh, d, ds ++ codes cs, rfl, codes_high hhigh hd⟩

/-! ## Finding bytes -/

/-- The first byte with a property is the first character with it. -/
theorem findIdx?_codes {p : Char → Bool} (hp : Ascii p) (cs : List Char) :
    (codes cs).findIdx? p =
      if cs.any p then some (byteCount (cs.takeWhile fun c => !p c)) else none := by
  induction cs with
  | nil => rfl
  | cons c cs ih =>
    rw [codes_cons, List.any_cons, List.takeWhile_cons]
    cases hc : p c with
    | true =>
      rw [codes_ascii (hp c hc), List.singleton_append, List.findIdx?_cons, hc]
      rfl
    | false =>
      have hnone : (codes [c]).findIdx? p = none := by
        rw [List.findIdx?_eq_none_iff]
        intro d hd
        rw [(shows_of_mem hd).apply hp, hc]
      rw [List.findIdx?_append, hnone, ih, length_codes]
      cases cs.any p with
      | true => simp [Nat.add_comm]
      | false => rfl

/-- The first byte without a property stands where the first character without it does, after
characters of one byte. -/
theorem findIdx?_not_codes {p : Char → Bool} (hp : Ascii p) (cs : List Char) :
    (codes cs).findIdx? (fun c => !p c) = cs.findIdx? fun c => !p c := by
  induction cs with
  | nil => rfl
  | cons c cs ih =>
    rcases codes_first c cs with ⟨-, hcodes⟩ | ⟨hc, d, ds, hcodes, hd⟩
    · rw [hcodes, List.findIdx?_cons, List.findIdx?_cons, ih]
    · rw [hcodes, List.findIdx?_cons, List.findIdx?_cons, hp.eq_false hc, hp.eq_false hd]
      rfl

end Text

end PortLogic
