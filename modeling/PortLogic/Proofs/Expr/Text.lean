import PortLogic.Proofs.Expr.Grammar
import PortLogic.Proofs.Expr.Literal

/-!
# PortLogic.Proofs.Expr.Text — trees written and read back

The text of a tree that was read is read as that tree, whatever port reads it, since references are
written with their identifiers (`parse_text`). Only the sign of a zero gets lost (`Expr.written`).

1. **Trees that were read**: `Parsed room` says what a reading guarantees of its tree.
2. **Texts are derived**: by induction on the tree, its text is a sentence of the grammar, and so is
   read.
3. **Equality**: what is read back is equal to the tree that was written (`parse_text_of_parse`).
-/

namespace PortLogic

/-! ## Trees that were read -/

namespace Expr

/-- A tree as it is read where calls may be nested `room` deep. -/
inductive Parsed : Nat → Expr → Prop where
  | literal {room : Nat} {x : Number} (hfinite : x.isFinite = true) : Parsed room (.literal x)
  | port {room : Nat} {id : String} (hvalid : PortId.isValid id.toList = true) :
      Parsed room (.port id)
  | call {room : Nat} {func : Func} {args : List Expr}
      (harity : func.arity.accepts args.length = true) (hargs : ∀ e ∈ args, Parsed room e) :
      Parsed (room + 1) (fresh func args)

variable {owner source : String} {room : Nat} {s : Span} {e : Expr}

theorem read_parsed (howner : PortId.isValid owner.toList = true)
    (h : read owner room s = .ok e) : Parsed room e := by
  refine read_induction ?_ ?_ ?_ h
  · intro room x hfinite
    exact Parsed.literal hfinite
  · rintro room id (rfl | hvalid)
    · exact Parsed.port howner
    · exact Parsed.port hvalid
  · intro room func args harity hargs
    exact Parsed.call harity hargs

theorem parse_parsed (howner : PortId.isValid owner.toList = true)
    (h : parse owner source = .ok e) : Parsed maxNesting e :=
  read_parsed howner h

/-! ## The tree that a text denotes -/

mutual
/-- The tree that the text of a tree denotes: a zero has no sign there. -/
def written : Expr → Expr
  | .literal x => .literal x.written
  | .port id => .port id
  | .call func _ args => fresh func (writtenAll args)
/-- The trees that the texts of arguments denote. -/
def writtenAll : List Expr → List Expr
  | [] => []
  | e :: es => e.written :: writtenAll es
end

theorem writtenAll_eq_map (es : List Expr) : writtenAll es = es.map written := by
  induction es with
  | nil => rfl
  | cons e es ih => rw [writtenAll, List.map_cons, ih]

mutual
@[simp]
theorem text_written (e : Expr) : e.written.text = e.text := by
  match e with
  | .literal x =>
    rw [written, text, text]
    exact Number.sourceText_written x
  | .port _ => rfl
  | .call _ _ args =>
    rw [written, fresh, text, text]
    rw [textOfAll_writtenAll args]

@[simp]
theorem textOfAll_writtenAll (es : List Expr) : textOfAll (writtenAll es) = textOfAll es := by
  match es with
  | [] => rfl
  | [e] =>
    rw [writtenAll, writtenAll, textOfAll, textOfAll]
    exact text_written e
  | e :: d :: es =>
    rw [writtenAll, writtenAll, textOfAll, textOfAll]
    rw [← writtenAll, text_written e, textOfAll_writtenAll (d :: es)]
end

mutual
@[simp]
theorem ports_written (e : Expr) : e.written.ports = e.ports := by
  match e with
  | .literal _ => rfl
  | .port _ => rfl
  | .call _ _ args =>
    rw [written, fresh, ports, ports]
    exact portsOfAll_writtenAll args

@[simp]
theorem portsOfAll_writtenAll (es : List Expr) : portsOfAll (writtenAll es) = portsOfAll es := by
  match es with
  | [] => rfl
  | e :: es =>
    rw [writtenAll, portsOfAll, portsOfAll]
    rw [ports_written e, portsOfAll_writtenAll es]
end

end Expr

/-! ## Texts are derived -/

namespace Expr

variable {owner : String} {room : Nat} {e : Expr}

theorem toList_text_port (id : String) : (text (.port id)).toList = '$' :: id.toList := by
  rw [text, String.toList_append]
  rfl

theorem toList_text_call (func : Func) (memory : Memory) (args : List Expr) :
    (text (.call func memory args)).toList =
      func.name.toList ++ '(' :: ((textOfAll args).toList ++ [')']) := by
  rw [text, String.toList_append, String.toList_append, String.toList_append, List.append_assoc,
    List.append_assoc]
  rfl

/-- Each argument but the first is written with a blank before it. -/
theorem toList_textOfAll (e : Expr) (es : List Expr) :
    (textOfAll (e :: es)).toList =
      [','].intercalate (e.text.toList :: es.map fun d => ' ' :: d.text.toList) := by
  induction es generalizing e with
  | nil => rw [textOfAll, List.map_nil, List.intercalate_singleton]
  | cons d es ih =>
    have hblank :
        [','].intercalate ((' ' :: d.text.toList) :: es.map fun d => ' ' :: d.text.toList) =
          ' ' :: [','].intercalate (d.text.toList :: es.map fun d => ' ' :: d.text.toList) := by
      cases es with
      | nil => rfl
      | cons _ _ => rfl
    rw [textOfAll, String.toList_append, String.toList_append, ih, List.map_cons,
      List.intercalate_cons_cons, hblank]
    simp

/-- The texts of arguments are the items of a list. -/
theorem exists_items (args : List Expr) (h : ∀ e ∈ args, Derives owner e.text.toList e.written) :
    ∃ items : List (List Char × Expr),
      ListText (textOfAll args).toList (items.map Prod.fst) ∧
        (∀ item ∈ items, Derives owner item.1 item.2) ∧ items.map Prod.snd = writtenAll args := by
  cases args with
  | nil => exact ⟨[], ListText.blank (by simp [textOfAll]), by simp, rfl⟩
  | cons e es =>
    refine ⟨(e.text.toList, e.written) :: es.map fun d => (' ' :: d.text.toList, d.written),
      ?_, ?_, ?_⟩
    · rw [toList_textOfAll, List.map_cons, List.map_map]
      exact ListText.items _ _
    · rw [List.forall_mem_cons, List.forall_mem_map]
      refine ⟨h e List.mem_cons_self, ?_⟩
      intro d hd
      have hpadded : Derives owner ([' '] ++ d.text.toList ++ []) d.written :=
        Derives.padded (List.all_eq_true.mp rfl) (by simp) (h d (List.mem_cons_of_mem e hd))
      rwa [List.append_nil] at hpadded
    · rw [writtenAll, writtenAll_eq_map, List.map_cons, List.map_map]
      rfl

/-- The name of a function is in capital letters. -/
theorem map_toUpper_name (func : Func) : func.name.toList.map Char.toUpper = func.name.toList := by
  cases func <;> rfl

/-- The text of a tree is a sentence of the grammar. -/
theorem text_derives (h : Parsed room e) : Derives owner e.text.toList e.written := by
  induction h with
  | literal hfinite =>
    rcases Number.exists_signed hfinite with ⟨d, hchars, hdenotes⟩
    rw [text, hchars, written, ← hdenotes]
    exact Derives.decimal d (hdenotes ▸ Number.written_isFinite hfinite)
  | port hvalid =>
    rw [toList_text_port]
    exact Derives.port hvalid
  | @call room func args harity hargs ih =>
    rcases exists_items args ih with ⟨items, hlist, hitems, htrees⟩
    have hlength : items.length = args.length := by
      rw [← List.length_map Prod.snd, htrees, writtenAll_eq_map, List.length_map]
    rw [fresh, toList_text_call, written, ← htrees, ← List.append_nil func.name.toList]
    exact Derives.call (map_toUpper_name func) (by simp) hlist hitems (hlength ▸ harity)

/-- Calls stay nested as deep as they were. -/
theorem nesting_written_le (h : Parsed room e) : e.written.nesting ≤ room := by
  induction h with
  | literal _ => exact Nat.zero_le _
  | port _ => exact Nat.zero_le _
  | call _ _ ih =>
    rw [fresh, written, nesting_fresh_le, writtenAll_eq_map, List.forall_mem_map]
    exact ih

/-! ## Reading -/

/-- The text of a tree that was read is read as that tree, whatever port reads it. -/
theorem read_text (h : Parsed room e) (start : Nat) :
    read owner room ⟨start, e.text.toList⟩ = .ok e.written :=
  (text_derives h).read (nesting_written_le h) start

theorem parse_text (h : Parsed maxNesting e) (owner : String) :
    parse owner e.text = .ok e.written :=
  read_text h 0

/-! ## Equality -/

theorem beqAll_writtenAll (es : List Expr) (h : ∀ e ∈ es, beq e.written e = true) :
    beqAll (writtenAll es) es = true := by
  induction es with
  | nil => rfl
  | cons e es ih =>
    rw [writtenAll, beqAll, h e List.mem_cons_self,
      ih fun d hd => h d (List.mem_cons_of_mem e hd)]
    rfl

/-- The tree that a text denotes is equal to the one that was written: no comparison of numbers
tells the zeros apart. -/
theorem written_beq (h : Parsed room e) : (e.written == e) = true := by
  show beq e.written e = true
  induction h with
  | @literal room x hfinite =>
    rw [written, beq]
    unfold Number.written
    split
    · next hzero => exact (Number.alike_of_beq hzero).symm.beq (by decide +kernel)
    · exact (Number.Alike.refl x).beq hfinite
  | port hvalid => exact beq_self_eq_true _
  | @call room func args harity hargs ih =>
    rw [fresh, written, fresh, beq, beqAll_writtenAll args ih, beq_self_eq_true func,
      beq_self_eq_true (Memory.initial func)]
    rfl

/-- Writing a tree and reading the text gives the tree back, and then the text again. It does not
matter which port reads the text: a reference to the owner is written with its identifier. -/
theorem parse_text_of_parse {source : String} (howner : PortId.isValid owner.toList = true)
    (h : parse owner source = .ok e) (reader : String) :
    ∃ d, parse reader e.text = .ok d ∧ (d == e) = true ∧ d.text = e.text :=
  ⟨e.written, parse_text (parse_parsed howner h) reader, written_beq (parse_parsed howner h),
    text_written e⟩

/-- A negative zero, numbers on both sides of the longest integer text, a call without arguments,
and a reference to the owner that another port reads. -/
theorem parse_text_of_mixed_source :
    ∃ e, parse "p" " max( -0 , 999999999999999,1000000000000000.5, if($,time( ),-.25))" = .ok e ∧
      e.text = "MAX(0, 999999999999999, 1000000000000000.5, IF($p, TIME(), -0.25))" ∧
      ∃ d, parse "q" e.text = .ok d ∧ (d == e) = true ∧ d.text = e.text := by
  have hread : (parse "p" " max( -0 , 999999999999999,1000000000000000.5, if($,time( ),-.25))"
      ).toOption.any (fun e => e.text =
        "MAX(0, 999999999999999, 1000000000000000.5, IF($p, TIME(), -0.25))") = true := by
    decide +kernel
  cases hparse : parse "p" " max( -0 , 999999999999999,1000000000000000.5, if($,time( ),-.25))" with
  | error err =>
    rw [hparse] at hread
    cases hread
  | ok e =>
    rw [hparse] at hread
    exact ⟨e, rfl, of_decide_eq_true hread, parse_text_of_parse (by decide) hparse "q"⟩

end Expr

end PortLogic
