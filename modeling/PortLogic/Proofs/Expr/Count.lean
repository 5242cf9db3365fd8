import PortLogic.Proofs.Expr.Visits
import PortLogic.Proofs.Memory.Cycle
import PortLogic.Proofs.Number.Decimal
import PortLogic.Proofs.Number.Rounding

/-!
# PortLogic.Proofs.Expr.Count — how many arguments leave a call without a value

Look-ups and sequences take any number of arguments from a least one on, and read them in pairs. A
number that leaves one of them without its partner makes the call undefined, whatever its arguments
are (`runCall_of_unpaired`). No other number does: with as many arguments as its function takes, a
call can have a value (`hasValue`), at its first evaluation or, where that only starts the memory,
at its second one.
-/

namespace PortLogic

-- powers of naturals are the built-in ones, whatever algebra is in scope
attribute [local instance (2000)] instPowNat

/-- Whether so many arguments leave one without its partner: the points of a look-up come after its
first argument, and a sequence has nothing but pairs. -/
def Func.leavesUnpaired : Func → Nat → Bool
  | .lut, count | .lutLi, count => count % 2 = 0
  | .sequence, count => count % 2 = 1
  | _, _ => false

theorem pairUp?_of_odd {α : Type} {xs : List α} (h : xs.length % 2 = 1) : pairUp? xs = none := by
  induction xs using pairUp?.induct with
  | case1 => cases h
  | case2 x => rfl
  | case3 x y rest ih =>
    have hrest : rest.length % 2 = 1 := by
      simp only [List.length_cons] at h
      omega
    rw [pairUp?, ih hrest]
    rfl

/-! ## Lists of one number -/

theorem foldl_replicate {α β : Type} {f : α → β → α} {a : α} {b : β} (h : f a b = a) (n : Nat) :
    (List.replicate n b).foldl f a = a := by
  induction n with
  | zero => rfl
  | succ n ih => rw [List.replicate_succ, List.foldl_cons, h, ih]

namespace Number

variable {x : Number} {m n : Nat}

/-- Zeros add nothing, however many they are. -/
theorem counts_sum_zeros (hx : Counts x m) (hm : m ≤ 2 ^ (53 : Nat)) (n : Nat) :
    Counts (sum (x :: List.replicate n 0)) m := by
  have hfirst : Counts (-0 + x) m := by
    rw [← Nat.zero_add m] at hm ⊢
    exact counts_negZero.add hx hm
  have hzeros : ∀ y ∈ List.replicate n (0 : Number), Counts y 0 := by
    intro y hy
    rw [List.eq_of_mem_replicate hy]
    exact counts_zero
  simpa [sum] using hfirst.foldl hzeros (by simpa using hm)

theorem product_ones (n : Nat) : product (List.replicate n 1) = 1 := by
  have hone : (1 : Number) * 1 = 1 := mul_one_of_isFinite (isFinite_ofNat (by decide))
  rw [product, foldl_replicate hone]

theorem min_self (x : Number) : min x x = x := by
  unfold min
  split_ifs <;> rfl

theorem max_self (x : Number) : max x x = x := by
  unfold max
  split_ifs <;> rfl

/-- A count from one on is not rounded to zero, however large it is. -/
theorem units_ne_zero_of_ofNat (hn : 0 < n) {m : Magnitude}
    (h : Magnitude.round? (n * Magnitude.unitsPerOne) 1 = some m) : m.units ≠ 0 := by
  -- the exponent stays a variable, as the power itself is too large to look at
  obtain ⟨k, hk⟩ : ∃ k, Magnitude.binaryPlaces = k := ⟨_, rfl⟩
  have hnearest : 2 ^ k ≤ Magnitude.nearest (n * Magnitude.unitsPerOne) 1 := by
    unfold Magnitude.unitsPerOne
    rw [hk]
    refine Magnitude.two_pow_le_nearest Nat.one_pos ?_
    rw [Nat.mul_one]
    exact Nat.le_mul_of_pos_left _ hn
  unfold Magnitude.round? at h
  split at h
  · cases h
    exact Nat.ne_of_gt (Nat.lt_of_lt_of_le (Nat.two_pow_pos k) hnearest)
  · cases h

theorem isFinite_zero_div (hx : Counts x 0) (hn : 0 < n) : (x / ofNat n).isFinite = true := by
  rcases Magnitude.exists_zero with ⟨z, hz⟩
  rcases hx with ⟨hunits, -⟩
  rename_i negative m
  rw [ofNat, round]
  cases hround : Magnitude.round? (n * Magnitude.unitsPerOne) 1 with
  | none =>
    show (round (negative ^^ false) 0 1).isFinite = true
    rw [round_zero hz]
    rfl
  | some d =>
    show (if d.units = 0 then _ else
      round (negative ^^ false) (m.units * Magnitude.unitsPerOne) d.units).isFinite = true
    rw [if_neg (units_ne_zero_of_ofNat hn hround), hunits, Nat.zero_mul, Nat.zero_mul,
      round_zero hz]
    rfl

theorem isFinite_mean_zeros (n : Nat) : (mean (0 :: List.replicate n 0)).isFinite = true := by
  have hsum : Counts (sum (0 :: List.replicate n 0)) 0 :=
    counts_sum_zeros counts_zero (Nat.zero_le _) n
  exact isFinite_zero_div hsum (Nat.succ_pos _)

end Number

open Number (counts_zero counts_ofNat)

/-- Points at the origin, whatever their number, are read as one. -/
theorem Func.lookup_zeros (interpolate : Bool) (n : Nat) :
    lookup interpolate 0 (Memory.Cycle.listed (List.replicate (n + 1) (0, 0))) = some 0 := by
  have hordered : (0 : Number).totalLe 0 = true := by
    simpa using Number.totalLe_total 0 0
  have hsorted : (List.replicate (n + 1) ((0 : Number), (0 : Number))).mergeSort
      (fun p q => p.1.totalLe q.1) = List.replicate (n + 1) (0, 0) :=
    List.mergeSort_of_pairwise (List.pairwise_replicate.mpr (.inr hordered))
  have hbelow : ¬(0 : Number) < 0 := by
    rw [counts_zero.lt_iff counts_zero]
    exact Nat.lt_irrefl 0
  have hbeyond : (0 : Number) ≤ 0 := (counts_zero.le_iff counts_zero).mpr (Nat.le_refl 0)
  rw [lookup, Memory.Cycle.pairUp?_listed, Option.bind_some, Lookup.inTable, hsorted,
    Lookup.inSorted, List.head?_replicate, List.getLast?_replicate, if_neg (Nat.succ_ne_zero n)]
  show (if (0 : Number) < 0 then _ else if (0 : Number) ≤ 0 then some 0 else _) = some 0
  rw [if_neg hbelow, if_pos hbeyond]

/-- A sequence of zeros, of which the first one lasts a millisecond, shows a zero. -/
theorem Memory.Cycle.step_zeros (m : Memory.Cycle) (n now : Nat) :
    (m.step (listed ((0, 1) :: List.replicate n (0, 0))) now).1 = some 0 := by
  have hone : Number.Counts 1 1 := counts_ofNat (by decide)
  have hforall {p : Number × Number → Prop} (hfirst : p (0, 1)) (hrest : p (0, 0)) :
      ∀ pair ∈ (0, 1) :: List.replicate n ((0 : Number), (0 : Number)), p pair := by
    rw [List.forall_mem_cons]
    refine ⟨hfirst, fun pair hpair => ?_⟩
    rwa [List.eq_of_mem_replicate hpair]
  have hnonneg : ∀ pair ∈ (0, 1) :: List.replicate n ((0 : Number), (0 : Number)),
      ¬pair.2 < 0 := by
    refine hforall ?_ ?_
    · rw [hone.lt_iff counts_zero]
      exact Nat.not_lt_zero 1
    · rw [counts_zero.lt_iff counts_zero]
      exact Nat.not_lt_zero 0
  have hperiod : (Number.sum (((0, 1) :: List.replicate n ((0 : Number), (0 : Number))).map
      Prod.snd)).Counts 1 := by
    rw [List.map_cons, List.map_replicate]
    exact Number.counts_sum_zeros hone (by decide) n
  -- with a duration in all, and none below zero, the sequence runs
  rw [step, pairUp?_listed]
  refine (congrArg Prod.fst (if_neg ?_)).trans
    (valueAt_of_forall (List.cons_ne_nil _ _) (hforall rfl rfl) _)
  rw [List.any_eq_true]
  rintro (⟨pair, hmem, hlt⟩ | hlasts)
  · exact hnonneg pair hmem (of_decide_eq_true hlt)
  · exact absurd ((hperiod.le_iff counts_zero).mp hlasts) (Nat.not_succ_le_zero 0)

namespace Expr

variable [Power] {func : Func} {memory : Memory} {values : List Value} {now : Now} {count : Nat}

/-! ## Numbers of arguments without a value -/

theorem run_of_unpaired {args : List Number} (h : func.leavesUnpaired args.length = true) :
    (func.run args memory now).1 = none := by
  have hlookup (interpolate : Bool) (x : Number) {table : List Number}
      (htable : decide ((x :: table).length % 2 = 0) = true) :
      Func.lookup interpolate x table = none := by
    have hodd : table.length % 2 = 1 := by
      have heven := of_decide_eq_true htable
      rw [List.length_cons] at heven
      omega
    rw [Func.lookup, pairUp?_of_odd hodd]
    rfl
  cases func with
  | lut =>
    cases args with
    | nil => cases memory <;> rfl
    | cons x table =>
      show (Func.lookup false x table).bind Number.finite? = none
      rw [hlookup false x h]
      rfl
  | lutLi =>
    cases args with
    | nil => cases memory <;> rfl
    | cons x table =>
      show (Func.lookup true x table).bind Number.finite? = none
      rw [hlookup true x h]
      rfl
  | sequence =>
    cases memory with
    | cycle m =>
      show (m.step args now.uptime).1.bind Number.finite? = none
      rw [Memory.Cycle.step, pairUp?_of_odd (of_decide_eq_true h)]
      rfl
    | _ => rfl
  | _ => cases h

/-- A call is undefined when its number of arguments leaves one of them without its partner. -/
theorem runCall_of_unpaired (h : func.leavesUnpaired values.length = true) :
    (runCall func memory values now).1 = none := by
  have hstrict : func.acceptsUndefined = false := by
    cases func with
    | available | default => cases h
    | _ => rfl
  unfold runCall
  rw [hstrict, if_neg Bool.false_ne_true]
  -- an undefined argument makes the call undefined as well
  cases hdefined : allDefined? values with
  | none => rfl
  | some args =>
    rw [allDefined?_eq_some.mp hdefined, List.length_map] at h
    exact run_of_unpaired h

/-! ## Numbers of arguments with a value -/

/-- Whether a call with so many arguments can have a value, at its second evaluation if not
before. -/
def HasValue (func : Func) (count : Nat) : Prop :=
  ∃ (first second : List Value) (earlier later : Now),
    first.length = count ∧ second.length = count ∧
      (runCall func (runCall func (Memory.initial func) first earlier).2.1 second later).1.isSome =
        true

theorem runCall_of_defined (hstrict : func.acceptsUndefined = false) (args : List Number) :
    (runCall func memory (args.map some) now).1 = (func.run args memory now).1 ∧
      (runCall func memory (args.map some) now).2.1 = (func.run args memory now).2 := by
  unfold runCall
  rw [hstrict, if_neg Bool.false_ne_true, allDefined?_eq_some.mpr rfl]
  exact ⟨rfl, rfl⟩

theorem hasValue_of_run (hstrict : func.acceptsUndefined = false) {xs ys : List Number}
    (earlier later : Now) (hxs : xs.length = count) (hys : ys.length = count)
    (h : (func.run ys (func.run xs (Memory.initial func) earlier).2 later).1.isSome = true) :
    HasValue func count := by
  refine ⟨xs.map some, ys.map some, earlier, later, ?_, ?_, ?_⟩
  · rwa [List.length_map]
  · rwa [List.length_map]
  · rwa [(runCall_of_defined hstrict ys).1, (runCall_of_defined hstrict xs).2]

/-- A function without a memory has a value where its row has a finite one. -/
theorem hasValue_of_compute (hstrict : func.acceptsUndefined = false) (xs : List Number)
    (hxs : xs.length = count) {value : Value} (hrow : func.compute? xs ⟨0, some 0⟩ = some value)
    (hfinite : (value.bind Number.finite?).isSome = true) : HasValue func count := by
  have hrun (memory : Memory) : (func.run xs memory ⟨0, some 0⟩).1 = value.bind Number.finite? := by
    unfold Func.run Func.run?
    rw [hrow]
  refine hasValue_of_run hstrict ⟨0, some 0⟩ ⟨0, some 0⟩ hxs hxs ?_
  rwa [hrun]

/-- A function with a memory has a value where its second step has a finite one. -/
theorem hasValue_of_step (hstrict : func.acceptsUndefined = false)
    (hstateful : Memory.initial func ≠ .none) (xs ys : List Number) (hxs : xs.length = count)
    (hys : ys.length = count) {skipped value : Value} {next last : Memory}
    (hfirst : (Memory.initial func).step? 0 func xs = some (skipped, next))
    (hsecond : next.step? 1000 func ys = some (value, last))
    (hfinite : (value.bind Number.finite?).isSome = true) : HasValue func count := by
  refine hasValue_of_run hstrict ⟨0, none⟩ ⟨1000, none⟩ hxs hys ?_
  have hnext : (func.run xs (Memory.initial func) ⟨0, none⟩).2 = next := by
    rw [Memory.run_of_stateful hstateful, hfirst]
    rfl
  rw [hnext, Memory.run_of_stateful hstateful, hsecond]
  exact hfinite

/-- A function that accepts undefined arguments has a value where its row does. -/
theorem hasValue_of_tolerate (hlenient : func.acceptsUndefined = true) (xs : List Value)
    (hxs : xs.length = count) {value : Value} (hrow : func.tolerate? xs = some value)
    (hdefined : value.isSome = true) : HasValue func count := by
  refine ⟨xs, xs, ⟨0, none⟩, ⟨0, none⟩, hxs, hxs, ?_⟩
  unfold runCall
  rw [hlenient, if_pos rfl, hrow]
  exact hdefined

omit [Power] in
theorem isSome_finite? {x : Number} (hx : x.isFinite = true) :
    ((some x).bind Number.finite?).isSome = true := by
  rw [Option.bind_some, Number.finite?, if_pos hx]
  rfl

omit [Power] in
theorem isSome_ofNat {n : Nat} (hn : n ≤ 2 ^ (53 : Nat)) :
    ((some (Number.ofNat n)).bind Number.finite?).isSome = true :=
  isSome_finite? (Number.isFinite_ofNat hn)

omit [Power] in
theorem isSome_ofBool (b : Bool) :
    ((some (Number.ofBool b)).bind Number.finite?).isSome = true := by
  cases b with
  | false => exact isSome_ofNat (Nat.zero_le _)
  | true => exact isSome_ofNat (by decide)

/-- A look-up has a value with any odd number of arguments from three on. -/
theorem hasValue_of_lookup {interpolate : Bool} (hstrict : func.acceptsUndefined = false)
    (hrow : ∀ x table, func.compute? (x :: table) ⟨0, some 0⟩ =
      some (Func.lookup interpolate x table)) (hleast : 5 ≤ count) (hodd : ¬count % 2 = 0) :
    HasValue func count := by
  obtain ⟨n, rfl⟩ : ∃ n, count = 2 * (n + 1) + 1 := ⟨count / 2 - 1, by omega⟩
  refine hasValue_of_compute hstrict (0 :: Memory.Cycle.listed (List.replicate (n + 1) (0, 0))) ?_
    (hrow _ _) ?_
  · rw [List.length_cons, Memory.Cycle.length_listed, List.length_replicate]
  · rw [Func.lookup_zeros]
    exact isSome_ofNat (Nat.zero_le _)

/-- A sequence has a value with any even number of arguments from two on. -/
theorem hasValue_of_sequence (hleast : 2 ≤ count) (heven : ¬count % 2 = 1) :
    HasValue .sequence count := by
  obtain ⟨n, rfl⟩ : ∃ n, count = 2 * (n + 1) := ⟨count / 2 - 1, by omega⟩
  have hlength : (Memory.Cycle.listed ((0, 1) :: List.replicate n (0, 0))).length =
      2 * (n + 1) := by
    rw [Memory.Cycle.length_listed, List.length_cons, List.length_replicate]
  refine hasValue_of_step rfl nofun _ _ hlength hlength rfl rfl ?_
  show ((Memory.Cycle.step _ _ 1000).1.bind Number.finite?).isSome = true
  rw [Memory.Cycle.step_zeros]
  exact isSome_ofNat (Nat.zero_le _)

/-- A function of a fixed number of arguments has a value for some of them. -/
theorem hasValue_of_exactly [LawfulPower] (h : func.arity = .exactly count) :
    HasValue func count := by
  cases func with
  | time | timeMs =>
    cases h
    exact hasValue_of_compute rfl [] rfl rfl (by decide +kernel)
  | not | bitNot | abs | sgn | floor | ceil =>
    cases h
    exact hasValue_of_compute rfl [0] rfl rfl (by decide +kernel)
  | sub | div | mod | xor | bitAnd | bitOr | bitXor | shl | shr | eq | gt | gte | lt | lte =>
    cases h
    exact hasValue_of_compute rfl [0, 1] rfl rfl (by decide +kernel)
  | select =>
    cases h
    exact hasValue_of_compute rfl [0, 0, 0] rfl rfl (by decide +kernel)
  | pow =>
    cases h
    refine hasValue_of_compute rfl [1, 0] rfl rfl ?_
    rw [LawfulPower.pow_zero 1 (by decide +kernel)]
    exact isSome_ofNat (by decide)
  | available =>
    cases h
    exact hasValue_of_tolerate rfl [none] rfl rfl rfl
  | default =>
    cases h
    exact hasValue_of_tolerate rfl [some 0, none] rfl rfl (by decide +kernel)
  | rising | falling =>
    cases h
    exact hasValue_of_step rfl nofun [0] [1] rfl rfl rfl rfl (by decide +kernel)
  | delay | sample | freeze | deriv | acc | accInc =>
    cases h
    -- a delay and a derivative need a change: their first evaluation has nothing to show
    exact hasValue_of_step rfl nofun [0, 0] [1, 0] rfl rfl rfl rfl (by decide +kernel)
  | held | integ | fmAvg | fmMedian | hyst =>
    cases h
    exact hasValue_of_step rfl nofun [0, 0, 0] [1, 0, 0] rfl rfl rfl rfl (by decide +kernel)
  | _ => cases h

/-- A function of any number of arguments from a least one on has a value for arguments that are all
the same, unless one of them is left without its partner. -/
theorem hasValue_of_atLeast {least : Nat} (h : func.arity = .atLeast least) (hleast : least ≤ count)
    (hpaired : func.leavesUnpaired count = false) : HasValue func count := by
  have hzeros (hleast : 2 ≤ count) :
      ∃ n, (0 :: List.replicate n (0 : Number)).length = count := by
    refine ⟨count - 1, ?_⟩
    rw [List.length_cons, List.length_replicate]
    omega
  cases func with
  | add =>
    cases h
    rcases hzeros hleast with ⟨n, hn⟩
    have hsum := Number.counts_sum_zeros counts_zero (Nat.zero_le _) n
    exact hasValue_of_compute rfl _ hn rfl (isSome_finite? hsum.isFinite)
  | mul =>
    cases h
    refine hasValue_of_compute rfl (List.replicate count 1) List.length_replicate rfl ?_
    rw [Number.product_ones]
    exact isSome_ofNat (by decide)
  | and | or =>
    cases h
    rcases hzeros hleast with ⟨n, hn⟩
    exact hasValue_of_compute rfl _ hn rfl (isSome_ofBool _)
  | min =>
    cases h
    rcases hzeros hleast with ⟨n, hn⟩
    refine hasValue_of_compute rfl _ hn rfl ?_
    rw [foldl_replicate (Number.min_self 0)]
    exact isSome_ofNat (Nat.zero_le _)
  | max =>
    cases h
    rcases hzeros hleast with ⟨n, hn⟩
    refine hasValue_of_compute rfl _ hn rfl ?_
    rw [foldl_replicate (Number.max_self 0)]
    exact isSome_ofNat (Nat.zero_le _)
  | avg =>
    cases h
    rcases hzeros hleast with ⟨n, hn⟩
    exact hasValue_of_compute rfl _ hn rfl (isSome_finite? (Number.isFinite_mean_zeros n))
  | lut | lutLi =>
    cases h
    exact hasValue_of_lookup rfl (fun _ _ => rfl) hleast (of_decide_eq_false hpaired)
  | sequence =>
    cases h
    exact hasValue_of_sequence hleast (of_decide_eq_false hpaired)
  | _ => cases h

/-- Rounding has a value without and with a number of decimals. -/
theorem hasValue_of_round [LawfulPower] (hleast : 1 ≤ count) (hmost : count ≤ 2) :
    HasValue .round count := by
  obtain rfl | rfl : count = 1 ∨ count = 2 := by omega
  · exact hasValue_of_compute rfl [0] rfl rfl (by decide +kernel)
  · have hplaces : (0 : Number).toIntWithin (-Decimals.maxPlaces) Decimals.maxPlaces =
        (0 : Nat) := by
      decide +kernel
    have hrounded : ((0 * Number.ofNat (10 ^ 0)).roundHalfAway / Number.ofNat (10 ^ 0)).isFinite =
        true := by
      decide +kernel
    refine hasValue_of_compute rfl [0, 0] rfl rfl ?_
    rw [hplaces, Decimals.roundTo_of_le 0 (by decide) (by decide),
      Number.tenPow_natCast (by decide)]
    exact isSome_finite? hrounded

/-- With as many arguments as its function takes, and none of them without its partner, a call can
have a value. -/
theorem hasValue [LawfulPower] (harity : func.arity.accepts count = true)
    (hpaired : func.leavesUnpaired count = false) : HasValue func count := by
  cases h : func.arity with
  | exactly n =>
    rw [h] at harity
    obtain rfl : count = n := of_decide_eq_true harity
    exact hasValue_of_exactly h
  | atLeast least =>
    rw [h] at harity
    exact hasValue_of_atLeast h (of_decide_eq_true harity) hpaired
  | between low high =>
    cases func with
    | round =>
      have hcount : 1 ≤ count ∧ count ≤ 2 := of_decide_eq_true harity
      exact hasValue_of_round hcount.1 hcount.2
    | _ => cases h

end Expr

end PortLogic
