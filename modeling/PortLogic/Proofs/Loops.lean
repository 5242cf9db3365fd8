import Mathlib.Logic.Relation
import PortLogic.Proofs.Expr.Parse
import PortLogic.Proofs.Table
import PortLogic.Table.Loops

/-!
# PortLogic.Proofs.Loops — what the search for loops tells

A search that finds its owner has followed a chain of references to it (`exists_leads`). The search
visits each port once, whatever path leads to it, so a search that finds nothing does not say at
once that no path leads back. What it says is that the ports it went through form a set that leads
neither to the owner nor out of itself (`exists_exhausted`). When the references of one port change
to such a set, no loop through two ports appears (`loopFree_redirect`).
-/

namespace PortLogic

open Relation

namespace Table

variable {δ : Type}

/-! ## The search -/

section Search

variable {owner : String} {references : String → List String}

/-- A set of ports that a search went through without finding its owner. -/
structure Exhausted (owner : String) (references : String → List String)
    (unvisited : List String) (pending : List (Nat × String)) (seen : String → Prop) : Prop where
  apart : ¬seen owner
  start : ∀ depth id, (depth, id) ∈ pending → id ≠ owner → id ∈ unvisited → seen id
  flat : ∀ depth, (depth, owner) ∈ pending → depth ≤ 1
  step : ∀ id next, seen id → next ∈ references id →
    next ≠ owner ∧ (next ∈ unvisited → seen next)

namespace Exhausted

variable {unvisited : List String} {pending : List (Nat × String)} {seen : String → Prop}
  {depth : Nat} {id : String}

theorem nothing (unvisited : List String) :
    Exhausted owner references unvisited [] fun _ => False := by
  refine ⟨fun h => h, ?_, ?_, ?_⟩
  · intro _ _ h
    cases h
  · intro _ h
    cases h
  · intro _ _ h
    cases h

/-- A reference of the owner to itself is passed over. -/
theorem own (h : Exhausted owner references unvisited pending seen) (hflat : depth ≤ 1) :
    Exhausted owner references unvisited ((depth, owner) :: pending) seen := by
  refine ⟨h.apart, ?_, ?_, h.step⟩
  · intro d id hmem hne hun
    rcases List.mem_cons.mp hmem with heq | hmem
    · exact absurd (Prod.mk.inj heq).2 hne
    · exact h.start d id hmem hne hun
  · intro d hmem
    rcases List.mem_cons.mp hmem with heq | hmem
    · rw [(Prod.mk.inj heq).1]
      exact hflat
    · exact h.flat d hmem

/-- A port that was visited before does not have to be seen. -/
theorem skip (h : Exhausted owner references unvisited pending seen) (hne : id ≠ owner)
    (hnot : id ∉ unvisited) :
    Exhausted owner references unvisited ((depth, id) :: pending) seen := by
  refine ⟨h.apart, ?_, ?_, h.step⟩
  · intro d other hmem hother hun
    rcases List.mem_cons.mp hmem with heq | hmem
    · rw [(Prod.mk.inj heq).2] at hun
      exact absurd hun hnot
    · exact h.start d other hmem hother hun
  · intro d hmem
    rcases List.mem_cons.mp hmem with heq | hmem
    · exact absurd (Prod.mk.inj heq).2.symm hne
    · exact h.flat d hmem

/-- A port joins what the search goes through after it. -/
theorem visit (hne : id ≠ owner) (hdepth : 1 ≤ depth)
    (h : Exhausted owner references (unvisited.erase id)
      ((references id).map (depth + 1, ·) ++ pending) seen) :
    Exhausted owner references unvisited ((depth, id) :: pending)
      fun other => other = id ∨ seen other := by
  have hdeeper {next : String} (hnext : next ∈ references id) :
      (depth + 1, next) ∈ (references id).map (depth + 1, ·) ++ pending :=
    List.mem_append_left _ (List.mem_map.mpr ⟨next, hnext, rfl⟩)
  have herase {other : String} (hun : other ∈ unvisited) :
      other = id ∨ other ∈ unvisited.erase id := by
    by_cases heq : other = id
    · exact Or.inl heq
    · exact Or.inr ((List.mem_erase_of_ne heq).mpr hun)
  refine ⟨?_, ?_, ?_, ?_⟩
  · rintro (heq | hseen)
    · exact hne heq.symm
    · exact h.apart hseen
  · intro d other hmem hother hun
    rcases herase hun with heq | hrest
    · exact Or.inl heq
    rcases List.mem_cons.mp hmem with heq | hmem
    · exact Or.inl (Prod.mk.inj heq).2
    · exact Or.inr (h.start d other (List.mem_append_right _ hmem) hother hrest)
  · intro d hmem
    rcases List.mem_cons.mp hmem with heq | hmem
    · exact absurd (Prod.mk.inj heq).2.symm hne
    · exact h.flat d (List.mem_append_right _ hmem)
  · rintro other next (rfl | hother) hnext
    · -- its own references were pending, and none of them is the owner at this depth
      have hnot : next ≠ owner := by
        rintro rfl
        have hle := h.flat (depth + 1) (hdeeper hnext)
        omega
      refine ⟨hnot, ?_⟩
      intro hun
      exact (herase hun).imp_right (h.start _ _ (hdeeper hnext) hnot)
    · rcases h.step other next hother hnext with ⟨hnot, hstep⟩
      refine ⟨hnot, ?_⟩
      intro hun
      exact (herase hun).imp_right hstep

end Exhausted

/-- A search that finds nothing has exhausted what the pending references lead to. -/
theorem exists_exhausted {unvisited : List String} {pending : List (Nat × String)}
    (hdepth : ∀ depth id, (depth, id) ∈ pending → 1 ≤ depth)
    (hnone : follow owner references unvisited pending ≤ 1) :
    ∃ seen, Exhausted owner references unvisited pending seen := by
  induction unvisited, pending using follow.induct owner references with
  | case1 unvisited => exact ⟨_, Exhausted.nothing unvisited⟩
  | case2 unvisited depth pending hdeep =>
    -- the owner was found below the first level, against the result
    rw [follow, if_pos rfl, if_pos hdeep] at hnone
    omega
  | case3 unvisited depth pending hflat ih =>
    rw [follow, if_pos rfl, if_neg hflat] at hnone
    rcases ih (fun d id h => hdepth d id (List.mem_cons_of_mem _ h)) hnone with ⟨seen, hseen⟩
    exact ⟨seen, hseen.own (Nat.le_of_not_lt hflat)⟩
  | case4 unvisited depth id pending hne hmem ih =>
    rw [follow, if_neg hne, if_pos hmem] at hnone
    have hdepths : ∀ d next, (d, next) ∈ (references id).map (depth + 1, ·) ++ pending → 1 ≤ d := by
      intro d next h
      rcases List.mem_append.mp h with h | h
      · rcases List.mem_map.mp h with ⟨_, _, heq⟩
        rw [← (Prod.mk.inj heq).1]
        omega
      · exact hdepth d next (List.mem_cons_of_mem _ h)
    rcases ih hdepths hnone with ⟨seen, hseen⟩
    exact ⟨_, hseen.visit hne (hdepth depth id List.mem_cons_self)⟩
  | case5 unvisited depth id pending hne hnot ih =>
    rw [follow, if_neg hne, if_neg hnot] at hnone
    rcases ih (fun d id h => hdepth d id (List.mem_cons_of_mem _ h)) hnone with ⟨seen, hseen⟩
    exact ⟨seen, hseen.skip hne hnot⟩

/-- An expression over ports without references of their own closes no loop. -/
theorem follow_of_leaves {unvisited : List String} {pending : List (Nat × String)}
    (hflat : ∀ depth, (depth, owner) ∈ pending → depth ≤ 1)
    (hleaf : ∀ depth id, (depth, id) ∈ pending → id ≠ owner → references id = []) :
    follow owner references unvisited pending = 0 := by
  induction pending generalizing unvisited with
  | nil => rw [follow]
  | cons first rest ih =>
    rcases first with ⟨depth, id⟩
    have hrest {unvisited : List String} : follow owner references unvisited rest = 0 :=
      ih (fun d h => hflat d (List.mem_cons_of_mem _ h))
        (fun d id h => hleaf d id (List.mem_cons_of_mem _ h))
    rw [follow]
    split
    · next howner =>
      rw [if_neg (Nat.not_lt.mpr (hflat depth (howner ▸ List.mem_cons_self))), hrest]
    split
    · next howner _ =>
      rw [hleaf depth id List.mem_cons_self howner, List.map_nil, List.nil_append, hrest]
    · exact hrest

/-- A chain of so many references leads from a port to the owner, through other ports of a kind. -/
inductive Leads (owner : String) (references : String → List String) (known : String → Prop) :
    Nat → String → Prop where
  | arrived : Leads owner references known 0 owner
  | step {n : Nat} {id next : String} (hne : id ≠ owner) (hknown : known id)
      (hmem : next ∈ references id) (h : Leads owner references known n next) :
      Leads owner references known (n + 1) id

theorem Leads.mono {known wider : String → Prop} {n : Nat} {id : String}
    (h : Leads owner references known n id) (hsub : ∀ id, known id → wider id) :
    Leads owner references wider n id := by
  induction h with
  | arrived => exact .arrived
  | step hne hknown hmem _ ih => exact .step hne (hsub _ hknown) hmem ih

/-- A search that finds the owner has followed a chain to it, and counted the chain. -/
theorem exists_leads {unvisited : List String} {pending : List (Nat × String)}
    (hfound : follow owner references unvisited pending ≠ 0) :
    ∃ depth id n, (depth, id) ∈ pending ∧ Leads owner references (· ∈ unvisited) n id ∧
      follow owner references unvisited pending = depth + n ∧ 1 < depth + n := by
  induction unvisited, pending using follow.induct owner references with
  | case1 unvisited =>
    rw [follow] at hfound
    exact absurd rfl hfound
  | case2 unvisited depth pending hdeep =>
    rw [follow, if_pos rfl, if_pos hdeep]
    exact ⟨depth, owner, 0, List.mem_cons_self, .arrived, rfl, hdeep⟩
  | case3 unvisited depth pending hflat ih =>
    rw [follow, if_pos rfl, if_neg hflat] at hfound ⊢
    rcases ih hfound with ⟨d, id, n, hmem, hleads⟩
    exact ⟨d, id, n, List.mem_cons_of_mem _ hmem, hleads⟩
  | case4 unvisited depth id pending hne hmem ih =>
    rw [follow, if_neg hne, if_pos hmem] at hfound ⊢
    rcases ih hfound with ⟨d, next, n, hpending, hleads, hresult⟩
    have hwider := hleads.mono fun _ h => List.mem_of_mem_erase h
    rcases List.mem_append.mp hpending with hnext | hrest
    · -- the chain goes on from a reference of this port
      rcases List.mem_map.mp hnext with ⟨_, hreference, heq⟩
      rcases Prod.mk.inj heq with ⟨rfl, rfl⟩
      refine ⟨depth, id, n + 1, List.mem_cons_self, .step hne hmem hreference hwider, ?_⟩
      rwa [Nat.add_right_comm, Nat.add_assoc] at hresult
    · exact ⟨d, next, n, List.mem_cons_of_mem _ hrest, hwider, hresult⟩
  | case5 unvisited depth id pending hne hnot ih =>
    rw [follow, if_neg hne, if_neg hnot] at hfound ⊢
    rcases ih hfound with ⟨d, id, n, hmem, hleads⟩
    exact ⟨d, id, n, List.mem_cons_of_mem _ hmem, hleads⟩

end Search

theorem loopDepth_of_leaves {t : Table δ} {owner : String} {e : Expr}
    (hleaf : ∀ id ∈ e.ports, id ≠ owner → t.referencesOf id = []) : t.loopDepth owner e = 0 := by
  apply follow_of_leaves
  · intro depth h
    rcases List.mem_map.mp h with ⟨_, _, heq⟩
    exact Nat.le_of_eq (Prod.mk.inj heq).1.symm
  · intro depth id h hne
    rcases List.mem_map.mp h with ⟨other, hmem, heq⟩
    exact hleaf id ((Prod.mk.inj heq).2 ▸ hmem) hne

/-! ## The reference graph -/

/-- The expression stored for one port, whether it is live or not, references another port. -/
def Refers (t : Table δ) (id other : String) : Prop :=
  ∃ p expr, t.find? id = some p ∧ p.expression ≠ "" ∧ Expr.parse id p.expression = .ok expr ∧
    other ∈ expr.ports ∧ (t.find? other).isSome = true

/-- No loop of references passes through two ports. -/
def LoopFree (t : Table δ) : Prop :=
  ∀ id other, TransGen t.Refers id other → TransGen t.Refers other id → id = other

section Redirect

variable {α : Type} {r s : α → α → Prop} {owner : α} {seen : α → Prop}

/-- A path goes either along edges that were kept, or through the owner. -/
theorem transGen_redirect (hkept : ∀ x y, x ≠ owner → y ≠ owner → s x y → r x y) {x y : α}
    (h : TransGen s x y) :
    TransGen r x y ∨ ReflTransGen s x owner ∧ ReflTransGen s owner y := by
  have hedge {x y : α} (hxy : s x y) : r x y ∨ x = owner ∨ y = owner := by
    by_cases hx : x = owner
    · exact Or.inr (Or.inl hx)
    by_cases hy : y = owner
    · exact Or.inr (Or.inr hy)
    · exact Or.inl (hkept x y hx hy hxy)
  -- what goes on from a path through the owner is a path through the owner
  induction h with
  | single hxy =>
    rcases hedge hxy with hr | rfl | rfl
    · exact Or.inl (TransGen.single hr)
    · exact Or.inr ⟨ReflTransGen.refl, ReflTransGen.single hxy⟩
    · exact Or.inr ⟨ReflTransGen.single hxy, ReflTransGen.refl⟩
  | tail hpath hyz ih =>
    rcases ih with hr | ⟨hto, hfrom⟩
    · rcases hedge hyz with hlast | rfl | rfl
      · exact Or.inl (hr.tail hlast)
      · exact Or.inr ⟨hpath.to_reflTransGen, ReflTransGen.single hyz⟩
      · exact Or.inr ⟨hpath.to_reflTransGen.tail hyz, ReflTransGen.refl⟩
    · exact Or.inr ⟨hto, hfrom.tail hyz⟩

/-- When the edges of the owner lead into a set that leads neither to it nor out of itself, no cycle
appears. -/
theorem loopFree_redirect (hkept : ∀ x y, x ≠ owner → y ≠ owner → s x y → r x y)
    (hout : ∀ y, s owner y → y = owner ∨ seen y) (hclosed : ∀ x y, seen x → s x y → seen y)
    (hapart : ¬seen owner) (hfree : ∀ x y, TransGen r x y → TransGen r y x → x = y) :
    ∀ x y, TransGen s x y → TransGen s y x → x = y := by
  have hreach {y : α} (h : ReflTransGen s owner y) : y = owner ∨ seen y := by
    induction h with
    | refl => exact Or.inl rfl
    | tail _ hyz ih =>
      rcases ih with rfl | hy
      · exact hout _ hyz
      · exact Or.inr (hclosed _ _ hy hyz)
  have hstay {x y : α} (hx : seen x) (h : ReflTransGen s x y) : seen y := by
    induction h with
    | refl => exact hx
    | tail _ hyz ih => exact hclosed _ _ ih hyz
  -- what the owner reaches and what reaches the owner is the owner itself
  have honly {y : α} (hfrom : ReflTransGen s owner y) (hto : ReflTransGen s y owner) :
      y = owner := by
    rcases hreach hfrom with heq | hy
    · exact heq
    · exact absurd (hstay hy hto) hapart
  -- so a cycle with a path through the owner has no other port
  have hthrough {x y : α} (hxo : ReflTransGen s x owner) (hoy : ReflTransGen s owner y)
      (hyx : TransGen s y x) : x = y := by
    have hx : x = owner := honly (hoy.trans hyx.to_reflTransGen) hxo
    have hy : y = owner := honly hoy (hyx.to_reflTransGen.trans hxo)
    rw [hx, hy]
  intro x y hxy hyx
  rcases transGen_redirect hkept hxy with hr | ⟨hxo, hoy⟩
  · rcases transGen_redirect hkept hyx with hr' | ⟨hyo, hox⟩
    · exact hfree x y hr hr'
    · exact (hthrough hyo hox hxy).symm
  · exact hthrough hxo hoy hyx

end Redirect

/-! ## Changing expressions -/

variable {t u : Table δ}

theorem mem_ports_map_id {id : String} : id ∈ t.ports.map Port.id ↔ (t.find? id).isSome = true := by
  have hnone : t.find? id = none ↔ id ∉ t.ports.map Port.id := by
    rw [find?_eq_none, slotOf?_eq_none]
    constructor
    · intro h hmem
      rcases List.mem_map.mp hmem with ⟨p, hp, hid⟩
      rcases mem_ports.mp hp with ⟨slot, hget⟩
      exact h slot p hget hid
    · intro h slot p hget hid
      exact h (List.mem_map.mpr ⟨p, mem_ports.mpr ⟨slot, hget⟩, hid⟩)
  rw [← not_iff_not, Option.not_isSome_iff_eq_none, hnone]

/-- With fewer references a table stays free of loops. -/
theorem LoopFree.mono (h : t.LoopFree) (hsub : ∀ id other, u.Refers id other → t.Refers id other) :
    u.LoopFree := by
  intro id other hto hfrom
  exact h id other (TransGen.mono hsub _ _ hto) (TransGen.mono hsub _ _ hfrom)

/-- A port references what its stored expression references. -/
def Faithful (t : Table δ) : Prop :=
  ∀ id p expr, t.find? id = some p → p.expression ≠ "" → Expr.parse id p.expression = .ok expr →
    p.references = expr.ports

/-- An expression that the search lets pass closes no loop, whether its owner is new or gets another
expression. -/
theorem LoopFree.assign {owner : String} (h : t.LoopFree) (expr : Expr) (hfaithful : t.Faithful)
    (hdepth : t.loopDepth owner expr ≤ 1)
    (hsame : ∀ id, id ≠ owner →
      (u.find? id).map Port.expression = (t.find? id).map Port.expression)
    (hassigned : ∀ other, u.Refers owner other → other ∈ expr.ports) : u.LoopFree := by
  have hknown {id : String} (hne : id ≠ owner) (hsome : (u.find? id).isSome = true) :
      (t.find? id).isSome = true := by
    have hmap := congrArg Option.isSome (hsame id hne)
    simpa [hsome] using hmap.symm
  have hport {id : String} {p : Port δ} (hne : id ≠ owner) (hfind : u.find? id = some p) :
      ∃ q, t.find? id = some q ∧ q.expression = p.expression := by
    have hmap := hsame id hne
    rw [hfind] at hmap
    exact Option.map_eq_some_iff.mp hmap.symm
  have hdepths : ∀ depth id, (depth, id) ∈ expr.ports.map (1, ·) → 1 ≤ depth := by
    intro depth id hmem
    rcases List.mem_map.mp hmem with ⟨_, _, heq⟩
    exact Nat.le_of_eq (Prod.mk.inj heq).1
  rcases exists_exhausted hdepths hdepth with ⟨seen, hseen⟩
  refine @loopFree_redirect _ t.Refers u.Refers owner seen ?_ ?_ ?_ hseen.apart h
  · -- apart from the owner the references are as before
    rintro id other hid hother ⟨p, expr', hfind, hne, hparse, hmem, hsome⟩
    rcases hport hid hfind with ⟨q, hq, heq⟩
    exact ⟨q, expr', hq, heq ▸ hne, heq ▸ hparse, hmem, hknown hother hsome⟩
  · -- what the owner references was pending at the start of the search
    intro other hrefers
    by_cases hother : other = owner
    · exact Or.inl hother
    rcases id hrefers with ⟨-, -, -, -, -, -, hsome⟩
    exact Or.inr (hseen.start 1 other
      (List.mem_map.mpr ⟨other, hassigned other hrefers, rfl⟩) hother
      (mem_ports_map_id.mpr (hknown hother hsome)))
  · -- the search followed the references that are live, and they are the stored ones
    rintro id other hid ⟨p, expr', hfind, hne, hparse, hmem, hsome⟩
    have hidne : id ≠ owner := by
      rintro rfl
      exact hseen.apart hid
    rcases hport hidne hfind with ⟨q, hq, heq⟩
    have hrefs : other ∈ t.referencesOf id := by
      rw [referencesOf, hq]
      show other ∈ q.references
      rw [hfaithful id q expr' hq (heq ▸ hne) (heq ▸ hparse)]
      exact hmem
    rcases hseen.step id other hid hrefs with ⟨hother, hstep⟩
    exact hstep (mem_ports_map_id.mpr (hknown hother hsome))

end Table

end PortLogic
