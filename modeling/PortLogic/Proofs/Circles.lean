import Mathlib.Data.List.Chain
import PortLogic.Proofs.Loops

/-!
# PortLogic.Proofs.Circles — the search for loops is sound and complete

The search for loops ends in every table, whatever its ports reference: on ports that are not
registered, in circles among themselves, in stored sources that do not parse. It goes into each port
once, so that a port met on one branch is passed over on the others, also while the search is still
inside it. All the same it answers a depth exactly when a chain of other ports leads from the
expression back to its owner, and the depth is that of such a chain (`loopDepth_iff_leadsBack`).
-/

namespace PortLogic

namespace Table

variable {δ : Type} {t : Table δ} {owner id next : String} {e : Expr}

/-! ## Chains of references -/

/-- The live expression of a port references another port; without a live one, the expression that
its stored source parses to does. -/
def Reads (t : Table δ) (id next : String) : Prop :=
  ∃ p expr, t.find? id = some p ∧
    (p.live = some expr ∨ p.live = none ∧ Expr.parse p.id p.expression = .ok expr) ∧
    next ∈ expr.ports

/-- Registered ports other than the owner, each reading the next one, lead from an expression of the
owner back to it. -/
structure LeadsBack (t : Table δ) (owner : String) (e : Expr) (chain : List String) : Prop where
  registered : ∀ id ∈ chain, (t.find? id).isSome = true
  others : owner ∉ chain
  enters : ∃ first, chain.head? = some first ∧ first ∈ e.ports
  follows : chain.IsChain t.Reads
  returns : ∃ last, chain.getLast? = some last ∧ t.Reads last owner

/-- The references of a port are what it reads. -/
theorem mem_referencesOf : next ∈ t.referencesOf id ↔ t.Reads id next := by
  unfold referencesOf Reads
  cases hfind : t.find? id with
  | none => simp
  | some p =>
    rw [Option.map_some, Option.getD_some]
    unfold Port.references
    constructor
    · intro h
      split at h
      · next expr hlive => exact ⟨p, expr, rfl, Or.inl hlive, h⟩
      next hlive =>
      split at h
      · cases h
      split at h
      · next expr hparse => exact ⟨p, expr, rfl, Or.inr ⟨hlive, hparse⟩, h⟩
      · cases h
    · rintro ⟨q, expr, hq, hlive | ⟨hlive, hparse⟩, hmem⟩
      · obtain rfl := Option.some.inj hq
        rw [hlive]
        exact hmem
      · obtain rfl := Option.some.inj hq
        have hne : p.expression ≠ "" := by
          intro hblank
          rw [hblank] at hparse
          exact Expr.trim_ne_empty hparse rfl
        rw [hlive]
        simp only
        rw [if_neg hne, hparse]
        exact hmem

/-! ## Soundness -/

/-- A chain that leads to the owner in one step or more, written as a list. -/
theorem Leads.exists_chain {references : String → List String} {known : String → Prop} {n : Nat}
    (h : Leads owner references known n id) (hpos : 0 < n) :
    ∃ rest last, (id :: rest).length = n ∧ (∀ other ∈ id :: rest, known other) ∧
      owner ∉ id :: rest ∧ (id :: rest).IsChain (fun a b => b ∈ references a) ∧
      (id :: rest).getLast? = some last ∧ owner ∈ references last := by
  induction h with
  | arrived => cases hpos
  | @step n id next hne hknown hmem h ih =>
    cases h with
    | arrived =>
      refine ⟨[], id, rfl, ?_, ?_, .singleton id, rfl, hmem⟩
      · intro other hother
        rwa [List.mem_singleton.mp hother]
      · intro howner
        exact hne (List.mem_singleton.mp howner).symm
    | step =>
      rcases ih (Nat.succ_pos _) with ⟨rest, last, hlength, hall, howner, hchain, hlast, hback⟩
      refine ⟨next :: rest, last, congrArg (· + 1) hlength, ?_, ?_, .cons_cons hmem hchain, ?_,
        hback⟩
      · intro other hother
        rcases List.mem_cons.mp hother with rfl | hrest
        · exact hknown
        · exact hall other hrest
      · intro hin
        rcases List.mem_cons.mp hin with heq | hrest
        · exact hne heq.symm
        · exact howner hrest
      · rwa [List.getLast?_cons_cons]

/-- A depth that the search answers is that of a chain back to the owner. -/
theorem exists_leadsBack (hfound : t.loopDepth owner e ≠ 0) :
    ∃ chain, t.LeadsBack owner e chain ∧ t.loopDepth owner e = chain.length + 1 := by
  rcases exists_leads hfound with ⟨depth, id, n, hpending, hleads, hdepth, hdeep⟩
  rcases List.mem_map.mp hpending with ⟨first, hfirst, heq⟩
  rcases Prod.mk.inj heq with ⟨rfl, rfl⟩
  rcases hleads.exists_chain (by omega) with
    ⟨rest, last, hlength, hall, howner, hchain, hlast, hback⟩
  refine ⟨first :: rest, ⟨?_, howner, ⟨first, rfl, hfirst⟩, ?_, ⟨last, hlast, ?_⟩⟩, ?_⟩
  · intro other hother
    exact mem_ports_map_id.mp (hall other hother)
  · exact hchain.imp fun _ _ hmem => mem_referencesOf.mp hmem
  · exact mem_referencesOf.mp hback
  · rw [hlength, Nat.add_comm]
    exact hdepth

/-! ## Completeness -/

/-- What a search has exhausted is not left by a chain of registered ports other than the owner. -/
theorem Exhausted.getLast?_seen {references : String → List String} {unvisited : List String}
    {pending : List (Nat × String)} {seen : String → Prop}
    (h : Exhausted owner references unvisited pending seen) {first last : String}
    {rest : List String} (hfirst : seen first) (hknown : ∀ id ∈ rest, id ∈ unvisited)
    (hchain : (first :: rest).IsChain fun a b => b ∈ references a)
    (hlast : (first :: rest).getLast? = some last) : seen last := by
  induction rest generalizing first with
  | nil =>
    obtain rfl := Option.some.inj hlast
    exact hfirst
  | cons next rest ih =>
    rcases List.isChain_cons_cons.mp hchain with ⟨hmem, hchain⟩
    have hnext : seen next :=
      (h.step first next hfirst hmem).2 (hknown next List.mem_cons_self)
    rw [List.getLast?_cons_cons] at hlast
    exact ih hnext (fun id hid => hknown id (List.mem_cons_of_mem _ hid)) hchain hlast

/-- A search that answers nothing has met no chain back to the owner. -/
theorem not_leadsBack (hnone : t.loopDepth owner e = 0) (chain : List String) :
    ¬t.LeadsBack owner e chain := by
  rintro ⟨hregistered, hothers, ⟨first, hhead, hfirst⟩, hfollows, last, hlast, hback⟩
  have hdepths : ∀ depth id, (depth, id) ∈ e.ports.map (1, ·) → 1 ≤ depth := by
    intro depth id hmem
    rcases List.mem_map.mp hmem with ⟨_, _, heq⟩
    exact Nat.le_of_eq (Prod.mk.inj heq).1
  have hflat : follow owner t.referencesOf (t.ports.map Port.id) (e.ports.map (1, ·)) ≤ 1 :=
    Nat.le_trans (Nat.le_of_eq hnone) (Nat.zero_le 1)
  rcases exists_exhausted hdepths hflat with ⟨seen, hseen⟩
  rcases List.head?_eq_some_iff.mp hhead with ⟨rest, rfl⟩
  have hknown : ∀ id ∈ first :: rest, id ∈ t.ports.map Port.id := by
    intro id hid
    exact mem_ports_map_id.mpr (hregistered id hid)
  have hne : first ≠ owner := by
    rintro rfl
    exact hothers List.mem_cons_self
  have hstart : seen first :=
    hseen.start 1 first (List.mem_map.mpr ⟨first, hfirst, rfl⟩) hne
      (hknown first List.mem_cons_self)
  have hend : seen last :=
    hseen.getLast?_seen hstart (fun id hid => hknown id (List.mem_cons_of_mem _ hid))
      (hfollows.imp fun _ _ hreads => mem_referencesOf.mpr hreads) hlast
  -- the last port reads the owner, which nothing exhausted does
  exact (hseen.step last owner hend (mem_referencesOf.mpr hback)).1 rfl

/-! ## The depth of the search -/

/-- Each level below the pending references uses up a port that was not visited. -/
theorem follow_le {references : String → List String} {unvisited : List String}
    {pending : List (Nat × String)} {bound : Nat}
    (hbound : ∀ depth id, (depth, id) ∈ pending → depth + unvisited.length ≤ bound) :
    follow owner references unvisited pending ≤ bound := by
  induction unvisited, pending using follow.induct owner references with
  | case1 unvisited =>
    rw [follow]
    exact Nat.zero_le bound
  | case2 unvisited depth pending hdeep =>
    rw [follow, if_pos rfl, if_pos hdeep]
    have hfirst := hbound depth owner List.mem_cons_self
    omega
  | case3 unvisited depth pending hflat ih =>
    rw [follow, if_pos rfl, if_neg hflat]
    exact ih fun d id h => hbound d id (List.mem_cons_of_mem _ h)
  | case4 unvisited depth id pending hne hmem ih =>
    rw [follow, if_neg hne, if_pos hmem]
    refine ih fun d other h => ?_
    have hlength := List.length_erase_of_mem hmem
    have hpos := List.length_pos_of_mem hmem
    rcases List.mem_append.mp h with hnext | hrest
    · rcases List.mem_map.mp hnext with ⟨_, _, heq⟩
      rcases Prod.mk.inj heq with ⟨rfl, -⟩
      have hfirst := hbound depth id List.mem_cons_self
      omega
    · have hlater := hbound d other (List.mem_cons_of_mem _ hrest)
      omega
  | case5 unvisited depth id pending hne hnot ih =>
    rw [follow, if_neg hne, if_neg hnot]
    exact ih fun d other h => hbound d other (List.mem_cons_of_mem _ h)

/-- The search goes no deeper than there are ports. -/
theorem loopDepth_le (t : Table δ) (owner : String) (e : Expr) :
    t.loopDepth owner e ≤ t.ports.length + 1 := by
  refine follow_le fun depth id h => ?_
  rcases List.mem_map.mp h with ⟨_, _, heq⟩
  rcases Prod.mk.inj heq with ⟨rfl, -⟩
  rw [List.length_map, Nat.add_comm]

/-- The search answers a depth exactly when a chain of other ports leads from the expression back to
its owner. The depth is that of such a chain, and it goes no deeper than there are ports. -/
theorem loopDepth_iff_leadsBack (t : Table δ) (owner : String) (e : Expr) :
    (t.loopDepth owner e ≠ 0 ↔ ∃ chain, t.LeadsBack owner e chain) ∧
      (t.loopDepth owner e ≠ 0 → ∃ chain, t.LeadsBack owner e chain ∧
        t.loopDepth owner e = chain.length + 1) ∧
      t.loopDepth owner e ≤ t.ports.length + 1 := by
  refine ⟨⟨?_, ?_⟩, exists_leadsBack, t.loopDepth_le owner e⟩
  · intro hfound
    rcases exists_leadsBack hfound with ⟨chain, hchain, -⟩
    exact ⟨chain, hchain⟩
  · rintro ⟨chain, hchain⟩ hnone
    exact not_leadsBack hnone chain hchain

-- `b` and `c` read each other, and `c` reads `a` as well
example :
    let stored (id source : String) : Option (Port Unit) :=
      some { Port.ofConfig (PortConfig.virtualOutput id) none with expression := source }
    let t : Table Unit := ⟨[stored "b" "MUL($c, 2)", none, stored "c" "ADD($b, $a, $unknown)"]⟩
    t.loopDepth "a" (.port "b") = 3 ∧ t.loopDepth "d" (.port "b") = 0 := by
  decide +kernel

end Table

end PortLogic
