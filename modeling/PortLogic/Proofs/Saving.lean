import PortLogic.Json.Print
import PortLogic.Number.Power
import PortLogic.Proofs.Flush
import PortLogic.Proofs.Storage

/-!
# PortLogic.Proofs.Saving — what a stopped service has saved

A save marks every port as stored before the file is written, so a save that fails is not repeated
until another port changes. What can be said of a service that has stopped is that its last save,
failed or not, was one of the configurations that it stopped with (`clean_stop`): the list `taken`
shows every port that is not dirty as it is configured, and whenever the list changes it is saved.
Whether the file holds these configurations depends on that last save alone.
-/

namespace PortLogic

open Table

namespace Service

/-- A save that was attempted: the list to save, and how that ended. -/
structure Save where
  configs : List PortConfig
  result : Except StorageFault Unit
deriving DecidableEq

section Format

variable [JsonFormat]

/-- The state file after a save: the list if the save has succeeded, what it was before if not. -/
def Save.apply (d : Document) (save : Save) : Document :=
  match save.result with
  | .ok () => .file (PortConfig.stateText save.configs).toUTF8
  | .error _ => d

theorem document_saveState (f : Folder) (configs : List PortConfig) :
    (f.saveState configs).2.document Folder.stateName =
      Save.apply (f.document Folder.stateName) ⟨configs, (f.saveState configs).1⟩ := by
  unfold Folder.saveState
  split
  · exact (f.document_rename_put Folder.partialName Folder.stateName _ :)
  · rfl

variable {δ : Type}

/-! ## Saves -/

/-- The save that persisting attempts, when something has changed and there is a path. -/
def save? (s : Service δ) (now : Now) (force : Bool) : Option Save :=
  let changed := (s.engine.takeDirtyConfigs now force).1
  let taken := changed.foldl merge s.taken
  if changed = [] ∨ s.config.statePath = none then none
  else some ⟨taken, (s.folder.saveState taken).1⟩

/-- Whether a port has changes that are not stored. -/
def hasDirty (s : Service δ) : Bool :=
  s.engine.table.ports.any Port.dirty

/-- Persisting either finds nothing to save, or attempts a save and yields its result. -/
theorem persist_cases (s : Service δ) (now : Now) (force : Bool) :
    let changed := (s.engine.takeDirtyConfigs now force).1
    let engine := (s.engine.takeDirtyConfigs now force).2
    let taken := changed.foldl merge s.taken
    (s.save? now force = none ∧ (changed = [] ∨ s.config.statePath = none) ∧
        s.persist now force = (.ok (), { s with engine, taken })) ∨
      ∃ result folder, s.folder.saveState taken = (result, folder) ∧
        s.save? now force = some ⟨taken, result⟩ ∧
        s.persist now force = (result, { s with engine, taken, folder }) := by
  simp only
  unfold persist save?
  simp only
  split
  · next hnothing => exact Or.inl ⟨rfl, hnothing, rfl⟩
  · exact Or.inr ⟨_, _, rfl, rfl, rfl⟩

omit [JsonFormat] in
/-- When nothing is flushed, nothing was dirty that is not dirty still. -/
theorem hasDirty_of_nothing_taken {s : Service δ} {now : Now} {force : Bool}
    (hnothing : (s.engine.takeDirtyConfigs now force).1 = []) (hdirty : s.hasDirty = true) :
    (s.engine.takeDirtyConfigs now force).2 = s.engine := by
  cases hdue : s.engine.mustWait now force with
  | true =>
    unfold Engine.takeDirtyConfigs
    rw [hdue, if_pos rfl]
  | false =>
    rw [Engine.takeDirtyConfigs_of_due hdue, List.map_eq_nil_iff, List.filter_eq_nil_iff]
      at hnothing
    rcases List.any_eq_true.mp hdirty with ⟨p, hp, hpdirty⟩
    exact absurd hpdirty (hnothing p hp)

/-! ## Operations -/

variable [Driver δ]

/-- A service after what an operation does before anything is saved. -/
def worked [Power] (s : Service δ) : Operation → Service δ
  | .tick now => if s.outcome.isSome then s else { s with engine := (s.engine.tick now).2 }.forward
  | .stop _ => s
  | operation => s.perform operation

/-- The time of the save that an operation ends with, and whether that is forced. -/
def savesAt? (s : Service δ) : Operation → Option (Now × Bool)
  | .tick now => if s.outcome.isSome then none else some (now, false)
  | .stop now => if s.outcome.isSome then none else some (now, true)
  | _ => none

/-- The save that an operation attempts. -/
def saveOf? [Power] (s : Service δ) (operation : Operation) : Option Save :=
  (s.savesAt? operation).bind fun (now, force) => (s.worked operation).save? now force

/-- The saves that a service attempts during a list of operations, oldest first. -/
def saves [Power] (s : Service δ) : List Operation → List Save
  | [] => []
  | operation :: rest => (s.saveOf? operation).toList ++ (s.perform operation).saves rest

/-- Some port has changes that are not stored at some time during a list of operations. -/
def EverDirty [Power] (s : Service δ) : List Operation → Prop
  | [] => s.hasDirty = true
  | operation :: rest =>
    s.hasDirty = true ∨ (s.worked operation).hasDirty = true ∨ (s.perform operation).EverDirty rest

/-! ### Work -/

/-- What a service does before it saves: ports change in their slots, and nothing is stored. -/
structure Works (s s' : Service δ) : Prop where
  config : s'.config = s.config
  taken : s'.taken = s.taken
  files : s'.folder.files = s.folder.files
  moves : s.engine.table.Moves s'.engine.table
  wired : s.engine.table.Wired → s'.engine.table.Wired

omit [Driver δ] [JsonFormat] in
theorem Works.refl (s : Service δ) : s.Works s :=
  ⟨rfl, rfl, rfl, Table.Moves.refl _, id⟩

omit [Driver δ] [JsonFormat] in
theorem Works.forward {s s' : Service δ} (h : s.Works s') : s.Works s'.forward :=
  ⟨h.config, h.taken, h.files, h.moves, h.wired⟩

omit [JsonFormat] in
/-- An operation of the engine that changes ports in their slots. -/
theorem works_of_perform [Power] (s : Service δ) (operation : Engine.Operation δ)
    (h : operation.InPlace) : s.Works { s with engine := (s.engine.perform operation).2 } :=
  ⟨rfl, rfl, rfl, Engine.perform_moves s.engine h, fun hwired =>
    Engine.perform_wired hwired operation⟩

omit [JsonFormat] in
theorem request_works [Power] (s : Service δ) (r : Request) : s.Works (s.request r).2 := by
  unfold request
  split
  · exact Works.refl s
  refine Works.forward ?_
  cases r with
  | setValue id x => exact s.works_of_perform (.setValue id x) trivial
  | setExpression id source => exact s.works_of_perform (.setExpression id source) trivial
  | enable id => exact s.works_of_perform (.enable id) trivial
  | disable id => exact s.works_of_perform (.disable id) trivial
  | value id => exact Works.refl s

theorem worked_works [Power] (s : Service δ) (operation : Operation) : s.Works
    (s.worked operation) := by
  cases operation with
  | tick now =>
    show s.Works (if s.outcome.isSome then s else _)
    split
    · exact Works.refl s
    · exact (s.works_of_perform (.tick now) trivial).forward
  | request r => exact request_works s r
  | takeEvents => exact ⟨rfl, rfl, rfl, Table.Moves.refl _, id⟩
  | stop now => exact Works.refl s
  | setWritable writable => exact ⟨rfl, rfl, rfl, Table.Moves.refl _, id⟩

omit [Driver δ] in
theorem stop_of_running {s : Service δ} (hrunning : s.outcome = none) (now : Now) :
    s.stop now =
      ((s.persist now true).1.mapError .storage,
        { (s.persist now true).2 with
          outcome := some ((s.persist now true).1.mapError .storage) }) := by
  unfold stop
  rw [hrunning]

/-- An operation is its work, and then a save if there is time for one. -/
theorem perform_cases [Power] (s : Service δ) (operation : Operation) :
    (s.savesAt? operation = none ∧ s.perform operation = s.worked operation) ∨
      ∃ now force outcome, s.savesAt? operation = some (now, force) ∧
        s.perform operation = { ((s.worked operation).persist now force).2 with outcome } := by
  cases operation with
  | tick now =>
    by_cases hstopped : s.outcome.isSome = true
    · exact Or.inl ⟨if_pos hstopped, (if_pos hstopped).trans (if_pos hstopped).symm⟩
    · have hworked : s.worked (.tick now) = { s with engine := (s.engine.tick now).2 }.forward :=
        if_neg hstopped
      refine Or.inr ⟨now, false, ((s.worked (.tick now)).persist now false).2.outcome,
        if_neg hstopped, ?_⟩
      rw [hworked]
      exact if_neg hstopped
  | stop now =>
    cases hstopped : s.outcome with
    | some outcome =>
      refine Or.inl ⟨if_pos (hstopped ▸ rfl), ?_⟩
      show (s.stop now).2 = s
      unfold stop
      rw [hstopped]
    | none =>
      refine Or.inr ⟨now, true, some ((s.persist now true).1.mapError .storage),
        if_neg (hstopped ▸ Bool.false_ne_true), ?_⟩
      rw [show s.perform (.stop now) = (s.stop now).2 from rfl, stop_of_running hstopped]
      rfl
  | _ => exact Or.inl ⟨rfl, rfl⟩

/-! ### Runs -/

/-- What is known of a service that has attempted some saves, and what keeps it from forgetting a
port that has become dirty: the port is dirty still, or the last save listed every port. -/
structure Tracked (s : Service δ) (original : Document) (saves : List Save) (dirtied : Prop) :
    Prop where
  path : s.config.statePath ≠ none
  wired : s.engine.table.Wired
  mirrors : Mirrors s.taken s.engine.table.ports
  document : s.folder.document Folder.stateName = saves.foldl Save.apply original
  last : dirtied → s.hasDirty = true ∨ ∃ earlier result, saves = earlier ++ [⟨s.taken, result⟩]

section Steps

variable {s s' : Service δ} {original : Document} {saves : List Save} {dirtied : Prop}

omit [Driver δ] [JsonFormat] in
theorem hasDirty_iff : s.hasDirty = true ↔ ∃ slot p, s.engine.table.get? slot = some p ∧
    p.dirty = true := by
  unfold hasDirty
  rw [List.any_eq_true]
  constructor
  · rintro ⟨p, hp, hdirty⟩
    rcases mem_ports.mp hp with ⟨slot, hget⟩
    exact ⟨slot, p, hget, hdirty⟩
  · rintro ⟨slot, p, hget, hdirty⟩
    exact ⟨p, mem_ports.mpr ⟨slot, hget⟩, hdirty⟩

omit [Driver δ] [JsonFormat] in
/-- Work leaves every dirty port dirty. -/
theorem Works.hasDirty (h : s.Works s') (hdirty : s.hasDirty = true) : s'.hasDirty = true := by
  rcases hasDirty_iff.mp hdirty with ⟨slot, p, hget, hp⟩
  have hport := h.moves.port slot
  rw [hget] at hport
  cases hafter : s'.engine.table.get? slot with
  | none =>
    rw [hafter] at hport
    cases hport
  | some q =>
    rw [hafter] at hport
    cases hport with
    | some hmoves =>
      refine hasDirty_iff.mpr ⟨slot, q, hafter, ?_⟩
      by_contra hclean
      rw [Bool.not_eq_true] at hclean
      cases hp.symm.trans (hmoves.marked.clean hclean).1

omit [Driver δ] in
theorem Tracked.work (h : s.Tracked original saves dirtied) (hworks : s.Works s') :
    s'.Tracked original saves (dirtied ∨ s'.hasDirty = true) where
  path := hworks.config ▸ h.path
  wired := hworks.wired h.wired
  mirrors := by
    have hports := forall₂_ports hworks.moves.length hworks.moves.port
    rw [hworks.taken]
    exact h.mirrors.marked (hports.imp fun _ _ => Port.Moves.marked)
  document := by
    rw [← h.document, Folder.document, Folder.document, hworks.files]
  last := by
    rintro (hdirtied | hdirty)
    · rw [hworks.taken]
      exact (h.last hdirtied).imp_left hworks.hasDirty
    · exact Or.inl hdirty

variable [Power]

theorem Tracked.persist (h : s.Tracked original saves dirtied) (now : Now) (force : Bool) :
    (s.persist now force).2.Tracked original (saves ++ (s.save? now force).toList) dirtied := by
  have hflushes : (Engine.Operation.takeDirtyConfigs now force : Engine.Operation δ).KeepsPorts :=
    trivial
  have hmirrors := Engine.perform_mirrors h.mirrors h.wired hflushes
  have hwired := Engine.perform_wired h.wired (.takeDirtyConfigs now force)
  rcases s.persist_cases now force with
    ⟨hsave, hnothing, heq⟩ | ⟨result, folder, hfolder, hsave, heq⟩
  · rw [heq, hsave, Option.toList_none, List.append_nil]
    refine ⟨h.path, hwired, hmirrors, h.document, ?_⟩
    -- nothing was flushed, so the list is the last one and what was dirty is dirty still
    intro hdirtied
    have hnone := hnothing.resolve_right h.path
    rcases h.last hdirtied with hdirty | hlast
    · refine Or.inl ?_
      unfold hasDirty
      rwa [hasDirty_of_nothing_taken hnone hdirty]
    · refine Or.inr ?_
      rwa [hnone]
  · have hdocument := document_saveState s.folder
      ((s.engine.takeDirtyConfigs now force).1.foldl merge s.taken)
    rw [hfolder] at hdocument
    rw [heq, hsave, Option.toList_some]
    refine ⟨h.path, hwired, hmirrors, ?_, fun _ => Or.inr ⟨saves, result, rfl⟩⟩
    rw [List.foldl_append, ← h.document]
    exact hdocument

theorem Tracked.perform (h : s.Tracked original saves dirtied) (operation : Operation) :
    (s.perform operation).Tracked original (saves ++ (s.saveOf? operation).toList)
      (dirtied ∨ (s.worked operation).hasDirty = true) := by
  have hworked := h.work (worked_works s operation)
  unfold saveOf?
  rcases perform_cases s operation with ⟨hnone, heq⟩ | ⟨now, force, outcome, hsome, heq⟩
  · rw [heq, hnone, Option.bind_none, Option.toList_none, List.append_nil]
    exact hworked
  · have hpersisted := hworked.persist now force
    rw [heq, hsome, Option.bind_some]
    exact ⟨hpersisted.path, hpersisted.wired, hpersisted.mirrors, hpersisted.document,
      hpersisted.last⟩

theorem Tracked.run (h : s.Tracked original saves dirtied) (operations : List Operation) :
    (s.run operations).Tracked original (saves ++ s.saves operations)
      (dirtied ∨ s.EverDirty operations) := by
  induction operations generalizing s saves dirtied with
  | nil =>
    rw [show s.saves [] = [] from rfl, List.append_nil]
    refine ⟨h.path, h.wired, h.mirrors, h.document, ?_⟩
    rintro (hdirtied | hdirty)
    · exact h.last hdirtied
    · exact Or.inl hdirty
  | cons operation rest ih =>
    have hrest := ih (h.perform operation)
    rw [List.append_assoc] at hrest
    refine ⟨hrest.path, hrest.wired, hrest.mirrors, hrest.document, ?_⟩
    -- what is dirty before the work is dirty after it
    rintro (hdirtied | hdirty | hdirty | hdirty)
    · exact hrest.last (Or.inl (Or.inl hdirtied))
    · exact hrest.last (Or.inl (Or.inr ((worked_works s operation).hasDirty hdirty)))
    · exact hrest.last (Or.inl (Or.inr hdirty))
    · exact hrest.last (Or.inr hdirty)

omit [Driver δ] [Power] in
/-- When nothing is dirty, the list is the one of all configurations. -/
theorem Tracked.taken_eq (h : s.Tracked original saves dirtied) (hclean : s.hasDirty = false) :
    s.taken = s.engine.portConfigs := by
  have hmerged := h.mirrors.merge_dirty h.wired.distinct.pairwise_ports
  have hnone : s.engine.table.ports.filter Port.dirty = [] := by
    rw [List.filter_eq_nil_iff]
    exact fun p hp => List.any_eq_false.mp hclean p hp
  rwa [hnone] at hmerged

end Steps

/-! ## Stopping -/

omit [Driver δ] in
theorem persist_forced_clean (s : Service δ) (now : Now) :
    (s.persist now true).2.hasDirty = false := by
  have hengine : (s.persist now true).2.engine = (s.engine.takeDirtyConfigs now true).2 := by
    rcases s.persist_cases now true with ⟨-, -, heq⟩ | ⟨_, _, -, -, heq⟩
    · rw [heq]
    · rw [heq]
  unfold hasDirty
  rw [hengine, Engine.takeDirtyConfigs_of_due rfl, ports_map, List.any_map, List.any_eq_false]
  intro p _ hdirty
  cases hdirty

omit [Driver δ] in
/-- A forced save with something dirty is attempted, and yields its result. -/
theorem save?_of_dirty {s : Service δ} (hpath : s.config.statePath ≠ none)
    (hdirty : s.hasDirty = true) (now : Now) :
    ∃ save, s.save? now true = some save ∧ (s.persist now true).1 = save.result := by
  rcases s.persist_cases now true with ⟨-, hnothing, heq⟩ | ⟨result, folder, -, hsave, heq⟩
  · have hclean := s.persist_forced_clean now
    have hsame := hasDirty_of_nothing_taken (hnothing.resolve_right hpath) hdirty
    rw [heq] at hclean
    unfold hasDirty at hclean hdirty
    rw [hsame, hdirty] at hclean
    cases hclean
  · exact ⟨_, hsave, by rw [heq]⟩

theorem saves_append [Power] (s : Service δ) (operations more : List Operation) :
    s.saves (operations ++ more) = s.saves operations ++ (s.run operations).saves more := by
  induction operations generalizing s with
  | nil => rfl
  | cons operation rest ih =>
    rw [List.cons_append, saves, saves, ih, List.append_assoc]
    rfl

theorem run_append_stop [Power] (s : Service δ) (operations : List Operation) (now : Now) :
    s.run (operations ++ [.stop now]) = ((s.run operations).stop now).2 := by
  unfold run
  rw [List.foldl_append]
  rfl

/-- A service that is stopped while it runs attempts one more save, a forced one. -/
theorem saves_append_stop [Power] {s : Service δ} {operations : List Operation}
    (hrunning : (s.run operations).outcome = none) (now : Now) :
    s.saves (operations ++ [.stop now]) =
      s.saves operations ++ ((s.run operations).save? now true).toList := by
  have hnow : (s.run operations).savesAt? (.stop now) = some (now, true) :=
    if_neg (hrunning ▸ Bool.false_ne_true)
  rw [saves_append]
  refine congrArg (s.saves operations ++ ·) ((List.append_nil _).trans ?_)
  rw [saveOf?, hnow, Option.bind_some]
  rfl

/-- A service that stops without an error, and of which a port was dirty at some time, has attempted
a last save of exactly the configurations that it stopped with. The state file lists them if that
save has succeeded, as it has if a port was dirty when the service stopped; otherwise the file is
what the earlier saves have left. -/
theorem clean_stop [Power] {engine : Engine δ} (h : engine.Reachable) {config : ServiceConfig}
    (hpath : config.statePath ≠ none) (folder : Folder) {operations : List Operation} {now : Now}
    (hrunning : ((start config engine folder).run operations).outcome = none)
    (hdirty : (start config engine folder).EverDirty operations)
    (hclean : (((start config engine folder).run operations).stop now).1 = .ok ()) :
    let s := start config engine folder
    let configs := (s.run (operations ++ [.stop now])).engine.portConfigs
    ∃ earlier result, s.saves (operations ++ [.stop now]) = earlier ++ [⟨configs, result⟩] ∧
      ((s.run operations).hasDirty = true → result = .ok ()) ∧
      (s.run (operations ++ [.stop now])).folder.document Folder.stateName =
        match result with
        | .ok () => .file (PortConfig.stateText configs).toUTF8
        | .error _ => earlier.foldl Save.apply (folder.document Folder.stateName) := by
  intro s configs
  have hstart : s.Tracked (folder.document Folder.stateName) [] False :=
    ⟨hpath, h.wired, Mirrors.of_configs _, rfl, False.elim⟩
  have hbefore := hstart.run operations
  have hafter := hbefore.persist now true
  have hrun := s.run_append_stop operations now
  rw [stop_of_running hrunning] at hrun hclean
  have hconfigs : ((s.run operations).persist now true).2.taken = configs := by
    show _ = (s.run (operations ++ [.stop now])).engine.portConfigs
    rw [hafter.taken_eq (persist_forced_clean _ now), hrun]
  -- the last save listed every port, since none is dirty any more
  rcases hafter.last (Or.inr hdirty) with hdirty | ⟨earlier, result, hlast⟩
  · rw [persist_forced_clean] at hdirty
    cases hdirty
  rw [List.nil_append, hconfigs] at hlast
  refine ⟨earlier, result, (saves_append_stop hrunning now).trans hlast, ?_, ?_⟩
  · intro hpending
    rcases save?_of_dirty hbefore.path hpending now with ⟨save, hsave, hresult⟩
    rw [hsave, Option.toList_some] at hlast
    have hsame := List.singleton_inj.mp (List.append_inj_right' hlast rfl)
    rw [hresult, hsame] at hclean
    cases result with
    | ok done => rfl
    | error fault => cases hclean
  · have hdocument := hafter.document
    rw [List.nil_append, hlast, List.foldl_append] at hdocument
    rw [hrun]
    exact hdocument

end Format

attribute [local instance] Power.rounded JsonFormat.plain

/-- A periodic save, and a change after it that only the last save stores. -/
theorem clean_stop_after_change :
    let engine := (Engine.start ⟨0⟩ : Engine Simulated).run [
      .addPort { PortConfig.virtualOutput "a" with persisted := true } none]
    let s := start { ServiceConfig.initial with statePath := some "state.json" } engine Folder.empty
    let operations := [.request (.setValue "a" 1), .tick ⟨0, none⟩, .request (.setValue "a" 2)]
    let stopped := s.run (operations ++ [.stop ⟨10, none⟩])
    stopped.engine.portConfigs.map PortConfig.value = [some 2] ∧
      stopped.folder.document Folder.stateName =
        .file (PortConfig.stateText stopped.engine.portConfigs).toUTF8 := by
  intro engine s operations stopped
  have hreachable : engine.Reachable := (Engine.reachable_start _).run _
  have hpath : s.config.statePath ≠ none := by
    rintro ⟨⟩
  have hrunning : (s.run operations).outcome = none := by decide +kernel
  have hdirty : s.EverDirty operations := Or.inr (Or.inl (by decide +kernel))
  have hclean : ((s.run operations).stop ⟨10, none⟩).1 = .ok () := by decide +kernel
  rcases clean_stop hreachable hpath Folder.empty hrunning hdirty hclean with
    ⟨earlier, result, -, hok, hfile⟩
  obtain rfl := hok (by decide +kernel)
  exact ⟨by decide +kernel, hfile⟩

/-- A folder that cannot be written makes the periodic save fail, and the service stops without an
error and without a file: the port that changed counts as stored. -/
theorem clean_stop_without_file :
    let engine := (Engine.start ⟨0⟩ : Engine Simulated).run [
      .addPort { PortConfig.virtualOutput "a" with persisted := true } none]
    let s := start { ServiceConfig.initial with statePath := some "state.json" } engine
      { Folder.empty with writable := false }
    let operations := [.request (.setValue "a" 1), .tick ⟨0, none⟩]
    s.EverDirty operations ∧ (s.run operations).outcome = none ∧
      ((s.run operations).stop ⟨10, none⟩).1 = .ok () ∧
      (s.run (operations ++ [.stop ⟨10, none⟩])).folder.document Folder.stateName = .missing ∧
      s.saves (operations ++ [.stop ⟨10, none⟩]) =
        [⟨(s.run operations).engine.portConfigs, .error .inaccessible⟩] := by
  intro engine s operations
  have hfiles : (s.run (operations ++ [.stop ⟨10, none⟩])).folder.files = [] :=
    List.isEmpty_iff.mp (by decide +kernel)
  refine ⟨Or.inr (Or.inl (by decide +kernel)), by decide +kernel, by decide +kernel, ?_,
    by decide +kernel⟩
  unfold Folder.document
  rw [hfiles]
  rfl

end Service

end PortLogic
