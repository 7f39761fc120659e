import Mathlib.Data.List.Induction
import CppChat.Deploy.Activation

/-! # What a rollback puts back

Whatever was there before the activation comes back. What was not there stays as the steps left it:
the rollback never removes a file, the link of the modules apart.
-/
namespace CppChat.Deploy

variable {β : Type} {payload : Payload β} {release : Release} {fs : Files β} {failure : Failure β}
  {op : Op} {ops : List Op} {p : Progress β}

/-! ## What the steps write -/

theorem exec_runtime (file : RuntimeFile) :
    (ops.foldl (exec payload release) p).files.runtime file =
    if .copyRuntime file ∈ ops then some (payload.runtime file) else p.files.runtime file := by
  induction ops using List.reverseRecOn with
  | nil => rfl
  | append_singleton ops op ih =>
    rw [List.foldl_append, List.foldl_cons, List.foldl_nil]
    cases op with
    | copyRuntime other =>
      by_cases h : other = file
      · subst h
        simp [exec]
      · simp [exec, ih, Ne.symm h]
    | renameModules =>
      simp only [exec]
      split <;> simp [ih]
    | _ => simp [exec, ih]

theorem exec_sourceVersion : (ops.foldl (exec payload release) p).files.sourceVersion =
    if .writeSourceVersion ∈ ops then some (newRecord payload release)
    else p.files.sourceVersion := by
  induction ops using List.reverseRecOn with
  | nil => rfl
  | append_singleton ops op ih =>
    rw [List.foldl_append, List.foldl_cons, List.foldl_nil]
    cases op with
    | renameModules =>
      simp only [exec]
      split <;> simp [ih]
    | _ => simp [exec, ih]

theorem exec_latest : (ops.foldl (exec payload release) p).files.latest =
    if .publishLatest ∈ ops then some payload.manifest else p.files.latest := by
  induction ops using List.reverseRecOn with
  | nil => rfl
  | append_singleton ops op ih =>
    rw [List.foldl_append, List.foldl_cons, List.foldl_nil]
    cases op with
    | renameModules =>
      simp only [exec]
      split <;> simp [ih]
    | _ => simp [exec, ih]

/-! ## Where the steps end -/

/-- The failing run has written what a step writes, if only in part. -/
def Failure.Wrote (failure : Failure β) (op : Op) : Prop :=
  op ∈ program.take failure.step ∨ program[failure.step]? = some op ∧ failure.left.isSome

/-- The handler of `publish` has put the feed back. -/
def Failure.FeedUndone (failure : Failure β) : Prop :=
  failure.handled ∧ ∃ op, program[failure.step]? = some op ∧ op.guarded

section Failed
variable (payload : Payload β) (release : Release) (fs : Files β)
  (hop : program[failure.step]? = some op)
include hop

theorem failed_runtime (file : RuntimeFile) :
    (¬ failure.Wrote (.copyRuntime file) →
      (failed payload release fs failure op).files.runtime file = fs.runtime file) ∧
    (failure.Wrote (.copyRuntime file) →
      (failed payload release fs failure op).files.runtime file ≠ none) := by
  have hhandled : (failed payload release fs failure op).files.runtime file =
      (tear payload ((program.take failure.step).foldl (exec payload release) { files := fs })
        failure.left op).files.runtime file := by
    unfold failed
    dsimp only
    split <;> rfl
  have hexec := @exec_runtime β payload release (program.take failure.step) { files := fs } file
  rw [hhandled]
  by_cases hsame : op = .copyRuntime file
  · subst hsame
    simp only [tear, Function.update_self, Failure.Wrote, hop, true_and]
    rw [hexec]
    by_cases hwrote : .copyRuntime file ∈ program.take failure.step <;>
      cases failure.left <;> simp [hwrote]
  · have htear : ∀ p : Progress β,
        (tear payload p failure.left op).files.runtime file = p.files.runtime file := by
      intro p
      cases op with
      | copyRuntime other =>
        exact Function.update_of_ne (fun h => hsame (congrArg Op.copyRuntime h.symm)) _ _
      | _ => rfl
    have hnot : program[failure.step]? ≠ some (.copyRuntime file) := by
      rw [hop]
      exact fun h => hsame (Option.some_inj.mp h)
    rw [htear, hexec]
    by_cases hwrote : .copyRuntime file ∈ program.take failure.step <;>
      simp [Failure.Wrote, hnot, hwrote]

theorem failed_sourceVersion :
    (¬ failure.Wrote .writeSourceVersion →
      (failed payload release fs failure op).files.sourceVersion = fs.sourceVersion) ∧
    (failure.Wrote .writeSourceVersion →
      (failed payload release fs failure op).files.sourceVersion ≠ none) := by
  have hhandled : (failed payload release fs failure op).files.sourceVersion =
      (tear payload ((program.take failure.step).foldl (exec payload release) { files := fs })
        failure.left op).files.sourceVersion := by
    unfold failed
    dsimp only
    split <;> rfl
  have hexec := @exec_sourceVersion β payload release (program.take failure.step) { files := fs }
  rw [hhandled]
  cases op with
  | writeSourceVersion =>
    simp only [tear, Failure.Wrote, hop, true_and]
    rw [hexec]
    by_cases hwrote : .writeSourceVersion ∈ program.take failure.step <;>
      cases failure.left <;> simp [hwrote]
  | _ =>
    simp only [tear, Failure.Wrote, hop, Option.some.injEq, reduceCtorEq, false_and, or_false]
    rw [hexec]
    by_cases hwrote : .writeSourceVersion ∈ program.take failure.step <;> simp [hwrote]

theorem failed_latest :
    (¬ failure.Wrote .publishLatest ∨ failure.FeedUndone →
      (failed payload release fs failure op).files.latest = fs.latest) ∧
    (failure.Wrote .publishLatest → ¬ failure.FeedUndone →
      (failed payload release fs failure op).files.latest ≠ none) := by
  have hundone : failure.FeedUndone ↔ op.guarded = true ∧ failure.handled = true := by
    simp [Failure.FeedUndone, hop, and_comm]
  rw [hundone]
  by_cases hhandled : op.guarded = true ∧ failure.handled = true
  · simp [failed, hhandled]
  · have htear : (failed payload release fs failure op).files.latest =
        (tear payload ((program.take failure.step).foldl (exec payload release) { files := fs })
          failure.left op).files.latest := by
      unfold failed
      rw [if_neg hhandled]
    have hexec := @exec_latest β payload release (program.take failure.step) { files := fs }
    simp only [hhandled, or_false, not_false_eq_true, true_implies]
    rw [htear]
    cases op with
    | publishLatest =>
      simp only [tear, Failure.Wrote, hop, true_and]
      rw [hexec]
      by_cases hwrote : .publishLatest ∈ program.take failure.step <;>
        cases failure.left <;> simp [hwrote]
    | _ =>
      simp only [tear, Failure.Wrote, hop, Option.some.injEq, reduceCtorEq, false_and, or_false]
      rw [hexec]
      by_cases hwrote : .publishLatest ∈ program.take failure.step <;> simp [hwrote]

end Failed

/-! ## The modules -/

theorem exec_modules (h : ∀ op ∈ ops, op ≠ .renameModules ∧ op ≠ .linkModules) :
    (ops.foldl (exec payload release) p).files.modules = p.files.modules ∧
      (ops.foldl (exec payload release) p).previousModules = p.previousModules ∧
      (ops.foldl (exec payload release) p).moduleSwapped = p.moduleSwapped := by
  induction ops generalizing p with
  | nil => exact ⟨rfl, rfl, rfl⟩
  | cons op ops ih =>
    have hop := h op List.mem_cons_self
    have hrest := @ih (exec payload release p op) fun other hother =>
      h other (List.mem_cons_of_mem _ hother)
    rw [List.foldl_cons]
    cases op with
    | renameModules => exact absurd rfl hop.1
    | linkModules => exact absurd rfl hop.2
    | _ => exact hrest

theorem plain_ops : ∀ op ∈ beforeModules ++ afterModules,
    op ≠ .renameModules ∧ op ≠ .linkModules := by
  decide

/-- The two steps that swap the modules, or the first of them. -/
theorem restoreModules_swap (k : ℕ) (hmodules : p.files.modules = fs.modules)
    (hprevious : p.previousModules = none) (hswapped : p.moduleSwapped = false) :
    restoreModules (([Op.renameModules, .linkModules].take k).foldl (exec payload release) p) =
      fs.modules := by
  match k with
  | 0 => simp [restoreModules, hmodules, hprevious, hswapped]
  | 1 =>
    cases h : fs.modules <;> simp [restoreModules, exec, hmodules, hprevious, hswapped, h]
  | k + 2 =>
    cases h : fs.modules <;>
      simp [restoreModules, exec, hmodules, hprevious, h, Modules.isLink]

theorem restoreModules_congr {q : Progress β} (h : p.files.modules = q.files.modules ∧
    p.previousModules = q.previousModules ∧ p.moduleSwapped = q.moduleSwapped) :
    restoreModules p = restoreModules q := by
  simp only [restoreModules, h.1, h.2.1, h.2.2]

/-- At every step the rollback would restore the modules. -/
theorem restoreModules_take (k : ℕ) :
    restoreModules ((program.take k).foldl (exec payload release) { files := fs }) =
      fs.modules := by
  have hbefore : ∀ op ∈ beforeModules.take k, op ≠ .renameModules ∧ op ≠ .linkModules :=
    fun op hop => plain_ops op (List.mem_append_left _ (List.mem_of_mem_take hop))
  have hafter : ∀ j, ∀ op ∈ afterModules.take j, op ≠ .renameModules ∧ op ≠ .linkModules :=
    fun j op hop => plain_ops op (List.mem_append_right _ (List.mem_of_mem_take hop))
  obtain ⟨hmodules, hprevious, hswapped⟩ :=
    @exec_modules β payload release (beforeModules.take k) { files := fs } hbefore
  rw [program, List.take_append, List.take_append, List.foldl_append, List.foldl_append,
    restoreModules_congr (exec_modules (hafter _)),
    restoreModules_swap (k - beforeModules.length) hmodules hprevious hswapped]

theorem failed_modules : restoreModules (failed payload release fs failure op) = fs.modules := by
  have htear : ∀ p : Progress β, restoreModules (tear payload p failure.left op) =
      restoreModules p := by
    intro p
    cases op <;> rfl
  unfold failed
  dsimp only
  split <;> exact (htear _).trans (restoreModules_take failure.step)

/-! ## Restored -/

/-- Everything is as before, and the release can be activated again. -/
structure Restored (fs : Files β) (release : Release) (after : Files β) : Prop where
  bin : ∀ name ∈ binaries, after.bin name = fs.bin name
  runtime : ∀ file, after.runtime file = fs.runtime file
  source : after.source = fs.source
  modules : after.modules = fs.modules
  sourceVersion : after.sourceVersion = fs.sourceVersion
  latest : after.latest = fs.latest
  again : check after release ≠ some .alreadyDeployed ∧ check after release ≠ some .notAdvancing

/-- What the run had written was there before. -/
structure Covered (fs : Files β) (failure : Failure β) : Prop where
  runtime : ∀ file ∈ replaced, failure.Wrote (.copyRuntime file) → fs.runtime file ≠ none
  sourceVersion : failure.Wrote .writeSourceVersion → fs.sourceVersion ≠ none
  latest : failure.Wrote .publishLatest → ¬ failure.FeedUndone → fs.latest ≠ none

/-- The runtime file that a step copies. -/
def Op.copied : Op → Option RuntimeFile
  | .copyRuntime file => some file
  | _ => none

theorem program_copied : program.filterMap Op.copied = replaced := by decide

theorem mem_replaced {file : RuntimeFile} (h : .copyRuntime file ∈ program) : file ∈ replaced := by
  rw [← program_copied]
  exact List.mem_filterMap.mpr ⟨_, h, rfl⟩

/-- The backup has every runtime file that a release replaces. -/
theorem backup_replaced {file : RuntimeFile} (h : file ∈ replaced) :
    (backup fs).runtime file = fs.runtime file := by
  have hall : ∀ file ∈ replaced, file.folder ∈ services ∧ file.suffix ∈ suffixes := by decide
  exact if_pos (hall file h)

theorem Failure.Wrote.mem {written : Op} (h : failure.Wrote written) : written ∈ program := by
  rcases h with h | ⟨h, -⟩
  · exact List.mem_of_mem_take h
  · exact List.mem_of_getElem? h

/-- The state after a failing activation that passed its checks. -/
theorem activate_failed (hcheck : check fs release = none) (hready : Ready fs)
    (hop : program[failure.step]? = some op) : activate release (some payload) (some failure) fs =
      (rollback (backup fs) (failed payload release fs failure op), .rolledBack) := by
  simp [activate, hcheck, hready, hop]

/-- A failing activation restores everything exactly when all it had written was there before. -/
theorem rollback_restores_iff (payload : Payload β) (hcheck : check fs release = none)
    (hready : Ready fs) (hop : program[failure.step]? = some op) :
    Restored fs release (activate release (some payload) (some failure) fs).1 ↔
      Covered fs failure := by
  rw [activate_failed hcheck hready hop]
  constructor
  · intro h
    refine ⟨fun file hfile hwrote habsent => ?_, fun hwrote habsent => ?_,
      fun hwrote hundone habsent => ?_⟩
    · refine (failed_runtime payload release fs hop file).2 hwrote ?_
      have := h.runtime file
      simpa [rollback, backup, habsent] using this
    · refine (failed_sourceVersion payload release fs hop).2 hwrote ?_
      have := h.sourceVersion
      simpa [rollback, backup, habsent] using this
    · refine (failed_latest payload release fs hop).2 hwrote hundone ?_
      have := h.latest
      simpa [rollback, backup, habsent] using this
  · intro h
    have hversion : (rollback (backup fs) (failed payload release fs failure op)).sourceVersion =
        fs.sourceVersion := by
      cases hbefore : fs.sourceVersion with
      | some version => simp [rollback, backup, hbefore]
      | none =>
        have hsame := (failed_sourceVersion payload release fs hop).1 fun hwrote =>
          h.sourceVersion hwrote hbefore
        simp [rollback, backup, hbefore, hsame]
    have hlatest : (rollback (backup fs) (failed payload release fs failure op)).latest =
        fs.latest := by
      cases hbefore : fs.latest with
      | some manifest => simp [rollback, backup, hbefore]
      | none =>
        have hwrote : ¬ failure.Wrote .publishLatest ∨ failure.FeedUndone := by
          by_contra hnot
          push Not at hnot
          exact h.latest hnot.1 hnot.2 hbefore
        have hsame := (failed_latest payload release fs hop).1 hwrote
        simp [rollback, backup, hbefore, hsame]
    have hagain : check (rollback (backup fs) (failed payload release fs failure op)) release =
        none := by
      unfold check at hcheck ⊢
      rw [hversion, hlatest]
      exact hcheck
    refine ⟨fun name hname => ?_, fun file => ?_, rfl, failed_modules, hversion, hlatest, ?_⟩
    · obtain ⟨program, hprogram⟩ := Option.isSome_iff_exists.mp (hready.1 name hname)
      simp [rollback, backup, hname, hprogram]
    · by_cases hfile : file ∈ replaced
      · dsimp only [rollback]
        rw [backup_replaced hfile]
        cases hbefore : fs.runtime file with
        | some text => rfl
        | none =>
          have hsame := (failed_runtime payload release fs hop file).1 fun hwrote =>
            h.runtime file hfile hwrote hbefore
          rw [hsame, hbefore]
          rfl
      · have hsame := (failed_runtime payload release fs hop file).1 fun hwrote =>
          hfile (mem_replaced hwrote.mem)
        dsimp only [rollback, backup]
        rw [hsame]
        split <;> cases fs.runtime file <;> rfl
    · rw [hagain]
      exact ⟨nofun, nofun⟩

/-- A deployment whose records are `version` and no feed. -/
def sampleFiles (version : Option (SourceVersion ℕ)) : Files ℕ where
  bin _ := some 0
  runtime _ := some 0
  source := 0
  modules := some (.directory 0)
  sourceVersion := version
  latest := none

def sampleRelease : Release := ⟨"1.2.3", "0123456789abcdef0123456789abcdef01234567"⟩

def samplePayload : Payload ℕ :=
  ⟨fun _ => 1, fun _ => 1, 1, "payload/node_modules", ⟨"1.2.3", 1⟩, 1⟩

/-- The Node services do not start again. -/
def unstarted : Failure ℕ := ⟨32, none, false⟩

theorem unstarted_op :
    program[unstarted.step]? = some (.command "start VerifyServer GatewayGuard") := by
  decide

theorem unstarted_restored : Restored (sampleFiles (some (.record (some "1.2.2") none 0)))
    sampleRelease (activate sampleRelease (some samplePayload) (some unstarted)
      (sampleFiles (some (.record (some "1.2.2") none 0)))).1 := by
  refine (rollback_restores_iff samplePayload (by decide) (by decide) unstarted_op).mpr
    ⟨fun file _ _ => nofun, fun _ => nofun, fun hwrote => ?_⟩
  refine absurd hwrote (not_or.mpr ⟨by decide, ?_⟩)
  rw [unstarted_op]
  simp

/-- The uploads cannot be moved away at the end of a first deployment. -/
def unmoved : Failure ℕ := ⟨82, none, false⟩

/-- Then the new records stay, and the release passes for deployed. -/
theorem unmoved_stays : ¬ ∀ (β : Type) (payload : Payload β) (release : Release) (fs : Files β)
    (failure : Failure β) (op : Op), check fs release = none → Ready fs →
    program[failure.step]? = some op →
    Restored fs release (activate release (some payload) (some failure) fs).1 := by
  intro h
  have hrestored := h ℕ samplePayload sampleRelease (sampleFiles none) unmoved
    (.command "rename incoming") (by decide) (by decide) (by decide)
  exact hrestored.again.1 (by decide)

end CppChat.Deploy
