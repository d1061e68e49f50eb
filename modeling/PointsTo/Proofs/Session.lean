import Mathlib.Data.List.Induction
import PointsTo.Proofs.Solver.Generation
import PointsTo.Session

/-!
# The life of a session

A session is used by any sequence of operations: analyses are asked for with builders that succeed
or fail, run, changed by hand, and dropped. Whatever the sequence, the number of analyses made is
the number of builders that were called and succeeded, and the live analysis carries that number.

Whether a builder is called shows only in what it does besides returning a result. So the builders
of a sequence are given an effect: they write down that they were called.

## Main definitions

* `Session.Operation`, `Session.run`: the operations, and the session after a sequence of them
* `Session.watch`, `Session.calls`: a sequence whose builders write down their calls
* `Session.Lifecycle`, `Session.Gated`, `Session.Renewable`: what holds after every sequence

## Main results

* `obtainM_pure`, `obtainM_of_live`: a builder that is only asked for its result has no effect, and
  no builder has one while an analysis is live
* `Numbered.apply`, `created_apply`: what one operation keeps and counts
* `lifecycle_of_operations`: all of it, after every sequence
-/

namespace PointsTo.Session

variable {σ : Type} {s : Session σ}

theorem isLive_eq_false_iff : s.isLive = false ↔ s.live = none := by
  simp [isLive]

/-! ## Asking for an analysis -/

section Effects

variable {m : Type → Type} [Monad m]

/-- While an analysis is live, no effect of the builder takes place. -/
theorem obtainM_of_live {a : Analysis σ} (h : s.live = some a)
    (build : Unit → m (Except AnalysisError (Analysis σ))) :
    s.obtainM build = pure (s, .ok a) := by
  simp only [obtainM, h]

/-- Without a live analysis, the effects of the builder take place once. -/
theorem obtainM_of_idle (h : s.live = none)
    (build : Unit → m (Except AnalysisError (Analysis σ))) :
    s.obtainM build = s.settle <$> build () := by
  simp only [obtainM, h]

end Effects

/-- While an analysis is live it is the answer, and nothing changes. -/
theorem obtain_of_live {a : Analysis σ} (h : s.live = some a) (build) :
    s.obtain build = (s, .ok a) := by
  rw [obtain, obtainM_of_live h, Id.run_pure]

/-- Without a live analysis all depends on what the builder returns. -/
theorem obtain_of_idle (h : s.live = none) (build) : s.obtain build = s.settle (build ()) := by
  rw [obtain, obtainM_of_idle h, Id.run_map]
  rfl

/-- A builder in any monad that is only asked for its result answers as one without effects. -/
theorem obtainM_pure {m : Type → Type} [Monad m] [LawfulMonad m] (s : Session σ) (build) :
    s.obtainM (fun _ => (pure (build ()) : m _)) = pure (s.obtain build) := by
  cases h : s.live with
  | some a => rw [obtainM_of_live h, obtain_of_live h]
  | none => rw [obtainM_of_idle h, obtain_of_idle h, map_pure]

theorem live_release (s : Session σ) : s.release.1.live = none := by
  cases h : s.live with
  | none => simp only [release, h]
  | some a => simp only [release, h]

theorem created_release (s : Session σ) : s.release.1.created = s.created := by
  cases h : s.live with
  | none => simp only [release, h]
  | some a => simp only [release, h]

theorem release_snd (s : Session σ) : s.release.2 = s.isLive := by
  cases h : s.live with
  | none => simp [release, isLive, h]
  | some a => simp [release, isLive, h]

/-! ## Sequences of operations -/

/-- The operations that may change a session. Questions return no session; they may stand anywhere
between the operations. -/
inductive Operation (σ : Type) : Type 1 where
  /-- Makes sure that an analysis is live. -/
  | obtain (build : Unit → Except AnalysisError (Analysis σ))
  /-- Drops the live analysis. -/
  | release
  /-- Runs the live analysis. -/
  | analyze
  /-- Applies an operation to the solver of the live analysis. -/
  | solver (op : PointsTo.Operation)
  /-- Asks the source of the live analysis for callees. -/
  | targets
  /-- Takes the reports. -/
  | takeReports

/-- The session after an operation, whether it fails or not. -/
def Operation.apply (s : Session σ) : Operation σ → Session σ
  | obtain build => (s.obtain build).1
  | release => s.release.1
  | analyze => s.analyze.1
  | solver op => (s.modify fun a => ({ a with solver := op.apply a.solver }, .ok ())).1
  | targets => (s.modify fun a => (a.targets.2, .ok a.targets.1)).1
  | takeReports => s.takeReports.2

/-- **The session after the operations**, the first one applied to a new session. -/
def run (ops : List (Operation σ)) : Session σ := ops.foldl Operation.apply {}

/-- One call of a builder. -/
structure Call (σ : Type) where
  /-- The session that called it. -/
  session : Session σ
  /-- What it returned. -/
  result : Except AnalysisError (Analysis σ)

/-- A builder that was called succeeded. -/
def Call.succeeded (call : Call σ) : Bool := call.result.isOk

/-- A builder that writes down that it was called. -/
def recorded (s : Session σ) (build : Unit → Except AnalysisError (Analysis σ)) :
    StateM (List (Call σ)) (Except AnalysisError (Analysis σ)) := do
  MonadState.modifyGet fun calls => (build (), calls ++ [⟨s, build ()⟩])

/-- One operation whose builder, if it has one, writes down that it was called. -/
def Operation.watched (s : Session σ) : Operation σ → StateM (List (Call σ)) (Session σ)
  | obtain build => Prod.fst <$> s.obtainM fun _ => recorded s build
  | op => pure (op.apply s)

/-- **The operations, with builders that write down their calls.** -/
def watch (ops : List (Operation σ)) : StateM (List (Call σ)) (Session σ) :=
  ops.foldlM Operation.watched {}

/-- The calls that the builders of a sequence wrote down. -/
def calls (ops : List (Operation σ)) : List (Call σ) := ((watch ops).run []).2

/-- The calls of one operation: that of its builder, if nothing is live. -/
def Operation.calls (s : Session σ) : Operation σ → List (Call σ)
  | obtain build => if s.isLive then [] else [⟨s, build ()⟩]
  | _ => []

theorem Operation.run_watched (s : Session σ) (op : Operation σ) (calls : List (Call σ)) :
    (op.watched s).run calls = (op.apply s, calls ++ op.calls s) := by
  cases op with
  | obtain build =>
    rw [Operation.watched, Operation.apply, Operation.calls]
    cases h : s.live with
    | some a =>
      rw [obtainM_of_live h, obtain_of_live h, if_pos (by simp [isLive, h]), List.append_nil]
      rfl
    | none =>
      rw [obtainM_of_idle h, obtain_of_idle h, if_neg (by simp [isLive, h])]
      rfl
  | release | analyze | solver op | targets | takeReports =>
    rw [Operation.calls, List.append_nil]
    · rfl
    · nofun

@[simp] theorem run_append_singleton (ops : List (Operation σ)) (op : Operation σ) :
    run (ops ++ [op]) = op.apply (run ops) := by
  simp [run]

theorem watch_append_singleton (ops : List (Operation σ)) (op : Operation σ) :
    (watch (ops ++ [op])).run [] =
      (op.apply ((watch ops).run []).1, calls ops ++ op.calls ((watch ops).run []).1) := by
  rw [watch, List.foldlM_append]
  exact op.run_watched ((watch ops).run []).1 ((watch ops).run []).2

/-- Writing down the calls leaves the sequence as it is. -/
theorem run_watch (ops : List (Operation σ)) : ((watch ops).run []).1 = run ops := by
  induction ops using List.reverseRecOn with
  | nil => rfl
  | append_singleton ops op ih => rw [watch_append_singleton, run_append_singleton, ih]

theorem calls_append_singleton (ops : List (Operation σ)) (op : Operation σ) :
    calls (ops ++ [op]) = calls ops ++ op.calls (run ops) := by
  rw [calls, watch_append_singleton, run_watch]

/-! ## One operation -/

/-- The live analysis carries the number of analyses made. -/
def Numbered (s : Session σ) : Prop := ∀ a, s.live = some a → a.solver.generation = s.created

theorem created_modify {α : Type} (s : Session σ)
    (f : Analysis σ → Analysis σ × Except AnalysisError α) :
    (s.modify f).1.created = s.created := by
  cases h : s.live with
  | none => simp only [modify, h]
  | some a => simp only [modify, h]

/-- What keeps the number of every analysis keeps that of the live one. -/
theorem Numbered.modify {α : Type} {f : Analysis σ → Analysis σ × Except AnalysisError α}
    (hs : s.Numbered) (hf : ∀ a, (f a).1.solver.generation = a.solver.generation) :
    (s.modify f).1.Numbered := by
  intro b hb
  rw [created_modify]
  cases h : s.live with
  | none =>
    simp only [Session.modify, h] at hb
    cases hb
  | some a =>
    simp only [Session.modify, h, Option.some.injEq] at hb
    rw [← hb, hf a, hs a h]

theorem Numbered.settle (hs : s.Numbered) (result : Except AnalysisError (Analysis σ)) :
    (s.settle result).1.Numbered := by
  cases result with
  | error e => exact hs
  | ok a =>
    rintro b ⟨⟩
    rfl

/-- **No operation parts the number of the live analysis from that of the analyses made.** A new
analysis is numbered when it is counted. -/
theorem Numbered.apply (hs : s.Numbered) (op : Operation σ) : (op.apply s).Numbered := by
  cases op with
  | obtain build =>
    rw [Operation.apply]
    cases h : s.live with
    | some a => rwa [obtain_of_live h]
    | none =>
      rw [obtain_of_idle h]
      exact hs.settle (build ())
  | release =>
    intro a ha
    rw [Operation.apply, live_release] at ha
    cases ha
  | analyze => exact hs.modify fun a => a.serves_run.generation
  | solver op => exact hs.modify fun a => op.generation_apply a.solver
  | targets => exact hs.modify fun _ => rfl
  | takeReports =>
    intro b hb
    cases h : s.live with
    | none =>
      simp only [Operation.apply, Session.takeReports, h] at hb
      cases hb
    | some a =>
      simp only [Operation.apply, Session.takeReports, h, Option.some.injEq] at hb ⊢
      rw [← hb]
      exact hs a h

/-- **One operation makes as many analyses as it calls builders that succeed.** -/
theorem created_apply (s : Session σ) (op : Operation σ) :
    (op.apply s).created = s.created + (op.calls s).countP Call.succeeded := by
  cases op with
  | obtain build =>
    rw [Operation.apply, Operation.calls]
    cases h : s.live with
    | some a => rw [obtain_of_live h, if_pos (by simp [isLive, h]), List.countP_nil, Nat.add_zero]
    | none =>
      rw [obtain_of_idle h, if_neg (by simp [isLive, h]), List.countP_singleton, Call.succeeded]
      cases build () with
      | error e => rfl
      | ok a => rfl
  | release => exact created_release s
  | analyze => exact created_modify s _
  | solver op => exact created_modify s _
  | targets => exact created_modify s _
  | takeReports =>
    rw [Operation.apply, Session.takeReports]
    cases s.live <;> rfl

/-- An operation calls its builder only if nothing is live. -/
theorem idle_of_mem_calls {op : Operation σ} {call : Call σ} (h : call ∈ op.calls s) :
    call.session.isLive = false := by
  cases op with
  | obtain build =>
    rw [Operation.calls] at h
    split at h
    · cases h
    · rename_i hlive
      rw [List.mem_singleton.mp h]
      exact Bool.eq_false_iff.mpr hlive
  | release | analyze | solver op | targets | takeReports => cases h

/-! ## All operations -/

theorem numbered_run (ops : List (Operation σ)) : (run ops).Numbered := by
  induction ops using List.reverseRecOn with
  | nil => rintro a ⟨⟩
  | append_singleton ops op ih =>
    rw [run_append_singleton]
    exact ih.apply op

theorem created_run (ops : List (Operation σ)) :
    (run ops).created = (calls ops).countP Call.succeeded := by
  induction ops using List.reverseRecOn with
  | nil => rfl
  | append_singleton ops op ih =>
    rw [run_append_singleton, calls_append_singleton, created_apply, ih, List.countP_append]

theorem idle_of_mem_calls_run {ops : List (Operation σ)} {call : Call σ}
    (h : call ∈ calls ops) : call.session.isLive = false := by
  induction ops using List.reverseRecOn with
  | nil => cases h
  | append_singleton ops op ih =>
    rw [calls_append_singleton] at h
    exact (List.mem_append.mp h).elim ih idle_of_mem_calls

/-- The number of analyses made only grows. -/
theorem created_le_created (ops more : List (Operation σ)) :
    (run ops).created ≤ (run (ops ++ more)).created := by
  induction more using List.reverseRecOn with
  | nil => rw [List.append_nil]
  | append_singleton more op ih =>
    rw [← List.append_assoc, run_append_singleton, created_apply]
    exact ih.trans (Nat.le_add_right _ _)

/-- **The numbers of a sequence of operations.** -/
structure Lifecycle (ops : List (Operation σ)) : Prop where
  /-- The calls were written down during the same sequence. -/
  watched : ((watch ops).run []).1 = run ops
  /-- Each builder that was called and succeeded made one analysis. -/
  created : (run ops).created = (calls ops).countP Call.succeeded
  /-- A builder is called only if nothing is live. -/
  idle : ∀ call ∈ calls ops, call.session.isLive = false
  /-- The live analysis carries the number of analyses made. -/
  numbered : ∀ a, (run ops).live = some a → a.solver.generation = (run ops).created
  /-- A new analysis gets a larger number than every analysis that was live before. -/
  fresh : ∀ build made, (run ops).isLive = false → build () = .ok made →
    ∃ b, ((run ops).obtain build).1.live = some b ∧
      ∀ earlier a, earlier <+: ops → (run earlier).live = some a →
        a.solver.generation < b.solver.generation

/-- **Exactly the sessions without a live analysis refuse to answer.** -/
structure Gated (s : Session σ) : Prop where
  get : s.get = .error .notInitialized ↔ s.isLive = false
  modify : ∀ {α : Type} (f : Analysis σ → Analysis σ × Except AnalysisError α),
    (∀ a, (f a).2 ≠ .error .notInitialized) →
      ((s.modify f).2 = .error .notInitialized ↔ s.isLive = false)
  generation : s.generation = .error .notInitialized ↔ s.isLive = false
  analyze : s.analyze.2 = .error .notInitialized ↔ s.isLive = false
  pointsTo : ∀ n, s.pointsTo n = .error .notInitialized ↔ s.isLive = false
  representative : ∀ n, s.representative n = .error .notInitialized ↔ s.isLive = false
  classMembers : ∀ n, s.classMembers n = .error .notInitialized ↔ s.isLive = false
  freeze : s.freeze = .error .notInitialized ↔ s.isLive = false

/-- **Analyses are kept, dropped and replaced as a whole.** -/
structure Renewable (s : Session σ) : Prop where
  /-- Effects apart, a builder with effects is asked as one without. -/
  effects : ∀ {m : Type → Type} [Monad m] [LawfulMonad m] (build),
    s.obtainM (fun _ => (pure (build ()) : m _)) = pure (s.obtain build)
  /-- A builder that fails changes nothing, and its error is the answer if it was called. -/
  failed : ∀ build e, build () = .error e →
    (s.obtain build).1 = s ∧ (s.isLive = false → (s.obtain build).2 = .error e)
  /-- A live analysis is the answer, and nothing changes. -/
  kept : ∀ build a, s.live = some a → s.obtain build = (s, .ok a)
  /-- Dropping the live analysis leaves none, and the number of analyses made stays. -/
  released : s.release.1.isLive = false ∧ s.release.1.created = s.created ∧
    s.release.2 = s.isLive
  /-- What is built after that is the result of the builder under the next number. -/
  renewed : ∀ build made, build () = .ok made →
    (s.release.1.obtain build).1.live = some (made.numbered (s.created + 1)) ∧
      (s.release.1.obtain build).2 = .ok (made.numbered (s.created + 1)) ∧
      (s.release.1.obtain build).1.created = s.created + 1

theorem get_map_eq_notInitialized_iff {α : Type} (f : Analysis σ → α) :
    s.get.map f = .error .notInitialized ↔ s.isLive = false := by
  cases h : s.live with
  | none => simp [Session.get, isLive, h, Except.map]
  | some a => simp [Session.get, isLive, h, Except.map]

theorem modify_eq_notInitialized_iff {α : Type}
    {f : Analysis σ → Analysis σ × Except AnalysisError α}
    (hf : ∀ a, (f a).2 ≠ .error .notInitialized) :
    (s.modify f).2 = .error .notInitialized ↔ s.isLive = false := by
  cases h : s.live with
  | none => simp [Session.modify, isLive, h]
  | some a => simp [Session.modify, isLive, h, hf a]

theorem gated (s : Session σ) : s.Gated where
  get := by
    cases h : s.live with
    | none => simp [Session.get, isLive, h]
    | some a => simp [Session.get, isLive, h]
  modify _ hf := modify_eq_notInitialized_iff hf
  generation := get_map_eq_notInitialized_iff _
  analyze := modify_eq_notInitialized_iff fun a => a.serves_run.initialized
  pointsTo _ := get_map_eq_notInitialized_iff _
  representative _ := get_map_eq_notInitialized_iff _
  classMembers _ := get_map_eq_notInitialized_iff _
  freeze := get_map_eq_notInitialized_iff _

theorem renewable (s : Session σ) : s.Renewable where
  effects := obtainM_pure s
  failed build e he := by
    cases h : s.live with
    | some a =>
      rw [obtain_of_live h]
      exact ⟨rfl, fun hlive => by simp [isLive, h] at hlive⟩
    | none =>
      rw [obtain_of_idle h, he]
      exact ⟨rfl, fun _ => rfl⟩
  kept build _ h := obtain_of_live h build
  released := ⟨isLive_eq_false_iff.mpr s.live_release, s.created_release, s.release_snd⟩
  renewed build made hmade := by
    rw [obtain_of_idle s.live_release, hmade, ← s.created_release]
    exact ⟨rfl, rfl, rfl⟩

theorem lifecycle (ops : List (Operation σ)) : Lifecycle ops where
  watched := run_watch ops
  created := created_run ops
  idle _ := idle_of_mem_calls_run
  numbered := numbered_run ops
  fresh build made hlive hmade := by
    rw [obtain_of_idle (isLive_eq_false_iff.mp hlive), hmade]
    refine ⟨made.numbered ((run ops).created + 1), rfl, ?_⟩
    rintro earlier a ⟨later, rfl⟩ ha
    rw [numbered_run earlier a ha]
    exact Nat.lt_succ_of_le (created_le_created earlier later)

/-- **The life of a session.** After every sequence of operations, the number of analyses made is
that of the builders that were called and succeeded, none of them while an analysis was live; the
live analysis carries that number, so each new one gets a larger number than all before; questions
are refused exactly if no analysis is live; a builder that fails changes nothing, a live analysis is
kept as it is, and a new one is the result of its builder, with nothing carried over. -/
theorem lifecycle_of_operations (ops : List (Operation σ)) :
    Lifecycle ops ∧ (run ops).Gated ∧ (run ops).Renewable :=
  ⟨lifecycle ops, gated (run ops), renewable (run ops)⟩

end PointsTo.Session
