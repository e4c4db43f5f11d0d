import Pkgsite.Dochtml.Load

/-!
# `LoadTemplates` from concurrent callers

`loadOnce.Do(f)` is `sync.Once`: a fast path returns once `done` is set; otherwise `doSlow`
takes the mutex, checks `done` again, runs `f`, stores `done` (deferred, so also after a panic)
and unlocks (deferred too). Calls of `LoadTemplates` from `n` goroutines interleave step by
step. `f` is one step: it only writes the package variables, and while it runs its caller holds
the mutex and `done` is unset, so every other caller waits.

* `OncePc`, `OnceState`, `onceStep`, `OnceRun`: the callers and their steps;
* `OnceInv`; `OnceInv.move`, `OnceInv.lock`, `OnceInv.enter`, `OnceInv.runBody`, `OnceInv.store`,
  `OnceInv.unlock`: each transition keeps it, so **`OnceInv.step`**: every step of every caller
  does;
* **`runs_le_one`**: in every interleaving, the templates are parsed at most once;
* **`runLoad_of_returned`**: once a call has returned, the package variables and the panic of
  every call are those of the sequential `runLoad` in which the call that parsed goes first;
* **`returned_of_stuck`**: an interleaving that cannot go on has every call returned.
-/

namespace Pkgsite.Dochtml

open Function

/-- Where a call of `loadOnce.Do` is. -/
inductive OncePc where
  /-- Before the fast path's `o.done.Load()`. -/
  | start
  /-- In `doSlow`, before `o.m.Lock()`. -/
  | slow
  /-- Holding `o.m`, before the second `o.done.Load()`. -/
  | locked
  /-- Running `f`. -/
  | running
  /-- After `f`: the deferred `o.done.Store(1)`. -/
  | storing
  /-- The deferred `o.m.Unlock()`. -/
  | unlocking
  /-- Returned from `Do`, or panicking out of it. -/
  | returned
  deriving DecidableEq

/-- The places between `o.m.Lock()` and `o.m.Unlock()`. -/
def OncePc.holdsLock : OncePc → Bool
  | .locked | .running | .storing | .unlocking => true
  | _ => false

/-- `loadOnce` (its `done` is `vars.done`, its mutex `owner`), the package variables, where
each caller is and what it panics with, and, as ghost state, the call that ran `f` and how many
times `f` ran. -/
structure OnceState (n : Nat) (T E : Type) where
  vars : TemplateVars T
  owner : Option (Fin n)
  pc : Fin n → OncePc
  panics : Fin n → Option E
  runner : Option (Fin n)
  runs : Nat

variable {FS T E : Type} {n : Nat}

/-- No call has started. -/
def OnceState.init : OnceState n T E := ⟨.init, none, fun _ => .start, fun _ => none, none, 0⟩

section Steps

variable (parseFS : FS → String → List String → Except E T) (fsys : Fin n → FS)

/-- One step of caller `i`, which runs `LoadTemplates(fsys i)`; `none` when it cannot move. -/
def onceStep (s : OnceState n T E) (i : Fin n) : Option (OnceState n T E) :=
  match s.pc i with
  | .start => some { s with pc := update s.pc i (if s.vars.done then .returned else .slow) }
  | .slow =>
    if s.owner = none then some { s with owner := some i, pc := update s.pc i .locked } else none
  | .locked =>
    if s.vars.done then some { s with pc := update s.pc i .unlocking }
    else some { s with pc := update s.pc i .running, runner := some i, runs := s.runs + 1 }
  | .running =>
    let r := loadBody parseFS (fsys i) s.vars
    some { s with vars := r.1, panics := update s.panics i r.2, pc := update s.pc i .storing }
  | .storing =>
    some { s with vars := { s.vars with done := true }, pc := update s.pc i .unlocking }
  | .unlocking => some { s with owner := none, pc := update s.pc i .returned }
  | .returned => none

/-- The callers `is` take one step each, in order, from `s` to `s'`. -/
inductive OnceRun : OnceState n T E → List (Fin n) → OnceState n T E → Prop
  | nil (s : OnceState n T E) : OnceRun s [] s
  | cons {s s' s'' : OnceState n T E} {i : Fin n} {is : List (Fin n)} :
      onceStep parseFS fsys s i = some s' → OnceRun s' is s'' → OnceRun s (i :: is) s''

/-- The state after the callers `is` take their steps in order, if each of them can. -/
def runSchedule (s : OnceState n T E) : List (Fin n) → Option (OnceState n T E)
  | [] => some s
  | i :: is => (onceStep parseFS fsys s i).bind fun s' => runSchedule s' is

/-- The invariant of `loadOnce` and its callers. -/
structure OnceInv (s : OnceState n T E) : Prop where
  /-- The mutex is held exactly by the call between `Lock` and `Unlock`. -/
  owner_iff : ∀ i, s.owner = some i ↔ (s.pc i).holdsLock = true
  /-- Before any call runs `f`, nothing is set and `f` has not run. -/
  idle : s.runner = none → s.vars = .init ∧ s.runs = 0
  /-- Once a call runs `f`, `f` has run once, and the variables follow that call. -/
  ran : ∀ j, s.runner = some j → s.runs = 1 ∧
    ((s.pc j = .running ∧ s.vars = .init ∧ s.panics j = none) ∨
      (s.pc j = .storing ∧ s.vars = (loadBody parseFS (fsys j) .init).1 ∧
        s.panics j = (loadBody parseFS (fsys j) .init).2) ∨
      (s.pc j ≠ .running ∧ s.pc j ≠ .storing ∧
        s.vars = (loadTemplates parseFS (fsys j) .init).1 ∧
        s.panics j = (loadTemplates parseFS (fsys j) .init).2))
  /-- A call that does not run `f` never panics. -/
  quiet : ∀ k, s.runner ≠ some k → s.panics k = none
  /-- Only the runner is in `f` or storing `done`. -/
  runner_of_running : ∀ i, (s.pc i = .running ∨ s.pc i = .storing) → s.runner = some i
  /-- A call unlocks or returns only once `done` is set. -/
  done_of_unlocking : ∀ i, (s.pc i = .unlocking ∨ s.pc i = .returned) → s.vars.done = true

end Steps

/-! ## What one step can do -/

section Invariant

variable {parseFS : FS → String → List String → Except E T} {fsys : Fin n → FS}
  {s s' : OnceState n T E} {i : Fin n}

/-- **Every step of a caller**, with what it reads and what it writes. -/
theorem onceStep_cases (h : onceStep parseFS fsys s i = some s') :
    (s.pc i = .start ∧
      s' = { s with pc := update s.pc i (if s.vars.done then .returned else .slow) }) ∨
    (s.pc i = .slow ∧ s.owner = none ∧
      s' = { s with owner := some i, pc := update s.pc i .locked }) ∨
    (s.pc i = .locked ∧ s.vars.done = true ∧ s' = { s with pc := update s.pc i .unlocking }) ∨
    (s.pc i = .locked ∧ s.vars.done = false ∧
      s' = { s with pc := update s.pc i .running, runner := some i, runs := s.runs + 1 }) ∨
    (s.pc i = .running ∧
      s' = { s with
        vars := (loadBody parseFS (fsys i) s.vars).1
        panics := update s.panics i (loadBody parseFS (fsys i) s.vars).2
        pc := update s.pc i .storing }) ∨
    (s.pc i = .storing ∧
      s' = { s with vars := { s.vars with done := true }, pc := update s.pc i .unlocking }) ∨
    (s.pc i = .unlocking ∧ s' = { s with owner := none, pc := update s.pc i .returned }) := by
  unfold onceStep at h
  split at h
  · exact .inl ⟨‹_›, (Option.some.inj h).symm⟩
  · split at h
    · exact .inr (.inl ⟨‹_›, ‹_›, (Option.some.inj h).symm⟩)
    · cases h
  · split at h
    · exact .inr (.inr (.inl ⟨‹_›, ‹_›, (Option.some.inj h).symm⟩))
    · exact .inr (.inr (.inr (.inl
        ⟨‹_›, by simpa using ‹¬s.vars.done = true›, (Option.some.inj h).symm⟩)))
  · exact .inr (.inr (.inr (.inr (.inl ⟨‹_›, (Option.some.inj h).symm⟩))))
  · exact .inr (.inr (.inr (.inr (.inr (.inl ⟨‹_›, (Option.some.inj h).symm⟩)))))
  · exact .inr (.inr (.inr (.inr (.inr (.inr ⟨‹_›, (Option.some.inj h).symm⟩)))))
  · cases h

theorem onceInv_init : OnceInv parseFS fsys (.init : OnceState n T E) where
  owner_iff _ := by simp [OnceState.init, OncePc.holdsLock]
  idle _ := ⟨rfl, rfl⟩
  ran _ h := by cases h
  quiet _ _ := rfl
  runner_of_running _ h := by simp [OnceState.init] at h
  done_of_unlocking _ h := by simp [OnceState.init] at h

theorem of_update_pc {P : OncePc → Prop} {Q : Fin n → Prop} {p : OncePc} (hp : ¬P p)
    (h : ∀ k, P (s.pc k) → Q k) (k : Fin n) (hk : P (update s.pc i p k)) : Q k := by
  rcases eq_or_ne k i with rfl | hki
  · exact absurd (by simpa using hk) hp
  · exact h k (by simpa [update_noteq hki] using hk)

theorem OnceInv.owner_iff_update (hs : OnceInv parseFS fsys s) {p : OncePc}
    (hp : p.holdsLock = (s.pc i).holdsLock) (k : Fin n) :
    s.owner = some k ↔ (update s.pc i p k).holdsLock = true := by
  rcases eq_or_ne k i with rfl | hki
  · rw [update_same, hp]
    exact hs.owner_iff k
  · rw [update_noteq hki]
    exact hs.owner_iff k

theorem OnceInv.move {p : OncePc} {o : Option (Fin n)} (hs : OnceInv parseFS fsys s)
    (hold : s.pc i ≠ .running ∧ s.pc i ≠ .storing) (hp : p ≠ .running ∧ p ≠ .storing)
    (howner : ∀ k, o = some k ↔ (update s.pc i p k).holdsLock = true)
    (hdone : p = .unlocking ∨ p = .returned → s.vars.done = true) :
    OnceInv parseFS fsys { s with owner := o, pc := update s.pc i p } where
  owner_iff := howner
  idle := hs.idle
  ran j hj := by
    obtain ⟨hruns, halt⟩ := hs.ran j hj
    refine ⟨hruns, ?_⟩
    by_cases hji : j = i
    · subst hji
      rcases halt with ⟨h, -⟩ | ⟨h, -⟩ | ⟨-, -, hv⟩
      · exact absurd h hold.1
      · exact absurd h hold.2
      · exact .inr (.inr ⟨by simpa using hp.1, by simpa using hp.2, hv⟩)
    · simpa [update_noteq hji] using halt
  quiet := hs.quiet
  runner_of_running := of_update_pc (P := fun p => p = .running ∨ p = .storing) (not_or.mpr hp)
    hs.runner_of_running
  done_of_unlocking k hk := by
    rcases eq_or_ne k i with rfl | hki
    · exact hdone (by simpa using hk)
    · exact hs.done_of_unlocking k (by simpa [update_noteq hki] using hk)

theorem OnceInv.holdsLock_of_owner_none (hs : OnceInv parseFS fsys s) (ho : s.owner = none)
    (k : Fin n) : (s.pc k).holdsLock = false := by
  simpa [ho] using (hs.owner_iff k).not

theorem OnceInv.eq_of_holdsLock (hs : OnceInv parseFS fsys s) {j k : Fin n}
    (hj : (s.pc j).holdsLock = true) (hk : (s.pc k).holdsLock = true) : j = k :=
  Option.some.inj (((hs.owner_iff j).mpr hj).symm.trans ((hs.owner_iff k).mpr hk))

theorem OnceInv.not_running_of_locked (hs : OnceInv parseFS fsys s) (hi : s.pc i = .locked)
    (j : Fin n) : s.pc j ≠ .running ∧ s.pc j ≠ .storing := by
  have hlocked : ∀ p : OncePc, s.pc j = p → p.holdsLock = true → p = .locked := fun p h hl => by
    rw [← h, hs.eq_of_holdsLock (j := j) (k := i) (by rw [h]; exact hl) (by rw [hi]; rfl), hi]
  exact ⟨(fun h => nomatch hlocked _ h rfl), (fun h => nomatch hlocked _ h rfl)⟩

theorem OnceInv.runner_eq_none (hs : OnceInv parseFS fsys s) (hi : s.pc i = .locked)
    (hd : s.vars.done = false) : s.runner = none := by
  cases hr : s.runner with
  | none => rfl
  | some j =>
    obtain ⟨-, halt⟩ := hs.ran j hr
    have hj := hs.not_running_of_locked hi j
    rcases halt with ⟨h, -⟩ | ⟨h, -⟩ | ⟨-, -, hv, -⟩
    · exact absurd h hj.1
    · exact absurd h hj.2
    · rw [hv, loadTemplates_done] at hd
      cases hd

theorem OnceInv.of_running (hs : OnceInv parseFS fsys s) (hi : s.pc i = .running) :
    s.runner = some i ∧ s.runs = 1 ∧ s.vars = .init := by
  have hr := hs.runner_of_running i (.inl hi)
  obtain ⟨hruns, halt⟩ := hs.ran i hr
  refine ⟨hr, hruns, ?_⟩
  rcases halt with ⟨-, hv, -⟩ | ⟨h, -⟩ | ⟨h, -⟩
  · exact hv
  · nomatch hi.symm.trans h
  · exact absurd hi h

theorem OnceInv.of_storing (hs : OnceInv parseFS fsys s) (hi : s.pc i = .storing) :
    s.runner = some i ∧ s.runs = 1 ∧ s.vars = (loadBody parseFS (fsys i) .init).1 ∧
      s.panics i = (loadBody parseFS (fsys i) .init).2 := by
  have hr := hs.runner_of_running i (.inr hi)
  obtain ⟨hruns, halt⟩ := hs.ran i hr
  refine ⟨hr, hruns, ?_⟩
  rcases halt with ⟨h, -⟩ | ⟨-, hv⟩ | ⟨-, h, -⟩
  · nomatch hi.symm.trans h
  · exact hv
  · exact absurd hi h

theorem OnceInv.loaded_of_done (hs : OnceInv parseFS fsys s) (hd : s.vars.done = true) :
    ∃ j, s.runner = some j ∧ s.vars = (loadTemplates parseFS (fsys j) .init).1 ∧
      s.panics j = (loadTemplates parseFS (fsys j) .init).2 := by
  cases hr : s.runner with
  | none =>
    rw [(hs.idle hr).1] at hd
    cases hd
  | some j =>
    obtain ⟨-, halt⟩ := hs.ran j hr
    rcases halt with ⟨-, hv, -⟩ | ⟨-, hv, -⟩ | ⟨-, -, hv⟩
    · rw [hv] at hd
      cases hd
    · rw [hv, loadBody_done] at hd
      cases hd
    · exact ⟨j, rfl, hv⟩

theorem OnceInv.lock (hs : OnceInv parseFS fsys s) (hi : s.pc i = .slow) (ho : s.owner = none) :
    OnceInv parseFS fsys { s with owner := some i, pc := update s.pc i .locked } := by
  refine hs.move (by simp [hi]) (by simp) (fun k => ?_) (by simp)
  rcases eq_or_ne k i with rfl | hki
  · simp [OncePc.holdsLock]
  · rw [update_noteq hki, hs.holdsLock_of_owner_none ho k]
    simp [Ne.symm hki]

theorem OnceInv.enter (hs : OnceInv parseFS fsys s) (hi : s.pc i = .locked)
    (hd : s.vars.done = false) :
    OnceInv parseFS fsys
      { s with pc := update s.pc i .running, runner := some i, runs := s.runs + 1 } := by
  have hnone := hs.runner_eq_none hi hd
  obtain ⟨hv, hruns⟩ := hs.idle hnone
  have hquiet : ∀ k, s.panics k = none := fun k => hs.quiet k (by simp [hnone])
  exact {
    owner_iff := hs.owner_iff_update (by rw [hi]; rfl)
    idle := fun h => by cases h
    ran := fun j hj => by
      obtain rfl : i = j := Option.some.inj hj
      exact ⟨by simp [hruns], .inl ⟨by simp, hv, hquiet i⟩⟩
    quiet := fun k _ => hquiet k
    runner_of_running := fun k hk => by
      rcases eq_or_ne k i with rfl | hki
      · rfl
      · exact absurd (by simpa [update_noteq hki] using hk)
          (not_or.mpr (hs.not_running_of_locked hi k))
    done_of_unlocking := of_update_pc (P := fun p => p = .unlocking ∨ p = .returned) (by simp)
      hs.done_of_unlocking }

theorem OnceInv.runBody (hs : OnceInv parseFS fsys s) (hi : s.pc i = .running) :
    OnceInv parseFS fsys
      { s with
        vars := (loadBody parseFS (fsys i) s.vars).1
        panics := update s.panics i (loadBody parseFS (fsys i) s.vars).2
        pc := update s.pc i .storing } := by
  obtain ⟨hr, hruns, hv⟩ := hs.of_running hi
  exact {
    owner_iff := hs.owner_iff_update (by rw [hi]; rfl)
    idle := fun h => by rw [hr] at h; cases h
    ran := fun j hj => by
      obtain rfl : i = j := Option.some.inj (hr.symm.trans hj)
      exact ⟨hruns, .inr (.inl ⟨by simp, by rw [hv], by simp [hv]⟩)⟩
    quiet := fun k hk => by
      have hki : k ≠ i := fun h => hk (by rw [h]; exact hr)
      simpa [update_noteq hki] using hs.quiet k hk
    runner_of_running := fun k hk => by
      rcases eq_or_ne k i with rfl | hki
      · exact hr
      · exact hs.runner_of_running k (by simpa [update_noteq hki] using hk)
    done_of_unlocking := of_update_pc (P := fun p => p = .unlocking ∨ p = .returned) (by simp)
      fun k hk => by
        have := hs.done_of_unlocking k hk
        rw [hv] at this
        cases this }

theorem OnceInv.store (hs : OnceInv parseFS fsys s) (hi : s.pc i = .storing) :
    OnceInv parseFS fsys
      { s with vars := { s.vars with done := true }, pc := update s.pc i .unlocking } := by
  obtain ⟨hr, hruns, hv, hp⟩ := hs.of_storing hi
  exact {
    owner_iff := hs.owner_iff_update (by rw [hi]; rfl)
    idle := fun h => by rw [hr] at h; cases h
    ran := fun j hj => by
      obtain rfl : i = j := Option.some.inj (hr.symm.trans hj)
      exact ⟨hruns, .inr (.inr ⟨by simp, by simp, by rw [hv, loadTemplates_init],
        by rw [hp, loadTemplates_init]⟩)⟩
    quiet := hs.quiet
    runner_of_running := of_update_pc (P := fun p => p = .running ∨ p = .storing) (by simp)
      hs.runner_of_running
    done_of_unlocking := fun _ _ => rfl }

theorem OnceInv.unlock (hs : OnceInv parseFS fsys s) (hi : s.pc i = .unlocking) :
    OnceInv parseFS fsys { s with owner := none, pc := update s.pc i .returned } := by
  refine hs.move (by simp [hi]) (by simp) (fun k => ?_) (fun _ => hs.done_of_unlocking i (.inl hi))
  rcases eq_or_ne k i with rfl | hki
  · simp [OncePc.holdsLock]
  · have hown : s.owner = some i := (hs.owner_iff i).mpr (by rw [hi]; rfl)
    have := (hs.owner_iff k).not.mp (by rw [hown]; simpa using Ne.symm hki)
    simpa [update_noteq hki] using this

/-- **Every step of every caller keeps the invariant.** -/
theorem OnceInv.step (hs : OnceInv parseFS fsys s) (h : onceStep parseFS fsys s i = some s') :
    OnceInv parseFS fsys s' := by
  rcases onceStep_cases h with ⟨hi, rfl⟩ | ⟨hi, ho, rfl⟩ | ⟨hi, hd, rfl⟩ | ⟨hi, hd, rfl⟩ |
    ⟨hi, rfl⟩ | ⟨hi, rfl⟩ | ⟨hi, rfl⟩
  · -- the fast path: return once `done` is set, else go to `doSlow`
    exact hs.move (by simp [hi]) (by split <;> simp)
      (hs.owner_iff_update (by split <;> rw [hi] <;> rfl)) (by split <;> simp_all)
  · exact hs.lock hi ho
  · -- `done` is already set: straight to `o.m.Unlock()`
    exact hs.move (by simp [hi]) (by simp) (hs.owner_iff_update (by rw [hi]; rfl)) fun _ => hd
  · exact hs.enter hi hd
  · exact hs.runBody hi
  · exact hs.store hi
  · exact hs.unlock hi

end Invariant

/-! ## Every interleaving -/

section Runs

variable {parseFS : FS → String → List String → Except E T} {fsys : Fin n → FS}
  {s s' : OnceState n T E} {is : List (Fin n)}

theorem onceRun_of_runSchedule :
    ∀ {s s' : OnceState n T E} {is : List (Fin n)}, runSchedule parseFS fsys s is = some s' →
      OnceRun parseFS fsys s is s'
  | _, _, [], h => by
    cases h
    exact .nil _
  | s, _, i :: is, h => by
    obtain ⟨s₁, h₁, h₂⟩ := Option.bind_eq_some.mp h
    exact .cons h₁ (onceRun_of_runSchedule h₂)

/-- Templates that parse to their own names. -/
def parseNames : Unit → String → List String → Except String String := fun _ name _ => .ok name

/-- Two calls: the second waits on the mutex while the first parses, then finds `done`. -/
def twoCallers : List (Fin 2) := [0, 1, 0, 0, 0, 0, 0, 1, 1, 1]

/-- The state after `twoCallers`. -/
def twoCallersState : OnceState 2 String String :=
  (runSchedule parseNames (fun _ => ()) .init twoCallers).getD .init

theorem onceRun_twoCallers : OnceRun parseNames (fun _ => ()) .init twoCallers twoCallersState :=
  onceRun_of_runSchedule rfl

theorem OnceInv.run (hs : OnceInv parseFS fsys s) (h : OnceRun parseFS fsys s is s') :
    OnceInv parseFS fsys s' := by
  induction h with
  | nil => exact hs
  | cons hstep _ ih => exact ih (hs.step hstep)

/-- **The templates are parsed at most once**, in every interleaving of the calls. -/
theorem runs_le_one (h : OnceRun parseFS fsys .init is s) : s.runs ≤ 1 := by
  have hs := onceInv_init.run h
  cases hr : s.runner with
  | none => rw [(hs.idle hr).2]; omega
  | some j => rw [(hs.ran j hr).1]

theorem runs_le_one_twoCallers :
    OnceRun parseNames (fun _ => ()) .init twoCallers twoCallersState ∧ twoCallersState.runs ≤ 1 :=
  ⟨onceRun_twoCallers, runs_le_one onceRun_twoCallers⟩

/-- **Once a call has returned, the interleaving is a sequential run of `LoadTemplates`**: the
call that parsed goes first, then the others in any order. The package variables and what every
call panics with are those of that run, whatever the calls still under way do next. -/
theorem runLoad_of_returned (h : OnceRun parseFS fsys .init is s) {i : Fin n}
    (hi : s.pc i = .returned) :
    ∃ j, ∀ rest : List (Fin n), j ∉ rest →
      s.vars = runLoad parseFS ((j :: rest).map fsys) .init ∧
      (j :: rest).map s.panics = runLoadPanics parseFS ((j :: rest).map fsys) .init := by
  have hs := onceInv_init.run h
  obtain ⟨j, hr, hv, hp⟩ := hs.loaded_of_done (hs.done_of_unlocking i (.inr hi))
  refine ⟨j, fun rest hj => ⟨by rw [List.map_cons, runLoad_cons, hv], ?_⟩⟩
  have hquiet : ∀ k ∈ rest, s.panics k = none := fun k hk =>
    hs.quiet k fun h => hj (Option.some.inj (hr.symm.trans h) ▸ hk)
  rw [List.map_cons, List.map_cons, runLoadPanics, runLoadPanics_of_done (loadTemplates_done _ _),
    hp, List.map_map]
  exact congrArg _ (List.map_congr_left hquiet)

theorem runLoad_of_returned_twoCallers :
    OnceRun parseNames (fun _ => ()) .init twoCallers twoCallersState ∧
      twoCallersState.pc 1 = .returned ∧
      ∃ j, ∀ rest : List (Fin 2), j ∉ rest →
        twoCallersState.vars = runLoad parseNames ((j :: rest).map fun _ => ()) .init ∧
        (j :: rest).map twoCallersState.panics =
          runLoadPanics parseNames ((j :: rest).map fun _ => ()) .init :=
  have hi : twoCallersState.pc 1 = .returned := rfl
  ⟨onceRun_twoCallers, hi, runLoad_of_returned onceRun_twoCallers hi⟩

theorem OnceInv.exists_step (hs : OnceInv parseFS fsys s) {i : Fin n} (hi : s.pc i ≠ .returned) :
    ∃ j s', onceStep parseFS fsys s j = some s' := by
  cases ho : s.owner with
  | none =>
    have hl := hs.holdsLock_of_owner_none ho i
    refine ⟨i, ?_⟩
    unfold onceStep
    cases hp : s.pc i <;> simp_all [OncePc.holdsLock]
  | some k =>
    have hk := (hs.owner_iff k).mp ho
    refine ⟨k, ?_⟩
    unfold onceStep
    cases hp : s.pc k <;> simp_all [OncePc.holdsLock]
    split <;> simp

/-- **An interleaving that cannot go on has every call returned**, so every maximal
interleaving ends with each call finding the templates. -/
theorem returned_of_stuck (h : OnceRun parseFS fsys .init is s)
    (hstuck : ∀ j, onceStep parseFS fsys s j = none) (i : Fin n) : s.pc i = .returned := by
  by_contra hi
  obtain ⟨j, s', hj⟩ := (onceInv_init.run h).exists_step hi
  rw [hstuck j] at hj
  cases hj

theorem returned_of_stuck_twoCallers :
    OnceRun parseNames (fun _ => ()) .init twoCallers twoCallersState ∧
      (∀ j, onceStep parseNames (fun _ => ()) twoCallersState j = none) ∧
      ∀ i, twoCallersState.pc i = .returned :=
  have hstuck : ∀ j, onceStep parseNames (fun _ => ()) twoCallersState j = none
    | 0 => rfl
    | 1 => rfl
  ⟨onceRun_twoCallers, hstuck, returned_of_stuck onceRun_twoCallers hstuck⟩

end Runs

end Pkgsite.Dochtml
