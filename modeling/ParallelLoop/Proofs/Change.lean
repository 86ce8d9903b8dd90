/-
# Running outcomes and changes

A computation in `Except` or `Change` that succeeds is a chain of steps that succeed.
This module takes such chains apart: `Outcome.of_bind` and `Change.of_bind` give the
steps of a chain whose result is known, and `Change.result_bind` runs a chain whose
first step is known. After that no proof unfolds a monad. The other way round, a chain
`Succeeds` when its steps do, each where the one before it ends.

A change respects a relation when it holds between the state before and the one that the
change leaves, whether it succeeds or stops. For a preorder, a chain respects it when the
steps do. Many changes touch only part of a state; they respect that a view of the state
is the same, which is `Change.Preserves`. A change that does not even look at a part of a
state `Change.Ignores` it.
-/

import Mathlib.Order.Defs.Unbundled
import ParallelLoop.Change

namespace ParallelLoop

/-! ## Outcomes -/

namespace Outcome

variable {ε α β : Type}

@[simp] theorem ok_bind (value : α) (next : α → Except ε β) :
    (Except.ok value >>= next) = next value := rfl

@[simp] theorem error_bind (cause : ε) (next : α → Except ε β) :
    (Except.error cause >>= next) = .error cause := rfl

@[simp] theorem pure_eq (value : α) : (pure value : Except ε α) = .ok value := rfl

@[simp] theorem map_ok (change : α → β) (value : α) :
    change <$> (Except.ok value : Except ε α) = .ok (change value) := rfl

@[simp] theorem orOverflow_some (value : α) : orOverflow (some value) = .ok value := rfl

@[simp] theorem orFailure_ok (value : α) : orFailure (.ok value) = .ok value := rfl

@[simp] theorem orFailure_error (cause : Error) :
    (orFailure (.error cause) : Except Failure α) = .error (.error cause) := rfl

/-- The steps of a chain that succeeded. -/
theorem of_bind {first : Except ε α} {next : α → Except ε β} {result : β}
    (done : (first >>= next) = .ok result) :
    ∃ value, first = .ok value ∧ next value = .ok result := by
  cases first with
  | error cause => simp at done
  | ok value => exact ⟨value, rfl, done⟩

theorem of_map {outcome : Except ε α} {change : α → β} {result : β}
    (done : change <$> outcome = .ok result) :
    ∃ value, outcome = .ok value ∧ change value = result := by
  cases outcome with
  | error cause => cases done
  | ok value => exact ⟨value, rfl, Except.ok.inj done⟩

theorem of_orFailure {outcome : Except Error α} {value : α}
    (done : orFailure outcome = .ok value) : outcome = .ok value := by
  cases outcome with
  | error cause => simp at done
  | ok found => simpa using done

theorem orFailure_inj {outcome other : Except Error α} :
    orFailure outcome = orFailure other ↔ outcome = other := by
  cases outcome <;> cases other <;> simp [orFailure]

theorem mapM_cons_eq_ok_iff {change : α → Except ε β} {first : α} {rest : List α}
    {results : List β} :
    (first :: rest).mapM change = .ok results ↔
      ∃ own others, change first = .ok own ∧ rest.mapM change = .ok others ∧
        results = own :: others := by
  rw [List.mapM_cons]
  constructor
  · intro done
    obtain ⟨own, own_eq, done⟩ := of_bind done
    obtain ⟨others, others_eq, returned⟩ := of_bind done
    exact ⟨own, others, own_eq, others_eq, (Except.ok.inj returned).symm⟩
  · rintro ⟨own, others, own_eq, others_eq, rfl⟩
    rw [own_eq, ok_bind, others_eq, ok_bind, pure_eq]

theorem mapM_eq_map {change : α → Except ε β} {plain : α → β} {list : List α}
    (computes : ∀ value ∈ list, change value = .ok (plain value)) :
    list.mapM change = .ok (list.map plain) := by
  induction list with
  | nil => rfl
  | cons first rest ih =>
    rw [List.forall_mem_cons] at computes
    exact mapM_cons_eq_ok_iff.mpr ⟨_, _, computes.1, ih computes.2, rfl⟩

theorem eq_map_of_mapM {change : α → Except ε β} {plain : α → β} {list : List α}
    {results : List β} (done : list.mapM change = .ok results)
    (computes : ∀ value ∈ list, ∀ result, change value = .ok result → result = plain value) :
    results = list.map plain := by
  induction list generalizing results with
  | nil => exact (Except.ok.inj done).symm
  | cons first rest ih =>
    rw [List.forall_mem_cons] at computes
    obtain ⟨own, others, own_eq, others_eq, rfl⟩ := mapM_cons_eq_ok_iff.mp done
    rw [computes.1 own own_eq, ih others_eq computes.2, List.map_cons]

/-- What is computed for some values in one order can be computed for them in any other. -/
theorem exists_mapM_of_perm {change : α → Except ε β} {list other : List α}
    (perm : list.Perm other) {results : List β} (done : list.mapM change = .ok results) :
    ∃ others, other.mapM change = .ok others ∧ others.Perm results := by
  induction perm generalizing results with
  | nil => exact ⟨results, done, .refl _⟩
  | cons first _ ih =>
    obtain ⟨own, rest, own_eq, rest_eq, rfl⟩ := mapM_cons_eq_ok_iff.mp done
    obtain ⟨others, others_eq, same⟩ := ih rest_eq
    exact ⟨own :: others, mapM_cons_eq_ok_iff.mpr ⟨_, _, own_eq, others_eq, rfl⟩, same.cons own⟩
  | swap first second rest =>
    obtain ⟨own, inner, own_eq, inner_eq, rfl⟩ := mapM_cons_eq_ok_iff.mp done
    obtain ⟨own', rest, own_eq', rest_eq, rfl⟩ := mapM_cons_eq_ok_iff.mp inner_eq
    have inner_eq' := mapM_cons_eq_ok_iff.mpr ⟨own, rest, own_eq, rest_eq, rfl⟩
    exact ⟨_, mapM_cons_eq_ok_iff.mpr ⟨own', _, own_eq', inner_eq', rfl⟩, .swap ..⟩
  | trans _ _ ihFirst ihSecond =>
    obtain ⟨middle, middle_eq, same⟩ := ihFirst done
    obtain ⟨others, others_eq, same'⟩ := ihSecond middle_eq
    exact ⟨others, others_eq, same'.trans same⟩

/-- Why there is no value. -/
def failure? : Except ε α → Option ε
  | .ok _ => none
  | .error cause => some cause

theorem exists_ok {outcome : Except ε α} (succeeds : outcome.toOption.isSome = true) :
    ∃ value, outcome = .ok value := by
  cases outcome with
  | ok value => exact ⟨value, rfl⟩
  | error cause => cases succeeds

end Outcome

/-! ## Changes -/

namespace Change

variable {σ α β γ : Type}

@[simp] theorem result_pure (value : α) (state : σ) :
    (pure value : Change σ α).result state = (.ok value, state) := rfl

@[simp] theorem result_get (state : σ) :
    (get : Change σ σ).result state = (.ok state, state) := rfl

@[simp] theorem result_set (next state : σ) :
    (set next : Change σ PUnit).result state = (.ok (), next) := rfl

@[simp] theorem result_modify (step : σ → σ) (state : σ) :
    (modify step : Change σ PUnit).result state = (.ok (), step state) := rfl

@[simp] theorem result_fail (cause : Error) (state : σ) :
    (fail cause : Change σ α).result state = (.error (.error cause), state) := rfl

@[simp] theorem result_abort (cause : Abort) (state : σ) :
    (abort cause : Change σ α).result state = (.error (.abort cause), state) := rfl

@[simp] theorem result_ofExcept (outcome : Except Error α) (state : σ) :
    (ofExcept outcome).result state = (orFailure outcome, state) := by
  cases outcome <;> rfl

@[simp] theorem result_ofOutcome (outcome : Except Failure α) (state : σ) :
    (ofOutcome outcome).result state = (outcome, state) := by
  cases outcome <;> rfl

@[simp] theorem result_inspect (look : σ → Except Error α) (state : σ) :
    (inspect look).result state = (orFailure (look state), state) :=
  result_ofExcept (look state) state

/-- A change that is known to succeed gives a value. -/
theorem result_eq_ok {change : Change σ α} {state : σ}
    (done : (change.result state).1.isOk = true) :
    ∃ value, change.result state = (.ok value, (change.result state).2) := by
  cases outcome : (change.result state).1 with
  | error _ =>
    rw [outcome] at done
    cases done
  | ok value => exact ⟨value, Prod.ext outcome rfl⟩

/-- A chain whose first step succeeds goes on with the second one. -/
theorem result_bind {first : Change σ α} {next : α → Change σ β} {state after : σ} {value : α}
    (done : first.result state = (.ok value, after)) :
    (first >>= next).result state = (next value).result after := by
  change (ExceptT.bindCont next (first.result state).1).run (first.result state).2 = _
  rw [done]
  rfl

/-- A chain whose first step stops ends there. -/
theorem result_bind_error {first : Change σ α} {next : α → Change σ β} {state after : σ}
    {cause : Failure} (stopped : first.result state = (.error cause, after)) :
    (first >>= next).result state = (.error cause, after) := by
  change (ExceptT.bindCont next (first.result state).1).run (first.result state).2 = _
  rw [stopped]
  rfl

/-- The steps of a chain that succeeded. -/
theorem of_bind {first : Change σ α} {next : α → Change σ β} {state final : σ} {result : β}
    (done : (first >>= next).result state = (.ok result, final)) :
    ∃ value after, first.result state = (.ok value, after) ∧
      (next value).result after = (.ok result, final) := by
  rcases step : first.result state with ⟨outcome, after⟩
  cases outcome with
  | error cause =>
    rw [result_bind_error step] at done
    simp at done
  | ok value =>
    rw [result_bind step] at done
    exact ⟨value, after, rfl, done⟩

/-- An outcome that a chain goes on with is a value. -/
theorem of_ofOutcome_bind {outcome : Except Failure α} {next : α → Change σ β} {state final : σ}
    {result : β} (done : (ofOutcome outcome >>= next).result state = (.ok result, final)) :
    ∃ value, outcome = .ok value ∧ (next value).result state = (.ok result, final) := by
  obtain ⟨value, after, step, rest⟩ := of_bind done
  rw [result_ofOutcome, Prod.mk.injEq] at step
  obtain ⟨found, rfl⟩ := step
  exact ⟨value, found, rest⟩

theorem of_ofExcept_bind {outcome : Except Error α} {next : α → Change σ β} {state final : σ}
    {result : β} (done : (ofExcept outcome >>= next).result state = (.ok result, final)) :
    ∃ value, outcome = .ok value ∧ (next value).result state = (.ok result, final) := by
  obtain ⟨value, after, step, rest⟩ := of_bind done
  rw [result_ofExcept, Prod.mk.injEq] at step
  obtain ⟨found, rfl⟩ := step
  exact ⟨value, Outcome.of_orFailure found, rest⟩

theorem of_inspect_bind {look : σ → Except Error α} {next : α → Change σ β} {state final : σ}
    {result : β} (done : (inspect look >>= next).result state = (.ok result, final)) :
    ∃ value, look state = .ok value ∧ (next value).result state = (.ok result, final) := by
  obtain ⟨value, after, step, rest⟩ := of_bind done
  rw [result_inspect, Prod.mk.injEq] at step
  obtain ⟨found, rfl⟩ := step
  exact ⟨value, Outcome.of_orFailure found, rest⟩

theorem of_get_bind {next : σ → Change σ β} {state final : σ} {result : β}
    (done : (get >>= next).result state = (.ok result, final)) :
    (next state).result state = (.ok result, final) := by
  rwa [result_bind (result_get state)] at done

/-- What is looked up is there. -/
theorem result_inspect_bind (look : σ → Except Error α) {next : α → Change σ β} {state : σ}
    {value : α} (found : look state = .ok value) :
    (inspect look >>= next).result state = (next value).result state :=
  result_bind (by rw [result_inspect, found]; rfl)

theorem result_ofExcept_bind {outcome : Except Error α} {next : α → Change σ β} {state : σ}
    {value : α} (found : outcome = .ok value) :
    (ofExcept outcome >>= next).result state = (next value).result state :=
  result_bind (by rw [result_ofExcept, found]; rfl)

theorem result_ofOutcome_bind {outcome : Except Failure α} {next : α → Change σ β} {state : σ}
    {value : α} (found : outcome = .ok value) :
    (ofOutcome outcome >>= next).result state = (next value).result state :=
  result_bind (by rw [result_ofOutcome, found])

/-! ## Changes that succeed -/

/-- The change does not stop when it starts in this state. -/
def Succeeds (change : Change σ α) (state : σ) : Prop :=
  ∃ value after, change.result state = (.ok value, after)

namespace Succeeds

variable {first : Change σ α} {next : α → Change σ β} {state after : σ} {value : α}

/-- What comes after a step that is known has to succeed where the step ends. -/
theorem go_on (step : first.result state = (.ok value, after)) (rest : (next value).Succeeds after) :
    (first >>= next).Succeeds state := by
  obtain ⟨result, final, done⟩ := rest
  exact ⟨result, final, by rw [result_bind step, done]⟩

/-- Each step of a chain has to succeed where the one before it may end. -/
theorem bind (start : first.Succeeds state)
    (rest : ∀ value after, first.result state = (.ok value, after) → (next value).Succeeds after) :
    (first >>= next).Succeeds state := by
  obtain ⟨value, after, step⟩ := start
  exact go_on step (rest value after step)

theorem congr {change other : Change σ α} (same : change.result state = other.result state)
    (succeeds : other.Succeeds state) : change.Succeeds state := by
  unfold Succeeds at *
  rwa [same]

theorem pure (value : α) (state : σ) : (pure value : Change σ α).Succeeds state :=
  ⟨value, state, rfl⟩

theorem modify (step : σ → σ) (state : σ) : (modify step : Change σ PUnit).Succeeds state :=
  ⟨_, step state, rfl⟩

theorem get_bind {next : σ → Change σ β} (rest : (next state).Succeeds state) :
    (get >>= next).Succeeds state := go_on (result_get state) rest

theorem inspect_bind {look : σ → Except Error α} (found : look state = .ok value)
    (rest : (next value).Succeeds state) : (inspect look >>= next).Succeeds state :=
  go_on (by rw [result_inspect, found]; rfl) rest

theorem ofExcept_bind {outcome : Except Error α} (found : outcome = .ok value)
    (rest : (next value).Succeeds state) : (ofExcept outcome >>= next).Succeeds state :=
  go_on (by rw [result_ofExcept, found]; rfl) rest

theorem ofOutcome_bind {outcome : Except Failure α} (found : outcome = .ok value)
    (rest : (next value).Succeeds state) : (ofOutcome outcome >>= next).Succeeds state :=
  go_on (by rw [result_ofOutcome, found]) rest

end Succeeds

/-! ## Relations between states -/

/-- Whatever comes of the change, the state before it and the one that it leaves are so related. -/
def Respects (relation : σ → σ → Prop) (change : Change σ α) : Prop :=
  ∀ state, relation state (change.result state).2

namespace Respects

variable {relation : σ → σ → Prop} [IsPreorder σ relation]

theorem of_unchanged {change : Change σ α} (unchanged : ∀ state, (change.result state).2 = state) :
    Respects relation change := fun state => by
  rw [unchanged]
  exact Std.Refl.refl state

theorem pure (value : α) : Respects relation (pure value : Change σ α) :=
  of_unchanged fun _ => rfl

theorem get : Respects relation (get : Change σ σ) := of_unchanged fun _ => rfl

theorem fail (cause : Error) : Respects relation (fail cause : Change σ α) :=
  of_unchanged fun _ => rfl

theorem abort (cause : Abort) : Respects relation (abort cause : Change σ α) :=
  of_unchanged fun _ => rfl

theorem ofExcept (outcome : Except Error α) : Respects relation (ofExcept outcome) :=
  of_unchanged fun state => by rw [result_ofExcept]

theorem ofOutcome (outcome : Except Failure α) : Respects relation (ofOutcome outcome) :=
  of_unchanged fun state => by rw [result_ofOutcome]

theorem inspect (look : σ → Except Error α) : Respects relation (inspect look) :=
  of_unchanged fun state => by rw [result_inspect]

omit [IsPreorder σ relation] in
theorem modify {step : σ → σ} (related : ∀ state, relation state (step state)) :
    Respects relation (modify step : Change σ PUnit) := related

theorem bind {first : Change σ α} {next : α → Change σ β} (start : Respects relation first)
    (rest : ∀ value, Respects relation (next value)) : Respects relation (first >>= next) := by
  intro state
  rcases step : first.result state with ⟨outcome, after⟩
  have related : relation state after := by simpa [step] using start state
  cases outcome with
  | error cause => rwa [result_bind_error step]
  | ok value =>
    rw [result_bind step]
    exact IsTrans.trans state after _ related (rest value after)

omit [IsPreorder σ relation] in
/-- The states before and after a change that succeeded. -/
theorem of_result {change : Change σ α} {state after : σ} {value : α}
    (kept : Respects relation change) (done : change.result state = (.ok value, after)) :
    relation state after := by
  simpa [done] using kept state

end Respects

/-- What holds of the state before holds of the one after. -/
def Maintains (property : σ → Prop) (before after : σ) : Prop := property before → property after

instance (property : σ → Prop) : IsPreorder σ (Maintains property) where
  refl _ := fun held => held
  trans _ _ _ first second := fun held => second (first held)

/-! ## Changes that leave a view of the state alone -/

/-- The view shows the same of both states. -/
def SameView (view : σ → γ) (before after : σ) : Prop := view after = view before

instance (view : σ → γ) : IsPreorder σ (SameView view) where
  refl _ := rfl
  trans _ _ _ first second := Eq.trans second first

/-- Whatever comes of the change, the view of the state stays the same. -/
abbrev Preserves (view : σ → γ) (change : Change σ α) : Prop := Respects (SameView view) change

namespace Preserves

variable {view : σ → γ}

/-- The view after a change that succeeded. -/
theorem eq {change : Change σ α} {state after : σ} {value : α} (kept : Preserves view change)
    (done : change.result state = (.ok value, after)) : view after = view state :=
  kept.of_result done

/-- What holds of the view keeps holding. -/
theorem maintains {change : Change σ α} (kept : Preserves view change) (property : γ → Prop) :
    Respects (Maintains fun state => property (view state)) change := by
  intro state held
  have same : view (change.result state).2 = view state := kept state
  change property (view (change.result state).2)
  rwa [same]

/-- What a view determines stays the same, too. -/
theorem map {δ : Type} {change : Change σ α} (kept : Preserves view change) (further : γ → δ) :
    Preserves (fun state => further (view state)) change :=
  fun state => congrArg further (kept state)

end Preserves

/-! ## Changes that look first -/

/-- Whenever the change stops, it leaves the state as it is. -/
def IsAtomic (change : Change σ α) : Prop :=
  ∀ state after cause, change.result state = (.error cause, after) → after = state

namespace IsAtomic

theorem of_unchanged {change : Change σ α} (unchanged : ∀ state, (change.result state).2 = state) :
    IsAtomic change := fun state after cause stopped => by
  rw [← unchanged state, stopped]

theorem modify (step : σ → σ) : IsAtomic (modify step : Change σ PUnit) := fun _ _ _ stopped => by
  rw [result_modify] at stopped
  cases stopped

/-- Something is looked up first. -/
theorem look {first : Change σ α} {next : α → Change σ β}
    (unchanged : ∀ state, (first.result state).2 = state) (rest : ∀ value, IsAtomic (next value)) :
    IsAtomic (first >>= next) := fun state after cause stopped => by
  rcases step : first.result state with ⟨outcome, mid⟩
  obtain rfl : mid = state := by simpa [step] using unchanged state
  cases outcome with
  | error _ =>
    rw [result_bind_error step] at stopped
    cases stopped
    rfl
  | ok value =>
    rw [result_bind step] at stopped
    exact rest value _ _ _ stopped

theorem inspect_bind (look : σ → Except Error α) {next : α → Change σ β}
    (rest : ∀ value, IsAtomic (next value)) : IsAtomic (inspect look >>= next) :=
  .look (fun state => by rw [result_inspect]) rest

theorem get_bind {next : σ → Change σ β} (rest : ∀ state, IsAtomic (next state)) :
    IsAtomic (get >>= next) := .look (fun _ => rfl) rest

theorem ofExcept_bind (outcome : Except Error α) {next : α → Change σ β}
    (rest : ∀ value, IsAtomic (next value)) : IsAtomic (ofExcept outcome >>= next) :=
  .look (fun state => by rw [result_ofExcept]) rest

theorem ofOutcome_bind (outcome : Except Failure α) {next : α → Change σ β}
    (rest : ∀ value, IsAtomic (next value)) : IsAtomic (ofOutcome outcome >>= next) :=
  .look (fun state => by rw [result_ofOutcome]) rest

/-- What comes after the first change never stops. -/
theorem bind_total {first : Change σ α} {next : α → Change σ β} (start : IsAtomic first)
    (total : ∀ value state, ((next value).result state).1.isOk = true) :
    IsAtomic (first >>= next) := fun state after cause stopped => by
  rcases step : first.result state with ⟨outcome, mid⟩
  cases outcome with
  | error _ =>
    rw [result_bind_error step] at stopped
    cases stopped
    exact start _ _ _ step
  | ok value =>
    have ok := total value mid
    rw [result_bind step] at stopped
    rw [stopped] at ok
    cases ok

end IsAtomic

/-! ## Changes that do not look at everything -/

/-- When part of the state is forgotten first, the change gives the same, and it leaves the same
state up to that part. -/
def Ignores (forget : σ → σ) (change : Change σ α) : Prop :=
  ∀ state, change.result (forget state) =
    ((change.result state).1, forget (change.result state).2)

namespace Ignores

variable {forget : σ → σ}

theorem pure (value : α) : Ignores forget (pure value : Change σ α) := fun _ => rfl

theorem ofExcept (outcome : Except Error α) : Ignores forget (ofExcept outcome) := fun state => by
  rw [result_ofExcept, result_ofExcept]

theorem ofOutcome (outcome : Except Failure α) : Ignores forget (ofOutcome outcome) :=
  fun state => by rw [result_ofOutcome, result_ofOutcome]

theorem modify {step : σ → σ} (commutes : ∀ state, step (forget state) = forget (step state)) :
    Ignores forget (modify step : Change σ PUnit) := fun state =>
  congrArg (Except.ok (), ·) (commutes state)

theorem inspect {look : σ → Except Error α} (blind : ∀ state, look (forget state) = look state) :
    Ignores forget (inspect look) := fun state => by
  rw [result_inspect, result_inspect, blind]

theorem bind {first : Change σ α} {next : α → Change σ β} (start : Ignores forget first)
    (rest : ∀ value, Ignores forget (next value)) : Ignores forget (first >>= next) := by
  intro state
  have same := start state
  rcases step : first.result state with ⟨outcome, after⟩
  rw [step] at same
  cases outcome with
  | error cause => rw [result_bind_error step, result_bind_error same]
  | ok value =>
    rw [result_bind step, result_bind same]
    exact rest value after

/-- What follows does not depend on the part of the state that is forgotten. -/
theorem get_bind {next : σ → Change σ β} (blind : ∀ state, next (forget state) = next state)
    (rest : ∀ state, Ignores forget (next state)) : Ignores forget (get >>= next) := by
  intro state
  rw [result_bind (result_get _), result_bind (result_get _), blind]
  exact rest state state

end Ignores

end Change

end ParallelLoop
