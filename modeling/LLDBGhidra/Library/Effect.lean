import Mathlib.Order.Basic

/-
  Computations over a state that may throw.  The state is kept
  when they do, as for code that mutates objects in place.

  Two program logics come with them: an invariant kept by a
  computation, and two computations that run in lockstep.

  Main declarations:
    * `Effect`
    * `Effect.Keeps`
    * `Effect.Lockstep`
-/

------------------------------------------------------------
-- Computations
------------------------------------------------------------

/- From a state to a result or an error, and a new state. -/
structure Effect (ε σ α : Type) where
  run : σ → Except ε α × σ

namespace Effect

variable {ε σ α β : Type}

instance : Monad (Effect ε σ) where
  pure value := ⟨fun state => (.ok value, state)⟩
  bind first next := ⟨fun state =>
    match first.run state with
    | (.ok value, state') => (next value).run state'
    | (.error error, state') => (.error error, state')⟩

/- Throw an error. -/
def throw
    (error : ε) : Effect ε σ α :=
  ⟨fun state => (.error error, state)⟩

/- Read a part of the state. -/
def gets
    (read : σ → α) : Effect ε σ α :=
  ⟨fun state => (.ok (read state), state)⟩

/- Read a part of the state that may be in error. -/
def query
    (read : σ → Except ε α) : Effect ε σ α :=
  ⟨fun state => (read state, state)⟩

/- Change the state. -/
def modify
    (change : σ → σ) : Effect ε σ Unit :=
  ⟨fun state => (.ok (), change state)⟩

/- Handle the errors that the handler is made for. -/
def handle
    (body : Effect ε σ α)
    (handler : ε → Option (Effect ε σ α)) : Effect ε σ α :=
  ⟨fun state =>
    match body.run state with
    | (.ok value, state') => (.ok value, state')
    | (.error error, state') =>
        match handler error with
        | none => (.error error, state')
        | some recovery => recovery.run state'⟩

/- Do the same for each item of a list. -/
def forEach
    (items : List α)
    (body : α → Effect ε σ Unit) : Effect ε σ Unit :=
  match items with
  | [] => pure ()
  | item :: rest => do
      body item
      forEach rest body

@[simp] theorem run_pure
    (value : α)
    (state : σ) :
    (pure value : Effect ε σ α).run state =
      (.ok value, state) :=
  rfl

@[simp] theorem run_throw
    (error : ε)
    (state : σ) :
    (throw error : Effect ε σ α).run state =
      (.error error, state) :=
  rfl

@[simp] theorem run_gets
    (read : σ → α)
    (state : σ) :
    (gets read : Effect ε σ α).run state =
      (.ok (read state), state) :=
  rfl

@[simp] theorem run_query
    (read : σ → Except ε α)
    (state : σ) :
    (query read : Effect ε σ α).run state =
      (read state, state) :=
  rfl

@[simp] theorem run_modify
    (change : σ → σ)
    (state : σ) :
    (modify change : Effect ε σ Unit).run state =
      (.ok (), change state) :=
  rfl

theorem run_bind
    (first : Effect ε σ α)
    (next : α → Effect ε σ β)
    (state : σ) :
    (first >>= next).run state =
      match first.run state with
      | (.ok value, state') => (next value).run state'
      | (.error error, state') => (.error error, state') :=
  rfl

theorem run_bind_of_ok
    {first : Effect ε σ α}
    {next : α → Effect ε σ β}
    {state state' : σ}
    {value : α}
    (hFirst : first.run state = (.ok value, state')) :
    (first >>= next).run state = (next value).run state' := by
  rw [run_bind, hFirst]

@[simp] theorem run_gets_bind
    (read : σ → α)
    (next : α → Effect ε σ β)
    (state : σ) :
    (gets read >>= next).run state =
      (next (read state)).run state :=
  rfl

@[simp] theorem run_modify_bind
    (change : σ → σ)
    (next : Unit → Effect ε σ β)
    (state : σ) :
    (modify change >>= next).run state =
      (next ()).run (change state) :=
  rfl

@[simp] theorem run_pure_bind
    (value : α)
    (next : α → Effect ε σ β)
    (state : σ) :
    ((pure value : Effect ε σ α) >>= next).run state =
      (next value).run state :=
  rfl

@[simp] theorem run_throw_bind
    (error : ε)
    (next : α → Effect ε σ β)
    (state : σ) :
    ((throw error : Effect ε σ α) >>= next).run state =
      (.error error, state) :=
  rfl

/- An outcome that does not depend on the state. -/
theorem run_query_bind_of_ok
    {outcome : Except ε α}
    {next : α → Effect ε σ β}
    {value : α}
    (hOutcome : outcome = .ok value)
    (state : σ) :
    (query (fun _ => outcome) >>= next).run state =
      (next value).run state := by
  rw [run_bind, run_query, hOutcome]

theorem run_query_bind_of_error
    {outcome : Except ε α}
    {next : α → Effect ε σ β}
    {error : ε}
    (hOutcome : outcome = .error error)
    (state : σ) :
    (query (fun _ => outcome) >>= next).run state =
      (.error error, state) := by
  rw [run_bind, run_query, hOutcome]

theorem run_handle_of_ok
    {body : Effect ε σ α}
    {handler : ε → Option (Effect ε σ α)}
    {state state' : σ}
    {value : α}
    (hBody : body.run state = (.ok value, state')) :
    (handle body handler).run state = (.ok value, state') := by
  unfold handle
  simp only [hBody]

theorem run_handle_of_error
    {body : Effect ε σ α}
    {handler : ε → Option (Effect ε σ α)}
    {state state' : σ}
    {error : ε}
    (hBody : body.run state = (.error error, state')) :
    (handle body handler).run state =
      match handler error with
      | none => (.error error, state')
      | some recovery => recovery.run state' := by
  unfold handle
  simp only [hBody]

theorem run_ite
    (condition : Prop)
    [Decidable condition]
    (whenTrue whenFalse : Effect ε σ α)
    (state : σ) :
    (if condition then whenTrue else whenFalse).run state =
      if condition then whenTrue.run state
      else whenFalse.run state := by
  by_cases hCondition : condition
  · simp [hCondition]
  · simp [hCondition]

end Effect

------------------------------------------------------------
-- Invariants
------------------------------------------------------------

namespace Effect

variable {ε σ α β : Type}
variable {inv : σ → Prop}

/- The invariant survives, whether the computation throws. -/
def Keeps
    (inv : σ → Prop)
    (effect : Effect ε σ α) : Prop :=
  ∀ state, inv state → inv (effect.run state).2

namespace Keeps

theorem pure
    (value : α) :
    Keeps inv (Pure.pure value : Effect ε σ α) :=
  fun _ hInv => hInv

theorem gets
    (read : σ → α) :
    Keeps inv (Effect.gets read : Effect ε σ α) :=
  fun _ hInv => hInv

theorem query
    (read : σ → Except ε α) :
    Keeps inv (Effect.query read : Effect ε σ α) :=
  fun _ hInv => hInv

theorem modify
    {change : σ → σ}
    (hChange : ∀ state, inv state → inv (change state)) :
    Keeps inv (Effect.modify change : Effect ε σ Unit) :=
  hChange

theorem bind
    {first : Effect ε σ α}
    {next : α → Effect ε σ β}
    (hFirst : Keeps inv first)
    (hNext : ∀ value, Keeps inv (next value)) :
    Keeps inv (first >>= next) := by
  intro state hInv
  have hState := hFirst state hInv
  rw [run_bind]
  cases hResult : first.run state with
  | mk result state' =>
      rw [hResult] at hState
      cases result with
      | ok value => exact hNext value state' hState
      | error error => exact hState

theorem forEach
    {items : List α}
    {body : α → Effect ε σ Unit}
    (hBody : ∀ item ∈ items, Keeps inv (body item)) :
    Keeps inv (Effect.forEach items body) := by
  induction items with
  | nil => exact Keeps.pure ()
  | cons item rest ih =>
      unfold Effect.forEach
      apply Keeps.bind (hBody item List.mem_cons_self)
      intro _
      exact ih (fun other hOther =>
        hBody other (List.mem_cons_of_mem _ hOther))

end Keeps

end Effect

------------------------------------------------------------
-- Lockstep
------------------------------------------------------------

namespace Effect

variable {ε σ τ α β : Type}
variable {rel : σ → τ → Prop}

/- Equal results from related states, which stay related. -/
def Lockstep
    (rel : σ → τ → Prop)
    (left : Effect ε σ α)
    (right : Effect ε τ α) : Prop :=
  ∀ state state', rel state state' →
    (left.run state).1 = (right.run state').1 ∧
      rel (left.run state).2 (right.run state').2

namespace Lockstep

theorem pure
    (value : α) :
    Lockstep rel (Pure.pure value : Effect ε σ α)
      (Pure.pure value : Effect ε τ α) :=
  fun _ _ hRel => ⟨rfl, hRel⟩

theorem throw
    (error : ε) :
    Lockstep rel (Effect.throw error : Effect ε σ α)
      (Effect.throw error : Effect ε τ α) :=
  fun _ _ hRel => ⟨rfl, hRel⟩

theorem gets
    {read : σ → α}
    {read' : τ → α}
    (hRead :
      ∀ state state', rel state state' →
        read state = read' state') :
    Lockstep rel (Effect.gets read : Effect ε σ α)
      (Effect.gets read' : Effect ε τ α) := by
  intro state state' hRel
  exact ⟨congrArg Except.ok (hRead state state' hRel), hRel⟩

theorem modify
    {change : σ → σ}
    {change' : τ → τ}
    (hChange :
      ∀ state state', rel state state' →
        rel (change state) (change' state')) :
    Lockstep rel (Effect.modify change : Effect ε σ Unit)
      (Effect.modify change' : Effect ε τ Unit) :=
  fun state state' hRel =>
    ⟨rfl, hChange state state' hRel⟩

theorem bind
    {first : Effect ε σ α}
    {first' : Effect ε τ α}
    {next : α → Effect ε σ β}
    {next' : α → Effect ε τ β}
    (hFirst : Lockstep rel first first')
    (hNext : ∀ value, Lockstep rel (next value) (next' value)) :
    Lockstep rel (first >>= next) (first' >>= next') := by
  intro state state' hRel
  have hStep := hFirst state state' hRel
  rw [run_bind, run_bind]
  cases hLeft : first.run state with
  | mk result after =>
      cases hRight : first'.run state' with
      | mk result' after' =>
          rw [hLeft, hRight] at hStep
          rcases hStep with ⟨hResult, hAfter⟩
          change result = result' at hResult
          subst hResult
          cases result with
          | ok value => exact hNext value after after' hAfter
          | error error => exact ⟨rfl, hAfter⟩

theorem ite
    {condition : Prop}
    [Decidable condition]
    {left other : Effect ε σ α}
    {left' other' : Effect ε τ α}
    (hTrue : condition → Lockstep rel left left')
    (hFalse : ¬ condition → Lockstep rel other other') :
    Lockstep rel (if condition then left else other)
      (if condition then left' else other') := by
  by_cases hCondition : condition
  · simpa [hCondition] using hTrue hCondition
  · simpa [hCondition] using hFalse hCondition

end Lockstep

end Effect
