import LLDBGhidra.Library.Effect

/-
  Loops and parts of the state for computations that may
  throw, and what a computation ensures where it returns.

  Main declarations:
    * `Effect.onPart`
    * `Effect.foldWhile`
    * `Effect.Ensures`
    * `Effect.Ensures.foldWhile`
    * `Effect.Ensures.forEach`
    * `Effect.Yields`
-/

------------------------------------------------------------
-- Parts of the State and Loops
------------------------------------------------------------

namespace Effect

variable {ε σ τ α β γ : Type}

/- Run a computation on a part of a larger state. -/
def onPart
    (get : τ → σ)
    (set : σ → τ → τ)
    (effect : Effect ε σ α) : Effect ε τ α :=
  ⟨fun state =>
    ((effect.run (get state)).1,
      set (effect.run (get state)).2 state)⟩

/-
  As long as `next` has an item, go on from the result so far.
  The loop is cut off with `stuck` after a number of rounds.
-/
def foldWhile
    (stuck : ε)
    (next : Effect ε σ (Option β))
    (body : γ → β → Effect ε σ γ) :
    (rounds : Nat) → γ → Effect ε σ γ
  | 0, _ => throw stuck
  | rounds + 1, result => do
      let item? ← next
      match item? with
      | none => pure result
      | some item => do
          let result' ← body result item
          foldWhile stuck next body rounds result'

@[simp] theorem run_onPart
    (get : τ → σ)
    (set : σ → τ → τ)
    (effect : Effect ε σ α)
    (state : τ) :
    (onPart get set effect).run state =
      ((effect.run (get state)).1,
        set (effect.run (get state)).2 state) :=
  rfl

end Effect

------------------------------------------------------------
-- Partial Correctness
------------------------------------------------------------

namespace Effect

variable {ε σ τ α β γ : Type}
variable {pre : σ → Prop}
variable {post : α → σ → Prop}

/-
  From a state with `pre`, what the computation returns and
  the state it leaves behind satisfy `post`, if it returns.
-/
def Ensures
    (pre : σ → Prop)
    (effect : Effect ε σ α)
    (post : α → σ → Prop) : Prop :=
  ∀ state value state', pre state →
    effect.run state = (.ok value, state') →
      post value state'

namespace Ensures

theorem pure
    {value : α}
    (hPost : ∀ state, pre state → post value state) :
    Ensures pre (Pure.pure value : Effect ε σ α) post := by
  intro state result state' hPre hRun
  cases hRun
  exact hPost state hPre

theorem throw
    (error : ε) :
    Ensures pre (Effect.throw error : Effect ε σ α) post := by
  intro state result state' _ hRun
  cases hRun

theorem gets
    {read : σ → α}
    (hPost : ∀ state, pre state → post (read state) state) :
    Ensures pre (Effect.gets read : Effect ε σ α) post := by
  intro state result state' hPre hRun
  cases hRun
  exact hPost state hPre

theorem query
    {read : σ → Except ε α}
    (hPost : ∀ state value, pre state →
      read state = .ok value → post value state) :
    Ensures pre (Effect.query read : Effect ε σ α) post := by
  intro state result state' hPre hRun
  rw [run_query, Prod.mk.injEq] at hRun
  rcases hRun with ⟨hRead, hState⟩
  subst hState
  exact hPost state result hPre hRead

theorem modify
    {change : σ → σ}
    {post : Unit → σ → Prop}
    (hPost : ∀ state, pre state → post () (change state)) :
    Ensures pre (Effect.modify change : Effect ε σ Unit)
      post := by
  intro state result state' hPre hRun
  cases hRun
  exact hPost state hPre

theorem bind
    {first : Effect ε σ α}
    {next : α → Effect ε σ β}
    {mid : α → σ → Prop}
    {post : β → σ → Prop}
    (hFirst : Ensures pre first mid)
    (hNext : ∀ value, Ensures (mid value) (next value) post) :
    Ensures pre (first >>= next) post := by
  intro state result state' hPre hRun
  rw [run_bind] at hRun
  cases hResult : first.run state with
  | mk outcome between =>
      rw [hResult] at hRun
      cases outcome with
      | error error => cases hRun
      | ok value =>
          exact hNext value between result state'
            (hFirst state value between hPre hResult) hRun

theorem ite
    {condition : Prop}
    [Decidable condition]
    {whenTrue whenFalse : Effect ε σ α}
    (hTrue : condition → Ensures pre whenTrue post)
    (hFalse : ¬ condition → Ensures pre whenFalse post) :
    Ensures pre (if condition then whenTrue else whenFalse)
      post := by
  by_cases hCondition : condition
  · simpa [hCondition] using hTrue hCondition
  · simpa [hCondition] using hFalse hCondition

/- A stronger assumption and a weaker conclusion. -/
theorem mono
    {effect : Effect ε σ α}
    {pre' : σ → Prop}
    {post' : α → σ → Prop}
    (hEnsures : Ensures pre effect post)
    (hPre : ∀ state, pre' state → pre state)
    (hPost : ∀ value state, post value state →
      post' value state) :
    Ensures pre' effect post' := by
  intro state result state' hState hRun
  exact hPost result state'
    (hEnsures state result state' (hPre state hState) hRun)

/- What does not depend on the state can be assumed. -/
theorem assuming
    {effect : Effect ε σ α}
    {fact : Prop}
    (hEnsures : fact → Ensures pre effect post) :
    Ensures (fun state => fact ∧ pre state) effect post := by
  intro state result state' hState hRun
  exact hEnsures hState.1 state result state' hState.2 hRun

theorem of_exists
    {effect : Effect ε σ α}
    {pre : β → σ → Prop}
    (hEnsures : ∀ witness, Ensures (pre witness) effect post) :
    Ensures (fun state => ∃ witness, pre witness state) effect
      post := by
  intro state result state' hState hRun
  rcases hState with ⟨witness, hState⟩
  exact hEnsures witness state result state' hState hRun

/- Nothing follows a step that never returns. -/
theorem of_false
    {effect : Effect ε σ α} :
    Ensures (fun _ => False) effect post := by
  intro state result state' hFalse _
  exact hFalse.elim

/- What is read is what is there. -/
theorem gets_read
    (read : σ → α) :
    Ensures pre (Effect.gets read : Effect ε σ α)
      (fun value state => value = read state ∧ pre state) :=
  Ensures.gets (fun _ hPre => ⟨rfl, hPre⟩)

/- What survives any run is ensured by one that returns. -/
theorem of_keeps
    {effect : Effect ε σ α}
    (hKeeps : Keeps pre effect) :
    Ensures pre effect (fun _ => pre) := by
  intro state result state' hPre hRun
  have hKept := hKeeps state hPre
  rw [hRun] at hKept
  exact hKept

/- On a part, whatever the rest of the state is. -/
theorem onPart
    {get : τ → σ}
    {set : σ → τ → τ}
    {effect : Effect ε σ α}
    {pre : τ → Prop}
    {post : α → τ → Prop}
    (hPart : ∀ state, pre state →
      Ensures (fun part => part = get state) effect
        (fun value part => post value (set part state))) :
    Ensures pre (Effect.onPart get set effect) post := by
  intro state result state' hPre hRun
  rw [run_onPart, Prod.mk.injEq] at hRun
  rcases hRun with ⟨hResult, hState⟩
  rw [← hState]
  exact hPart state hPre (get state) result
    (effect.run (get state)).2 rfl (Prod.ext hResult rfl)

/-
  The invariant `inv` of a loop: an item of `next` leads from
  it to `mid`, which the body leads back from.
-/
theorem foldWhile
    {stuck : ε}
    {next : Effect ε σ (Option β)}
    {body : γ → β → Effect ε σ γ}
    {inv : γ → σ → Prop}
    {mid : γ → β → σ → Prop}
    {post : γ → σ → Prop}
    (hNext : ∀ result,
      Ensures (inv result) next (fun item? state =>
        (item? = none → post result state) ∧
          ∀ item, item? = some item → mid result item state))
    (hBody : ∀ result item,
      Ensures (mid result item) (body result item) inv)
    (rounds : Nat)
    (result : γ) :
    Ensures (inv result)
      (Effect.foldWhile stuck next body rounds result) post := by
  induction rounds generalizing result with
  | zero => exact Ensures.throw stuck
  | succ rounds ih =>
      unfold Effect.foldWhile
      refine Ensures.bind (hNext result) ?_
      intro item?
      cases item? with
      | none => exact Ensures.pure (fun _ hPost => hPost.1 rfl)
      | some item =>
          exact Ensures.bind
            ((hBody result item).mono
              (fun _ hMid => hMid.2 item rfl)
              (fun _ _ hInv => hInv))
            ih

/-
  The invariant `inv` of a loop over a list is one of the items
  that are left.
-/
theorem forEach
    {body : α → Effect ε σ Unit}
    {inv : List α → σ → Prop}
    (hBody : ∀ item rest,
      Ensures (inv (item :: rest)) (body item)
        (fun _ => inv rest))
    (items : List α) :
    Ensures (inv items) (Effect.forEach items body)
      (fun _ => inv []) := by
  induction items with
  | nil => exact Ensures.pure (fun _ hInv => hInv)
  | cons item rest ih =>
      unfold Effect.forEach
      exact Ensures.bind (hBody item rest) (fun _ => ih)

end Ensures

end Effect

------------------------------------------------------------
-- Results That Do Not Depend on the State
------------------------------------------------------------

namespace Effect

variable {ε σ α β : Type}

/- From any state, the computation has the same result. -/
def Yields
    (effect : Effect ε σ α)
    (outcome : Except ε α) : Prop :=
  ∀ state, (effect.run state).1 = outcome

namespace Yields

theorem pure
    (value : α) :
    Yields (Pure.pure value : Effect ε σ α) (.ok value) :=
  fun _ => rfl

theorem modify
    (change : σ → σ) :
    Yields (Effect.modify change : Effect ε σ Unit) (.ok ()) :=
  fun _ => rfl

/- What is read is no part of the state. -/
theorem query
    (outcome : Except ε α) :
    Yields (Effect.query (fun _ => outcome) : Effect ε σ α)
      outcome :=
  fun _ => rfl

theorem bind
    {first : Effect ε σ α}
    {next : α → Effect ε σ β}
    {outcome : Except ε α}
    {rest : α → Except ε β}
    (hFirst : Yields first outcome)
    (hNext : ∀ value, Yields (next value) (rest value)) :
    Yields (first >>= next) (outcome >>= rest) := by
  intro state
  rw [run_bind, ← hFirst state]
  cases hResult : first.run state with
  | mk result between =>
      cases result with
      | error error => rfl
      | ok value => exact hNext value between

/- A first step that does not throw. -/
theorem bind_ok
    {first : Effect ε σ α}
    {next : α → Effect ε σ β}
    {value : α}
    {outcome : Except ε β}
    (hFirst : Yields first (.ok value))
    (hNext : Yields (next value) outcome) :
    Yields (first >>= next) outcome := by
  intro state
  have hValue := hFirst state
  rw [run_bind]
  cases hResult : first.run state with
  | mk result between =>
      rw [hResult] at hValue
      change result = .ok value at hValue
      subst hValue
      exact hNext between

theorem forEach
    {items : List α}
    {body : α → Effect ε σ Unit}
    (hBody : ∀ item, Yields (body item) (.ok ())) :
    Yields (Effect.forEach items body) (.ok ()) := by
  induction items with
  | nil => exact Yields.pure ()
  | cons item rest ih =>
      unfold Effect.forEach
      exact Yields.bind_ok (hBody item) ih

end Yields

end Effect

------------------------------------------------------------
-- Results That May Be Errors
------------------------------------------------------------

namespace Effect

variable {ε ε' α β : Type}

theorem ok_of_mapError_eq_ok
    {change : ε → ε'}
    {outcome : Except ε α}
    {value : α}
    (hOutcome : outcome.mapError change = .ok value) :
    outcome = .ok value := by
  cases outcome with
  | error error => cases hOutcome
  | ok other =>
      cases hOutcome
      rfl

/- Two steps succeed one after the other, or not at all. -/
theorem exists_ok_of_bind_eq_ok
    {first : Except ε α}
    {next : α → Except ε β}
    {result : β}
    (hBind : first >>= next = .ok result) :
    ∃ value, first = .ok value ∧ next value = .ok result := by
  cases first with
  | error error => cases hBind
  | ok value => exact ⟨value, rfl, hBind⟩

theorem foldlM_concat
    {step : β → α → Except ε β}
    {items : List α}
    {item : α}
    {start result result' : β}
    (hItems : items.foldlM step start = .ok result)
    (hItem : step result item = .ok result') :
    (items ++ [item]).foldlM step start = .ok result' := by
  rw [List.foldlM_append, hItems]
  change [item].foldlM step result = .ok result'
  rw [List.foldlM_cons, hItem]
  rfl

end Effect
