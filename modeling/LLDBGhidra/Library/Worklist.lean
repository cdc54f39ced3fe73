import Mathlib.Algebra.BigOperators.Group.Finset.Basic
import Mathlib.Algebra.Order.BigOperators.Group.Finset

/-
  Steps that are repeated until there is none, and solving
  equations between the values of keys with a worklist: when
  the value of a key changes, the nodes that read it are
  looked at again.

  Main declarations:
    * `Repeat.run`
    * `Repeat.run_total`
    * `Worklist.Equations`
    * `Worklist.step`
    * `Worklist.Tracked`
    * `Worklist.Ascent`
    * `Worklist.run_total`
-/

------------------------------------------------------------
-- Repeated Steps
------------------------------------------------------------

namespace Repeat

variable {State : Type}
variable {step : State → Option State}
variable {state final : State}
variable {fuel : Nat}

/- No state is found where the fuel runs out. -/
def run
    (step : State → Option State) :
    (fuel : Nat) → State → Option State
  | 0, _ => none
  | fuel + 1, state =>
      match step state with
      | none => some state
      | some next => run step fuel next

/- With a measure that decreases, the fuel suffices. -/
theorem run_total
    {Keeps : State → Prop}
    (measure : State → Nat)
    (hStep : ∀ state next, Keeps state →
      step state = some next →
        Keeps next ∧ measure next < measure state)
    (hState : Keeps state)
    (hFuel : measure state < fuel) :
    ∃ final, run step fuel state = some final ∧
      Keeps final ∧ step final = none := by
  induction fuel generalizing state with
  | zero => omega
  | succ fuel ih =>
      rw [run]
      cases hNext : step state with
      | none => exact ⟨state, rfl, hState, hNext⟩
      | some next =>
          have hBoth := hStep state next hState hNext
          exact ih hBoth.1 (by omega)

/- More fuel makes no difference. -/
theorem run_more
    {more : Nat}
    (hRun : run step fuel state = some final)
    (hMore : fuel ≤ more) :
    run step more state = some final := by
  induction fuel generalizing state more with
  | zero => cases hRun
  | succ fuel ih =>
      cases more with
      | zero => omega
      | succ more =>
          rw [run] at hRun ⊢
          cases hNext : step state with
          | none =>
              rw [hNext] at hRun
              exact hRun
          | some next =>
              rw [hNext] at hRun
              exact ih hRun (by omega)

/- Steps that lead to further steps do not come to an end. -/
theorem run_eq_none
    {Spins : State → Prop}
    (hStep : ∀ state, Spins state →
      ∃ next, step state = some next ∧ Spins next)
    (hState : Spins state)
    (fuel : Nat) :
    run step fuel state = none := by
  induction fuel generalizing state with
  | zero => rfl
  | succ fuel ih =>
      rcases hStep state hState with ⟨next, hNext, hSpins⟩
      rw [run, hNext]
      exact ih hSpins

end Repeat

------------------------------------------------------------
-- Equations and Their Worklist
------------------------------------------------------------

namespace Worklist

/-
  Each node has a value, which depends on those of the keys it
  reads, and may have a key that is to have this value.
-/
structure Equations (Key Node Value : Type) where
  target : Node → Option Key
  value : (Key → Value) → Node → Value
  readers : Key → List Node

variable {Key Node Value : Type}
variable [DecidableEq Key]
variable [DecidableEq Value]

/- Nodes are put on the end of the list and taken from it. -/
def step
    (equations : Equations Key Node Value)
    (state : (Key → Value) × List Node) :
    Option ((Key → Value) × List Node) :=
  match state with
  | (_, []) => none
  | (store, node :: rest) =>
      match equations.target node with
      | none => some (store, rest)
      | some key =>
          if equations.value store node = store key then
            some (store, rest)
          else
            some
              (Function.update store key
                  (equations.value store node),
                (equations.readers key).reverse ++ rest)

variable {equations : Equations Key Node Value}
variable {store : Key → Value}
variable {node : Node}
variable {rest work : List Node}

/- The key of the node, if any, has the value of the node. -/
def Settled
    (equations : Equations Key Node Value)
    (store : Key → Value)
    (node : Node) : Prop :=
  ∀ key, equations.target node = some key →
    equations.value store node = store key

/- A step finds its node settled, or changes one key. -/
theorem step_cases
    {next : (Key → Value) × List Node}
    (hStep : step equations (store, work) = some next) :
    ∃ node rest, work = node :: rest ∧
      (Settled equations store node ∧ next = (store, rest) ∨
        ∃ key, equations.target node = some key ∧
          equations.value store node ≠ store key ∧
          next =
            (Function.update store key
                (equations.value store node),
              (equations.readers key).reverse ++ rest)) := by
  cases work with
  | nil => cases hStep
  | cons node rest =>
      refine ⟨node, rest, rfl, ?_⟩
      rw [step] at hStep
      cases hTarget : equations.target node with
      | none =>
          simp only [hTarget] at hStep
          refine Or.inl ⟨?_, (Option.some.inj hStep).symm⟩
          intro key hKey
          rw [hTarget] at hKey
          cases hKey
      | some key =>
          simp only [hTarget] at hStep
          by_cases hSame :
              equations.value store node = store key
          · rw [if_pos hSame] at hStep
            refine Or.inl ⟨?_, (Option.some.inj hStep).symm⟩
            intro other hOther
            rw [hTarget] at hOther
            rw [← Option.some.inj hOther]
            exact hSame
          · rw [if_neg hSame] at hStep
            exact Or.inr ⟨key, rfl, hSame,
              (Option.some.inj hStep).symm⟩

/-
  The nodes that read a key are on its list, all nodes that
  are looked at are known, and each key has one node.
-/
structure Tracked
    (equations : Equations Key Node Value)
    (nodes : Node → Prop) : Prop where
  known : ∀ node key, nodes node →
    equations.target node = some key →
      ∀ reader ∈ equations.readers key, nodes reader
  single : ∀ left right key, nodes left → nodes right →
    equations.target left = some key →
      equations.target right = some key → left = right
  reads : ∀ store node key value, nodes node →
    node ∉ equations.readers key →
      equations.value (Function.update store key value) node =
        equations.value store node

/- Every node is settled or still on the list. -/
structure Pending
    (equations : Equations Key Node Value)
    (nodes : Node → Prop)
    (store : Key → Value)
    (work : List Node) : Prop where
  known : ∀ node ∈ work, nodes node
  settled : ∀ node, nodes node →
    Settled equations store node ∨ node ∈ work

namespace Pending

variable {nodes : Node → Prop}

/- A change puts all nodes on the list that it unsettles. -/
theorem step
    {next : (Key → Value) × List Node}
    (hTracked : Tracked equations nodes)
    (hPending : Pending equations nodes store work)
    (hStep : Worklist.step equations (store, work) =
      some next) :
    Pending equations nodes next.1 next.2 := by
  rcases step_cases hStep with
    ⟨node, rest, hWork, hSettled | hChanged⟩
  · rcases hSettled with ⟨hSettled, hNext⟩
    rw [hWork] at hPending
    rw [hNext]
    refine ⟨?_, ?_⟩
    · intro other hOther
      exact hPending.known other
        (List.mem_cons_of_mem node hOther)
    · intro other hNode
      rcases hPending.settled other hNode with hDone | hIn
      · exact Or.inl hDone
      · rcases List.mem_cons.mp hIn with hEq | hRest
        · rw [hEq]
          exact Or.inl hSettled
        · exact Or.inr hRest
  · rcases hChanged with ⟨key, hTarget, _, hNext⟩
    rw [hWork] at hPending
    have hHead := hPending.known node List.mem_cons_self
    rw [hNext]
    refine ⟨?_, ?_⟩
    · intro other hOther
      rcases List.mem_append.mp hOther with hReader | hRest
      · exact hTracked.known node key hHead hTarget other
          (List.mem_reverse.mp hReader)
      · exact hPending.known other
          (List.mem_cons_of_mem node hRest)
    · intro other hNode
      by_cases hReader : other ∈ equations.readers key
      · exact Or.inr (List.mem_append_left rest
          (List.mem_reverse.mpr hReader))
      have hValue := hTracked.reads store other key
        (equations.value store node) hNode hReader
      by_cases hEq : other = node
      · -- the node has given the key its own value
        refine Or.inl ?_
        intro own hOwn
        rw [hEq] at hValue hOwn ⊢
        rw [hTarget] at hOwn
        rw [← Option.some.inj hOwn]
        simp only [Function.update_self]
        exact hValue
      · rcases hPending.settled other hNode with hDone | hIn
        · refine Or.inl ?_
          intro own hOwn
          have hNe : own ≠ key := by
            intro hSame
            rw [hSame] at hOwn
            exact hEq (hTracked.single other node key hNode
              hHead hOwn hTarget)
          simp only [Function.update_of_ne hNe]
          exact hValue.trans (hDone own hOwn)
        · rcases List.mem_cons.mp hIn with hSame | hRest
          · exact absurd hSame hEq
          · exact Or.inr (List.mem_append_right _ hRest)

end Pending

end Worklist

------------------------------------------------------------
-- Values that Only Grow
------------------------------------------------------------

namespace Worklist

variable {Key Node Value : Type}
variable [DecidableEq Key]
variable {equations : Equations Key Node Value}
variable {nodes : Node → Prop}

/-
  Within a region of stores, larger values of the keys give
  the nodes larger values, and values have heights.
-/
structure Ascent
    (equations : Equations Key Node Value)
    (nodes : Node → Prop)
    (below : Value → Value → Prop)
    (region : (Key → Value) → Prop)
    (height : Value → Nat)
    (top : Nat) : Prop where
  refl : ∀ value, below value value
  trans : ∀ low middle high, below low middle →
    below middle high → below low high
  higher : ∀ low high, below low high → low ≠ high →
    height low < height high
  bounded : ∀ value, height value ≤ top
  keeps : ∀ store node key, region store → nodes node →
    equations.target node = some key →
      below (store key) (equations.value store node) →
        region (Function.update store key
          (equations.value store node))
  monotone : ∀ store larger node key, region store →
    region larger → nodes node →
      equations.target node = some key →
      (∀ key, below (store key) (larger key)) →
        below (equations.value store node)
          (equations.value larger node)

/- No key is above the value of its node. -/
structure Rising
    (equations : Equations Key Node Value)
    (nodes : Node → Prop)
    (below : Value → Value → Prop)
    (region : (Key → Value) → Prop)
    (store : Key → Value) : Prop where
  region : region store
  rising : ∀ node key, nodes node →
    equations.target node = some key →
      below (store key) (equations.value store node)

/- How far the keys may still grow, and the list. -/
def potential
    (height : Value → Nat)
    (top degree : Nat)
    (keys : Finset Key)
    (store : Key → Value)
    (work : List Node) : Nat :=
  (∑ key ∈ keys, (top - height (store key))) *
      (degree + 1) +
    work.length

variable {below : Value → Value → Prop}
variable {region : (Key → Value) → Prop}
variable {height : Value → Nat}
variable {top degree : Nat}
variable {keys : Finset Key}

namespace Rising

variable {store : Key → Value}
variable {node : Node}
variable {key : Key}

/- The change of a key lets all keys grow. -/
theorem le_update
    (hAscent :
      Ascent equations nodes below region height top)
    (hRising : Rising equations nodes below region store)
    (hNode : nodes node)
    (hTarget : equations.target node = some key) :
    ∀ other, below (store other)
      (Function.update store key
        (equations.value store node) other) := by
  intro other
  by_cases hEq : other = key
  · rw [hEq, Function.update_self]
    exact hRising.rising node key hNode hTarget
  · rw [Function.update_of_ne hEq]
    exact hAscent.refl _

theorem update
    (hTracked : Tracked equations nodes)
    (hAscent :
      Ascent equations nodes below region height top)
    (hRising : Rising equations nodes below region store)
    (hNode : nodes node)
    (hTarget : equations.target node = some key) :
    Rising equations nodes below region
      (Function.update store key
        (equations.value store node)) := by
  have hLe := le_update hAscent hRising hNode hTarget
  have hRegion := hAscent.keeps store node key hRising.region
    hNode hTarget (hRising.rising node key hNode hTarget)
  refine ⟨hRegion, ?_⟩
  intro other key' hOther hKey'
  have hGrown := hAscent.monotone store _ other key'
    hRising.region hRegion hOther hKey' hLe
  by_cases hEq : key' = key
  · rw [hEq] at hKey' ⊢
    rw [Function.update_self]
    rw [hTracked.single other node key hOther hNode hKey'
      hTarget] at hGrown ⊢
    exact hGrown
  · rw [Function.update_of_ne hEq]
    exact hAscent.trans _ _ _
      (hRising.rising other key' hOther hKey') hGrown

end Rising

/- A key that has grown has less room above it. -/
theorem sum_update_lt
    {store : Key → Value}
    {key : Key}
    {value : Value}
    (hKey : key ∈ keys)
    (hHigher : height (store key) < height value)
    (hTop : height value ≤ top) :
    (∑ other ∈ keys,
        (top - height (Function.update store key value
          other))) <
      ∑ other ∈ keys, (top - height (store other)) := by
  apply Finset.sum_lt_sum
  · intro other _
    by_cases hEq : other = key
    · rw [hEq, Function.update_self]
      omega
    · rw [Function.update_of_ne hEq]
  · refine ⟨key, hKey, ?_⟩
    rw [Function.update_self]
    omega

variable [DecidableEq Value]

/- Each step keeps what is known and uses up the potential. -/
theorem step_decreases
    {store : Key → Value}
    {work : List Node}
    {next : (Key → Value) × List Node}
    (hTracked : Tracked equations nodes)
    (hAscent :
      Ascent equations nodes below region height top)
    (hKeys : ∀ node key, nodes node →
      equations.target node = some key →
        key ∈ keys ∧ (equations.readers key).length ≤ degree)
    (hKnown : ∀ node ∈ work, nodes node)
    (hRising : Rising equations nodes below region store)
    (hStep : step equations (store, work) = some next) :
    Rising equations nodes below region next.1 ∧
      (∀ key, below (store key) (next.1 key)) ∧
      potential height top degree keys next.1 next.2 <
        potential height top degree keys store work := by
  rcases step_cases hStep with
    ⟨node, rest, hWork, hSettled | hChanged⟩
  · rw [hSettled.2]
    refine ⟨hRising, fun key => hAscent.refl _, ?_⟩
    simp only [potential, hWork, List.length_cons]
    omega
  · rcases hChanged with ⟨key, hTarget, hNe, hNext⟩
    rw [hWork] at hKnown
    have hNode := hKnown node List.mem_cons_self
    have hBelow := hRising.rising node key hNode hTarget
    have hSum := @sum_update_lt _ _ _ height top keys store key
      (equations.value store node)
      (hKeys node key hNode hTarget).1
      (hAscent.higher _ _ hBelow hNe.symm)
      (hAscent.bounded _)
    have hDegree := (hKeys node key hNode hTarget).2
    rw [hNext]
    refine ⟨hRising.update hTracked hAscent hNode hTarget,
      Rising.le_update hAscent hRising hNode hTarget, ?_⟩
    have hRoom := Nat.mul_le_mul_right (degree + 1) hSum
    rw [Nat.succ_mul] at hRoom
    simp only [potential, List.length_append,
      List.length_reverse, hWork, List.length_cons]
    omega

/-
  The worklist runs empty, all nodes are settled then, and no
  key has become smaller.
-/
theorem run_total
    {store : Key → Value}
    {work : List Node}
    {fuel : Nat}
    (hTracked : Tracked equations nodes)
    (hAscent :
      Ascent equations nodes below region height top)
    (hKeys : ∀ node key, nodes node →
      equations.target node = some key →
        key ∈ keys ∧ (equations.readers key).length ≤ degree)
    (hPending : Pending equations nodes store work)
    (hRising : Rising equations nodes below region store)
    (hFuel :
      potential height top degree keys store work < fuel) :
    ∃ final, Repeat.run (step equations) fuel (store, work) =
        some (final, []) ∧
      Rising equations nodes below region final ∧
      (∀ key, below (store key) (final key)) ∧
      ∀ node, nodes node → Settled equations final node := by
  have hTotal := @Repeat.run_total _ (step equations)
    (store, work) fuel
    (fun state => Pending equations nodes state.1 state.2 ∧
      Rising equations nodes below region state.1 ∧
      ∀ key, below (store key) (state.1 key))
    (fun state =>
      potential height top degree keys state.1 state.2)
    (by
      intro state next hState hStep
      rcases hState with ⟨hPending, hRising, hAbove⟩
      have hNext := step_decreases hTracked hAscent hKeys
        hPending.known hRising hStep
      refine ⟨⟨hPending.step hTracked hStep, hNext.1, ?_⟩,
        hNext.2.2⟩
      intro key
      exact hAscent.trans _ _ _ (hAbove key) (hNext.2.1 key))
    ⟨hPending, hRising, fun key => hAscent.refl _⟩ hFuel
  rcases hTotal with
    ⟨⟨final, left⟩, hRun, ⟨hPending, hRising, hAbove⟩, hNone⟩
  cases left with
  | cons node rest =>
      rw [step] at hNone
      split at hNone
      · cases hNone
      · split at hNone <;> cases hNone
  | nil =>
      refine ⟨final, hRun, hRising, hAbove, ?_⟩
      intro node hNode
      rcases hPending.settled node hNode with hDone | hIn
      · exact hDone
      · cases hIn

end Worklist
