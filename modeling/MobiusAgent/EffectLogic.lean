import Mathlib.Init

/-!
# Computations with state and failure, and rules for them

A computation runs from a state and either returns a value, fails with an
error, or halts because it is given no more steps. A caller may handle a
failure; nothing handles a halt. `Spec` is the triple of such a computation:
what holds before, what holds of the value and the state when it returns, and
what holds when it stops. The rules follow the ways computations are built.
-/

namespace MobiusAgent.EffectLogic

/-- Why a computation did not return. -/
inductive Stop (ε : Type) where
  /-- It failed with an error that a caller may handle. -/
  | failed (error : ε)
  /-- It was given no more steps. -/
  | halted

/-- A computation over a state. -/
def Proc (σ ε α : Type) : Type := σ → Except (Stop ε) α × σ

namespace Proc

variable {σ ε α β γ : Type}

def ret (value : α) : Proc σ ε α := fun state => (.ok value, state)

/-- One computation after another. -/
def andThen (first : Proc σ ε α) (second : α → Proc σ ε β) : Proc σ ε β := fun state =>
  match first state with
  | (.ok value, next) => second value next
  | (.error stop, next) => (.error stop, next)

/-- Computations are sequenced. -/
instance : Monad (Proc σ ε) where
  pure := ret
  bind := andThen

def get : Proc σ ε σ := fun state => (.ok state, state)

def modify (change : σ → σ) : Proc σ ε Unit := fun state => (.ok (), change state)

def fail (error : ε) : Proc σ ε α := fun state => (.error (.failed error), state)

def halt : Proc σ ε α := fun state => (.error .halted, state)

/-- Return a value or fail. -/
def ofExcept : Except ε α → Proc σ ε α
  | .ok value => ret value
  | .error error => fail error

/-- Run a computation and return its failure, if it fails. -/
def attempt (body : Proc σ ε α) : Proc σ ε (Except ε α) := fun state =>
  match body state with
  | (.ok value, next) => (.ok (.ok value), next)
  | (.error (.failed error), next) => (.ok (.error error), next)
  | (.error .halted, next) => (.error .halted, next)

/-- Run a computation and, if it fails, undo its changes before the failure goes on. -/
def restoring (body : Proc σ ε α) (undo : σ → σ) : Proc σ ε α := fun state =>
  match body state with
  | (.ok value, next) => (.ok value, next)
  | (.error (.failed error), next) => (.error (.failed error), undo next)
  | (.error .halted, next) => (.error .halted, next)

/-- Repeat a body that returns its next input or a final value. -/
def iterate (body : β → Proc σ ε (β ⊕ α)) : Nat → β → Proc σ ε α
  | 0, _ => halt
  | fuel + 1, input => andThen (body input) fun
    | .inl next => iterate body fuel next
    | .inr value => ret value

@[simp]
theorem run_pure (value : α) (state : σ) :
    (pure value : Proc σ ε α) state = (.ok value, state) := rfl

@[simp]
theorem run_get (state : σ) : (get : Proc σ ε σ) state = (.ok state, state) := rfl

@[simp]
theorem run_modify (change : σ → σ) (state : σ) :
    (modify change : Proc σ ε Unit) state = (.ok (), change state) := rfl

@[simp]
theorem run_fail (error : ε) (state : σ) :
    (fail error : Proc σ ε α) state = (.error (.failed error), state) := rfl

theorem run_bind (first : Proc σ ε α) (second : α → Proc σ ε β) (state : σ) :
    (first >>= second) state = match first state with
      | (.ok value, next) => second value next
      | (.error stop, next) => (.error stop, next) := rfl

end Proc

open Proc

section Rules

variable {σ ε α β : Type}

/-- From every state with the precondition, the computation returns with the
postcondition or stops with the other one. -/
def Spec (before : σ → Prop) (body : Proc σ ε α) (after : α → σ → Prop)
    (stopped : Stop ε → σ → Prop) : Prop :=
  ∀ state, before state → match body state with
    | (.ok value, next) => after value next
    | (.error stop, next) => stopped stop next

variable {before before' : σ → Prop} {after after' : α → σ → Prop}
  {stopped stopped' : Stop ε → σ → Prop}

variable {body : Proc σ ε α}

theorem Spec.weaken (h : Spec before body after stopped)
    (hbefore : ∀ state, before' state → before state)
    (hafter : ∀ value state, after value state → after' value state)
    (hstopped : ∀ stop state, stopped stop state → stopped' stop state) :
    Spec before' body after' stopped' := by
  intro state hstate
  have hbody := h state (hbefore state hstate)
  revert hbody
  generalize body state = result
  obtain ⟨outcome, next⟩ := result
  cases outcome with
  | ok value => exact hafter value next
  | error stop => exact hstopped stop next

theorem Spec.mono (h : Spec before body after stopped)
    (hafter : ∀ value state, after value state → after' value state) :
    Spec before body after' stopped :=
  h.weaken (fun _ hstate => hstate) hafter fun _ _ hstopped => hstopped

theorem Spec.pre (h : Spec before body after stopped)
    (hbefore : ∀ state, before' state → before state) : Spec before' body after stopped :=
  h.weaken hbefore (fun _ _ hafter => hafter) fun _ _ hstopped => hstopped

theorem Spec.forWitness {ι : Sort*} {before : ι → σ → Prop}
    (h : ∀ witness, Spec (before witness) body after stopped) :
    Spec (fun state => ∃ witness, before witness state) body after stopped := by
  rintro state ⟨witness, hstate⟩
  exact h witness state hstate

theorem Spec.given {fact : Prop} (h : fact → Spec before body after stopped) :
    Spec (fun state => fact ∧ before state) body after stopped := by
  rintro state ⟨hfact, hstate⟩
  exact h hfact state hstate

theorem Spec.pure {value : α} (h : ∀ state, before state → after value state) :
    Spec before (Pure.pure value) after stopped :=
  fun state hstate => h state hstate

theorem Spec.bind {middle : β → σ → Prop} {first : Proc σ ε β} {second : β → Proc σ ε α}
    (hfirst : Spec before first middle stopped)
    (hsecond : ∀ value, Spec (middle value) (second value) after stopped) :
    Spec before (first >>= second) after stopped := by
  intro state hstate
  have h := hfirst state hstate
  rw [run_bind]
  revert h
  generalize first state = result
  obtain ⟨outcome, next⟩ := result
  cases outcome with
  | ok value => exact hsecond value next
  | error stop => exact fun h => h

theorem Spec.modify {change : σ → σ} (after : Unit → σ → Prop)
    (h : ∀ state, before state → after () (change state)) :
    Spec before (modify change : Proc σ ε Unit) after stopped :=
  fun state hstate => h state hstate

theorem Spec.fail {error : ε} (h : ∀ state, before state → stopped (.failed error) state) :
    Spec before (fail error : Proc σ ε α) after stopped :=
  fun state hstate => h state hstate

theorem Spec.ofExcept {value : Except ε α} (after : α → σ → Prop)
    (hok : ∀ result, value = .ok result → ∀ state, before state → after result state)
    (herror : ∀ error, value = .error error →
      ∀ state, before state → stopped (.failed error) state) :
    Spec before (ofExcept value : Proc σ ε α) after stopped := by
  intro state hstate
  cases value with
  | ok result => exact hok result rfl state hstate
  | error error => exact herror error rfl state hstate

theorem Spec.restoring {undo : σ → σ} (stopped' : Stop ε → σ → Prop)
    (h : Spec before body after stopped')
    (hundo : ∀ error state, stopped' (.failed error) state → stopped (.failed error) (undo state))
    (hhalted : ∀ state, stopped' .halted state → stopped .halted state) :
    Spec before (restoring body undo) after stopped := by
  intro state hstate
  have hbody := h state hstate
  rw [Proc.restoring]
  revert hbody
  generalize body state = result
  obtain ⟨outcome, next⟩ := result
  cases outcome with
  | ok value => exact fun h => h
  | error stop =>
    cases stop with
    | failed error => exact hundo error next
    | halted => exact hhalted next

end Rules

section Returns

variable {σ ε α β : Type} {state : σ}

/-- If a computation returns from a state, its value and the state it returns in have a
property. -/
def Returns (state : σ) (body : Proc σ ε α) (after : α → σ → Prop) : Prop :=
  ∀ value next, body state = (.ok value, next) → after value next

variable {after : α → σ → Prop} {body : Proc σ ε α}

theorem Spec.returns {before : σ → Prop} {stopped : Stop ε → σ → Prop}
    (h : Spec before body after stopped) (hstate : before state) : Returns state body after := by
  intro value next hbody
  have hafter := h state hstate
  rw [hbody] at hafter
  exact hafter

theorem Returns.any (body : Proc σ ε α) : Returns state body fun _ _ => True :=
  fun _ _ _ => trivial

theorem Returns.mono {after' : α → σ → Prop} (h : Returns state body after)
    (himp : ∀ value next, after value next → after' value next) : Returns state body after' :=
  fun value next hbody => himp value next (h value next hbody)

theorem Returns.pure {value : α} (h : after value state) :
    Returns state (Pure.pure value : Proc σ ε α) after := by
  intro other next hbody
  cases hbody
  exact h

theorem Returns.fail {error : ε} : Returns state (Proc.fail error) after := by
  intro value next hbody
  cases hbody

theorem Returns.ofExcept {value : Except ε α}
    (h : ∀ result, value = .ok result → after result state) :
    Returns state (Proc.ofExcept value) after := by
  cases value with
  | error error => exact Returns.fail
  | ok result => exact Returns.pure (h result rfl)

theorem Returns.get : Returns state (Proc.get : Proc σ ε σ) fun value next =>
    value = state ∧ next = state := by
  intro value next hbody
  cases hbody
  exact ⟨rfl, rfl⟩

theorem Returns.modify {change : σ → σ} {after : Unit → σ → Prop} (h : after () (change state)) :
    Returns state (Proc.modify change : Proc σ ε Unit) after := by
  intro value next hbody
  cases hbody
  exact h

theorem Returns.bind {first : Proc σ ε β} {second : β → Proc σ ε α} {middle : β → σ → Prop}
    (hfirst : Returns state first middle)
    (hsecond : ∀ value next, middle value next → Returns next (second value) after) :
    Returns state (first >>= second) after := by
  intro value next hbody
  rw [run_bind] at hbody
  cases hresult : first state with
  | mk outcome between =>
    rw [hresult] at hbody
    cases outcome with
    | ok found => exact hsecond found between (hfirst found between hresult) value next hbody
    | error stop => cases hbody

theorem Returns.attempt (h : Returns state body after) :
    Returns state (Proc.attempt body) fun outcome next =>
      ∀ value, outcome = .ok value → after value next := by
  intro outcome next hbody value hvalue
  subst hvalue
  unfold Proc.attempt at hbody
  cases hresult : body state with
  | mk found between =>
    rw [hresult] at hbody
    cases found with
    | ok other =>
      cases hbody
      exact h _ _ hresult
    | error stop =>
      cases stop with
      | failed error | halted => cases hbody

theorem Returns.restoring {undo : σ → σ} (h : Returns state body after) :
    Returns state (Proc.restoring body undo) after := by
  intro value next hbody
  unfold Proc.restoring at hbody
  cases hresult : body state with
  | mk found between =>
    rw [hresult] at hbody
    cases found with
    | ok other =>
      cases hbody
      exact h _ _ hresult
    | error stop =>
      cases stop with
      | failed error | halted => cases hbody

theorem Returns.iterate {body : β → Proc σ ε (β ⊕ α)} (invariant : β → σ → Prop)
    (h : ∀ input next, invariant input next → Returns next (body input) fun result last =>
      match result with
        | .inl again => invariant again last 
        | .inr value => after value last)
    {input : β} (hinput : invariant input state) (fuel : Nat) :
    Returns state (Proc.iterate body fuel input) after := by
  induction fuel generalizing input state with
  | zero =>
    intro value next hbody
    cases hbody
  | succ fuel ih =>
    refine Returns.bind (h input state hinput) fun result next hnext => ?_
    cases result with
    | inl again => exact ih hnext
    | inr value => exact Returns.pure hnext

end Returns

end MobiusAgent.EffectLogic
