import Mathlib.Logic.Relation

/-!
# Transition systems with guarded events

A system is a partial step function on states and events.  An environment
decides which events may happen in which state (`allowed`).  `Steps` relates a
state to those it can reach; `exec` runs a list of events, so that a reachable
state can be computed.
-/

namespace Transition

universe u v

variable {σ : Type u} {ε : Type v}

/-- One allowed step. -/
def Next (step : σ → ε → Option σ) (allowed : σ → ε → Prop) (s s' : σ) : Prop :=
  ∃ e, allowed s e ∧ step s e = some s'

/-- Any number of allowed steps. -/
abbrev Steps (step : σ → ε → Option σ) (allowed : σ → ε → Prop) : σ → σ → Prop :=
  Relation.ReflTransGen (Next step allowed)

variable {step : σ → ε → Option σ} {allowed : σ → ε → Prop}

/-- What every allowed step keeps, every run keeps. -/
theorem Steps.invariant
    (inv : σ → Prop)
    (hstep : ∀ s e s', inv s → allowed s e → step s e = some s' → inv s')
    {s s' : σ} (hsteps : Steps step allowed s s') (hs : inv s) :
    inv s' := by
  induction hsteps with
  | refl => exact hs
  | tail _ hnext ih =>
      obtain ⟨e, hallowed, he⟩ := hnext
      exact hstep _ e _ ih hallowed he

/-- A run of one environment is a run of any that allows more. -/
theorem Steps.mono
    {allowed' : σ → ε → Prop} (himp : ∀ s e, allowed s e → allowed' s e)
    {s s' : σ} (hsteps : Steps step allowed s s') :
    Steps step allowed' s s' :=
  hsteps.lift id (fun _ _ ⟨e, hallowed, he⟩ => ⟨e, himp _ _ hallowed, he⟩)

/-- Run a list of events, each of which must be allowed and possible. -/
def exec (step : σ → ε → Option σ) (allowed : σ → ε → Prop) [∀ s e, Decidable (allowed s e)]
    (s : σ) : List ε → Option σ
  | [] => some s
  | e :: events =>
      if allowed s e then
        match step s e with
        | some s' => exec step allowed s' events
        | none => none
      else
        none

/-- What `exec` reaches is reachable. -/
theorem Steps.of_exec
    [∀ s e, Decidable (allowed s e)]
    {s s' : σ} {events : List ε} (h : exec step allowed s events = some s') :
    Steps step allowed s s' := by
  induction events generalizing s with
  | nil =>
      cases h
      exact .refl
  | cons e events ih =>
      rw [exec] at h
      split at h
      · rename_i hallowed
        split at h
        · rename_i s₁ hs₁
          exact .head ⟨e, hallowed, hs₁⟩ (ih h)
        · cases h
      · cases h

/-- Two runs, one after the other. -/
theorem exec_append
    [∀ s e, Decidable (allowed s e)]
    {s₁ s₂ s₃ : σ} {xs ys : List ε} (hxs : exec step allowed s₁ xs = some s₂)
    (hys : exec step allowed s₂ ys = some s₃) :
    exec step allowed s₁ (xs ++ ys) = some s₃ := by
  induction xs generalizing s₁ with
  | nil =>
      cases hxs
      exact hys
  | cons e xs ih =>
      rw [exec] at hxs
      split at hxs
      · rename_i hallowed
        split at hxs
        · rename_i s hs
          rw [List.cons_append, exec, if_pos hallowed, hs]
          exact ih hxs
        · cases hxs
      · cases hxs

/-- What is reachable is reached by a list of events. -/
theorem Steps.exists_exec
    [∀ s e, Decidable (allowed s e)]
    {s s' : σ} (h : Steps step allowed s s') :
    ∃ events, exec step allowed s events = some s' := by
  induction h using Relation.ReflTransGen.head_induction_on with
  | refl => exact ⟨[], rfl⟩
  | head hnext _ ih =>
      obtain ⟨e, hallowed, he⟩ := hnext
      obtain ⟨events, hevents⟩ := ih
      exact ⟨e :: events, by rw [exec, if_pos hallowed, he]; exact hevents⟩

/-- Up to the step that reaches the goal, a run keeps what every step keeps. -/
theorem exists_exec_until
    [∀ s e, Decidable (allowed s e)] (inv goal stop : σ → Prop)
    (hstop : ∀ s e s', stop s → allowed s e → step s e = some s' → stop s')
    (hstep : ∀ s e s', inv s → allowed s e → step s e = some s' → inv s' ∨ goal s' ∨ stop s')
    {s s' : σ} {events : List ε} (hs : inv s ∨ stop s)
    (h : exec step allowed s events = some s') :
    (∃ before rest t, events = before ++ rest ∧
      exec step allowed s before = some t ∧ goal t) ∨ inv s' ∨ stop s' := by
  induction events generalizing s with
  | nil =>
      cases h
      exact Or.inr hs
  | cons e events ih =>
      rw [Transition.exec] at h
      split at h
      · rename_i hallowed
        split at h
        · rename_i s₁ hs₁
          have hnext : inv s₁ ∨ goal s₁ ∨ stop s₁ := by
            rcases hs with hs | hs
            · exact hstep s e s₁ hs hallowed hs₁
            · exact Or.inr (Or.inr (hstop s e s₁ hs hallowed hs₁))
          have hfirst : ∀ {before t}, exec step allowed s₁ before = some t →
              exec step allowed s (e :: before) = some t := by
            intro before t hbefore
            rw [Transition.exec, if_pos hallowed, hs₁]
            exact hbefore
          have hrest : inv s₁ ∨ stop s₁ → (∃ before rest t, e :: events = before ++ rest ∧
              exec step allowed s before = some t ∧ goal t) ∨ inv s' ∨ stop s' := by
            intro hs₁
            refine (ih hs₁ h).imp_left ?_
            rintro ⟨before, rest, t, rfl, hbefore, hgoal⟩
            exact ⟨e :: before, rest, t, rfl, hfirst hbefore, hgoal⟩
          rcases hnext with hinv | hgoal | hstopped
          · exact hrest (Or.inl hinv)
          · exact Or.inl ⟨[e], events, s₁, rfl, hfirst rfl, hgoal⟩
          · exact hrest (Or.inr hstopped)
        · cases h
      · cases h

/-- Up to a state that is done, a run is no longer than a measure that every step lowers. -/
theorem exec_length_le_until
    [∀ s e, Decidable (allowed s e)]
    (inv done : σ → Prop) (measure : σ → Nat)
    (hdone : ∀ s e s', done s → allowed s e → step s e = some s' → done s')
    (hstep : ∀ s e s', inv s → allowed s e → step s e = some s' →
      inv s' ∧ (¬ done s' → measure s' < measure s))
    {s s' : σ} {events : List ε} (hs : inv s) (h : exec step allowed s events = some s')
    (hs' : ¬ done s') :
    events.length + measure s' ≤ measure s := by
  induction events generalizing s with
  | nil =>
      cases h
      simp
  | cons e events ih =>
      rw [exec] at h
      split at h
      · rename_i hallowed
        split at h
        · rename_i s₁ hs₁
          obtain ⟨hinv, hlt⟩ := hstep s e s₁ hs hallowed hs₁
          have hnot : ¬ done s₁ := fun hd =>
            hs' (Steps.invariant done hdone (Steps.of_exec h) hd)
          have hlt := hlt hnot
          have hle := ih hinv h
          rw [List.length_cons]
          omega
        · cases h
      · cases h

/-- A run is no longer than a measure that every allowed step lowers. -/
theorem exec_length_le
    [∀ s e, Decidable (allowed s e)]
    (inv : σ → Prop) (measure : σ → Nat)
    (hstep : ∀ s e s', inv s → allowed s e → step s e = some s' →
      inv s' ∧ measure s' < measure s)
    {s s' : σ} {events : List ε} (hs : inv s) (h : exec step allowed s events = some s') :
    events.length + measure s' ≤ measure s :=
  exec_length_le_until inv (fun _ => False) measure (fun _ _ _ hd => hd.elim)
    (fun s e s' hi ha he => ⟨(hstep s e s' hi ha he).1, fun _ => (hstep s e s' hi ha he).2⟩)
    hs h id

/-- A run is no longer than the rank of its first state, when every allowed step lowers the rank
that the invariant gives. -/
theorem exec_length_le_ranked
    [∀ s e, Decidable (allowed s e)]
    (inv : Nat → σ → Prop)
    (hstep : ∀ n s e s', inv n s → allowed s e → step s e = some s' → ∃ n' < n, inv n' s')
    {n : Nat} {s s' : σ} {events : List ε} (hs : inv n s)
    (h : exec step allowed s events = some s') :
    events.length ≤ n := by
  induction events generalizing n s with
  | nil => exact Nat.zero_le n
  | cons e events ih =>
      rw [exec] at h
      split at h
      · rename_i hallowed
        split at h
        · rename_i s₁ hs₁
          obtain ⟨n', hlt, hinv⟩ := hstep n s e s₁ hs hallowed hs₁
          have hle := ih hinv h
          rw [List.length_cons]
          omega
        · cases h
      · cases h

end Transition
