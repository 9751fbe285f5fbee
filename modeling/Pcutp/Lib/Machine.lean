import Mathlib.Data.List.Induction

/-!
# Machines that read events and emit outputs

A machine is a partial step function: in a state an event either is impossible
or leads to a next state and a list of outputs.  `run` feeds it a list of
events and collects the outputs.  `run_induction` is the invariant rule: what
holds at the start and survives every step holds after every run, where the
property may speak of the events read, the state and the outputs emitted.
-/

namespace Machine

universe u v w

variable {σ : Type u} {ε : Type v} {ω : Type w}

/-- Feed events to a machine, collecting its outputs. -/
def run (step : σ → ε → Option (σ × List ω)) (start : σ × List ω) :
    List ε → Option (σ × List ω)
  | [] => some start
  | e :: events =>
      match step start.1 e with
      | some (s, out) => run step (s, start.2 ++ out) events
      | none => none

variable {step : σ → ε → Option (σ × List ω)}

theorem run_append
    (start : σ × List ω) (xs ys : List ε) :
    run step start (xs ++ ys) = (run step start xs).bind (fun m => run step m ys) := by
  induction xs generalizing start with
  | nil =>
      rfl
  | cons e xs ih =>
      simp only [List.cons_append, run]
      split
      · exact ih _
      · rfl

/-- A run that ends with `e` is a run followed by one step. -/
theorem run_concat
    {start m : σ × List ω} {events : List ε} {e : ε}
    (h : run step start (events ++ [e]) = some m) :
    ∃ s out s' out',
      run step start events = some (s, out) ∧ step s e = some (s', out') ∧
        m = (s', out ++ out') := by
  rw [run_append, Option.bind_eq_some_iff] at h
  obtain ⟨⟨s, out⟩, hrun, hstep⟩ := h
  simp only [run] at hstep
  split at hstep
  · rename_i s' out' hs
    exact ⟨s, out, s', out', hrun, hs, (Option.some.inj hstep).symm⟩
  · cases hstep

theorem run_snoc
    {start : σ × List ω} {events : List ε} {e : ε} {s s' : σ} {out out' : List ω}
    (h : run step start events = some (s, out)) (hstep : step s e = some (s', out')) :
    run step start (events ++ [e]) = some (s', out ++ out') := by
  rw [run_append, h]
  simp [run, hstep]

/-- What holds at the start and survives every step holds after every run. -/
theorem run_induction
    {start : σ × List ω} (inv : List ε → σ → List ω → Prop)
    (hstart : inv [] start.1 start.2)
    (hstep : ∀ events s out e s' out',
      inv events s out → step s e = some (s', out') → inv (events ++ [e]) s' (out ++ out'))
    {events : List ε} {s : σ} {out : List ω}
    (hrun : run step start events = some (s, out)) :
    inv events s out := by
  induction events using List.reverseRecOn generalizing s out with
  | nil =>
      cases Option.some.inj hrun
      exact hstart
  | append_singleton events e ih =>
      obtain ⟨s₀, out₀, s', out', hrun₀, hs, hm⟩ := run_concat hrun
      cases hm
      exact hstep _ _ _ _ _ _ (ih hrun₀) hs

section Always

/-- Every step of a run has a property of the state before it, its event, the state after it
and its outputs. -/
def Always (step : σ → ε → Option (σ × List ω)) (P : σ → ε → σ → List ω → Prop) :
    σ → List ε → Prop
  | _, [] => True
  | s, e :: events =>
      match step s e with
      | some (s', out) => P s e s' out ∧ Always step P s' events
      | none => True

variable {P Q : σ → ε → σ → List ω → Prop}

@[simp] theorem always_nil (s : σ) :
    Always step P s [] :=
  trivial

theorem always_cons_some
    {s s' : σ} {e : ε} {out : List ω} {events : List ε}
    (h : step s e = some (s', out)) :
    Always step P s (e :: events) ↔ P s e s' out ∧ Always step P s' events := by
  rw [Always, h]

theorem always_cons_none
    {s : σ} {e : ε} {events : List ε}
    (h : step s e = none) :
    Always step P s (e :: events) := by
  rw [Always, h]
  trivial

/-- A property of every step can be checked by running. -/
instance decidableAlways [∀ s e s' out, Decidable (P s e s' out)] :
    ∀ (s : σ) (events : List ε), Decidable (Always step P s events)
  | s, [] => .isTrue (always_nil s)
  | s, e :: events =>
      match h : step s e with
      | some (s', out) =>
          have := decidableAlways s' events
          decidable_of_iff _ (always_cons_some h).symm
      | none => .isTrue (always_cons_none h)

/-- Under an invariant, one property of the steps can be exchanged for another.  The invariant
need only survive the steps that have the property. -/
theorem always_of_inv
    (inv : σ → Prop)
    (hstep : ∀ s e s' out, inv s → step s e = some (s', out) → P s e s' out →
      Q s e s' out ∧ inv s')
    {s : σ} {events : List ε} (hs : inv s) (h : Always step P s events) :
    Always step Q s events := by
  induction events generalizing s with
  | nil => trivial
  | cons e events ih =>
      cases hnext : step s e with
      | none => exact always_cons_none hnext
      | some next =>
          obtain ⟨s', out⟩ := next
          obtain ⟨hP, hrest⟩ := (always_cons_some hnext).mp h
          obtain ⟨hQ, hs'⟩ := hstep s e s' out hs hnext hP
          exact (always_cons_some hnext).mpr ⟨hQ, ih hs' hrest⟩

theorem always_iff_of_inv
    (inv : σ → Prop)
    (hiff : ∀ s e s' out, inv s → step s e = some (s', out) → (P s e s' out ↔ Q s e s' out))
    (hinv : ∀ s e s' out, inv s → step s e = some (s', out) → Q s e s' out → inv s')
    {s : σ} {events : List ε} (hs : inv s) :
    Always step P s events ↔ Always step Q s events := by
  constructor
  · refine always_of_inv inv (fun s e s' out hinv₀ hnext hP => ?_) hs
    have hQ := (hiff s e s' out hinv₀ hnext).mp hP
    exact ⟨hQ, hinv s e s' out hinv₀ hnext hQ⟩
  · refine always_of_inv inv (fun s e s' out hinv₀ hnext hQ => ?_) hs
    exact ⟨(hiff s e s' out hinv₀ hnext).mpr hQ, hinv s e s' out hinv₀ hnext hQ⟩

/-- The same, where the steps have a third property throughout. -/
theorem always_iff_of_always
    {R : σ → ε → σ → List ω → Prop} (inv : σ → Prop)
    (hstep : ∀ s e s' out, inv s → step s e = some (s', out) → R s e s' out →
      (P s e s' out ↔ Q s e s' out) ∧ inv s')
    {s : σ} {events : List ε} (hs : inv s) (h : Always step R s events) :
    Always step P s events ↔ Always step Q s events := by
  induction events generalizing s with
  | nil => exact Iff.rfl
  | cons e events ih =>
      cases hnext : step s e with
      | none => exact iff_of_true (always_cons_none hnext) (always_cons_none hnext)
      | some next =>
          obtain ⟨s', out⟩ := next
          obtain ⟨hR, hrest⟩ := (always_cons_some hnext).mp h
          obtain ⟨hiff, hs'⟩ := hstep s e s' out hs hnext hR
          rw [always_cons_some hnext, always_cons_some hnext]
          exact and_congr hiff (ih hs' hrest)

/-- What every step has, by an invariant. -/
theorem always_of_step
    (inv : σ → Prop)
    (hstep : ∀ s e s' out, inv s → step s e = some (s', out) → P s e s' out ∧ inv s')
    {s : σ} (events : List ε) (hs : inv s) :
    Always step P s events := by
  induction events generalizing s with
  | nil => trivial
  | cons e events ih =>
      cases hnext : step s e with
      | none => exact always_cons_none hnext
      | some next =>
          obtain ⟨s', out⟩ := next
          obtain ⟨hP, hs'⟩ := hstep s e s' out hs hnext
          exact (always_cons_some hnext).mpr ⟨hP, ih hs'⟩

/-- What holds of every event holds at every step. -/
theorem always_of_mem
    {R : ε → Prop} (s : σ) (events : List ε) (h : ∀ e ∈ events, R e) :
    Always step (fun _ e _ _ => R e) s events := by
  induction events generalizing s with
  | nil => trivial
  | cons e events ih =>
      obtain ⟨he, hevents⟩ := List.forall_mem_cons.mp h
      cases hnext : step s e with
      | none => exact always_cons_none hnext
      | some next => exact (always_cons_some hnext).mpr ⟨he, ih next.1 hevents⟩

end Always

section Total

/-- What the steps of a run cost together. -/
def total (step : σ → ε → Option (σ × List ω)) (cost : σ → ε → σ → List ω → Nat) :
    σ → List ε → Nat
  | _, [] => 0
  | s, e :: events =>
      match step s e with
      | some (s', out) => cost s e s' out + total step cost s' events
      | none => 0

/-- The potential rule: when every step is paid for, the potential bounds what a run costs. -/
theorem total_le
    {cost : σ → ε → σ → List ω → Nat} (inv : σ → Prop) (potential : σ → Nat)
    (hstep : ∀ s e s' out, inv s → step s e = some (s', out) →
      cost s e s' out + potential s' ≤ potential s ∧ inv s')
    {s : σ} (events : List ε) (hs : inv s) :
    total step cost s events ≤ potential s := by
  induction events generalizing s with
  | nil => exact Nat.zero_le _
  | cons e events ih =>
      cases hnext : step s e with
      | none => simp [total, hnext]
      | some next =>
          obtain ⟨s', out⟩ := next
          obtain ⟨hpaid, hs'⟩ := hstep s e s' out hs hnext
          have hrest := ih hs'
          simp only [total, hnext]
          omega

end Total

section Alongside

variable {τ : Type*}

/-- A machine beside a store on which its outputs act; it cannot step where the store refuses
them. -/
def alongside (step : σ → ε → Option (σ × List ω)) (act : τ → List ω → Option τ) (p : σ × τ)
    (e : ε) : Option ((σ × τ) × List ω) :=
  (step p.1 e).bind fun next => (act p.2 next.2).map fun t => ((next.1, t), next.2)

variable {act : τ → List ω → Option τ}

theorem alongside_eq_some
    {p p' : σ × τ} {e : ε} {out : List ω} (h : alongside step act p e = some (p', out)) :
    step p.1 e = some (p'.1, out) ∧ act p.2 out = some p'.2 := by
  rw [alongside, Option.bind_eq_some_iff] at h
  obtain ⟨⟨s', out'⟩, hstep, hact⟩ := h
  rw [Option.map_eq_some_iff] at hact
  obtain ⟨t', hact, heq⟩ := hact
  cases heq
  exact ⟨hstep, hact⟩

/-- A store that never refuses takes no run away. -/
theorem run_alongside
    (inv : σ → τ → Prop)
    (hstep : ∀ s t e s' out, inv s t → step s e = some (s', out) →
      ∃ t', act t out = some t' ∧ inv s' t')
    {s : σ} {t : τ} (hs : inv s t) (out : List ω) (events : List ε) :
    (run (alongside step act) ((s, t), out) events).map (fun m => (m.1.1, m.2)) =
      run step (s, out) events := by
  induction events generalizing s t out with
  | nil => rfl
  | cons e events ih =>
      cases hnext : step s e with
      | none => simp [run, alongside, hnext]
      | some next =>
          obtain ⟨s', out'⟩ := next
          obtain ⟨t', hact, hs'⟩ := hstep s t e s' out' hs hnext
          simp only [run, alongside, hnext, Option.bind_some, hact, Option.map_some]
          exact ih hs' _

/-- What every step has beside a store, by an invariant of both. -/
theorem always_alongside
    {P : σ × τ → ε → σ × τ → List ω → Prop} (inv : σ → τ → Prop)
    (hstep : ∀ s t e s' t' out, inv s t → step s e = some (s', out) → act t out = some t' →
      P (s, t) e (s', t') out ∧ inv s' t')
    {s : σ} {t : τ} (hs : inv s t) (events : List ε) :
    Always (alongside step act) P (s, t) events := by
  refine always_of_step (fun p => inv p.1 p.2) (fun p e p' out hp hnext => ?_) events hs
  obtain ⟨hnext, hact⟩ := alongside_eq_some hnext
  exact hstep p.1 p.2 e p'.1 p'.2 out hp hnext hact

end Alongside

section Simulation

variable {τ ι ω' α : Type*} {step' : τ → ι → Option (τ × List ω')}

/-- The events that the steps of a run pass on to another machine. -/
def passed (step : σ → ε → Option (σ × List ω)) (pass : σ → ε → List ι) : σ → List ε → List ι
  | _, [] => []
  | s, e :: events =>
      match step s e with
      | some (s', _) => pass s e ++ passed step pass s' events
      | none => []

theorem passed_cons_some
    {pass : σ → ε → List ι} {s s' : σ} {e : ε} {out : List ω} (h : step s e = some (s', out))
    (events : List ε) :
    passed step pass s (e :: events) = pass s e ++ passed step pass s' events := by
  rw [passed, h]

/-- What was put out before a run does not change it. -/
theorem run_before
    (step : σ → ε → Option (σ × List ω)) (s : σ) (before out : List ω) (events : List ε) :
    run step (s, before ++ out) events =
      (run step (s, out) events).map fun m => (m.1, before ++ m.2) := by
  induction events generalizing s out with
  | nil => rfl
  | cons e events ih =>
      cases hnext : step s e with
      | none => simp [run, hnext]
      | some next =>
          simp only [run, hnext, List.append_assoc]
          exact ih _ _

theorem run_cons
    {s s₁ s' : σ} {e : ε} {events : List ε} {out₁ out : List ω} (h : step s e = some (s₁, out₁))
    (hrest : run step (s₁, []) events = some (s', out)) :
    run step (s, []) (e :: events) = some (s', out₁ ++ out) := by
  have hshift := run_before step s₁ out₁ [] events
  rw [List.append_nil, hrest] at hshift
  simp only [run, h, List.nil_append]
  exact hshift

theorem run_single
    {s s' : σ} {e : ε} {out : List ω} (h : step s e = some (s', out)) :
    run step (s, []) [e] = some (s', out) := by
  simp [run, h]

theorem run_trans
    {s s₁ s' : σ} {xs ys : List ε} {out₁ out₂ : List ω} (hxs : run step (s, []) xs = some (s₁, out₁))
    (hys : run step (s₁, []) ys = some (s', out₂)) :
    run step (s, []) (xs ++ ys) = some (s', out₁ ++ out₂) := by
  have hshift := run_before step s₁ out₁ [] ys
  rw [List.append_nil, hys] at hshift
  rw [run_append, hxs]
  exact hshift

/-- A run of two lists of events is a run of the first and then one of the second. -/
theorem exists_of_run_append
    {s s' : σ} {xs ys : List ε} {out : List ω}
    (h : run step (s, []) (xs ++ ys) = some (s', out)) :
    ∃ s₁ out₁ out₂, run step (s, []) xs = some (s₁, out₁) ∧
      run step (s₁, []) ys = some (s', out₂) ∧ out = out₁ ++ out₂ := by
  rw [run_append, Option.bind_eq_some_iff] at h
  obtain ⟨⟨s₁, out₁⟩, hxs, hys⟩ := h
  have hshift := run_before step s₁ out₁ [] ys
  rw [List.append_nil, hys] at hshift
  obtain ⟨⟨s₂, out₂⟩, hrest, heq⟩ := Option.map_eq_some_iff.mp hshift.symm
  cases heq
  exact ⟨s₁, out₁, out₂, hxs, hrest, rfl⟩

theorem exists_of_run_single
    {s s' : σ} {e : ε} {out : List ω} (h : run step (s, []) [e] = some (s', out)) :
    step s e = some (s', out) := by
  simp only [run, List.nil_append] at h
  split at h
  · rename_i hstep
    cases h
    exact hstep
  · cases h

theorem always_of_append
    {P : σ → ε → σ → List ω → Prop} {s : σ} {xs ys : List ε} (h : Always step P s (xs ++ ys)) :
    Always step P s xs := by
  induction xs generalizing s with
  | nil => trivial
  | cons x xs ih =>
      cases hnext : step s x with
      | none => exact always_cons_none hnext
      | some next =>
          rw [List.cons_append, always_cons_some hnext] at h
          exact (always_cons_some hnext).mpr ⟨h.1, ih h.2⟩

theorem always_append
    {P : σ → ε → σ → List ω → Prop} {s s' : σ} {xs ys : List ε} {before out : List ω}
    (h : Always step P s (xs ++ ys)) (hrun : run step (s, before) xs = some (s', out)) :
    Always step P s' ys := by
  induction xs generalizing s before with
  | nil =>
      cases hrun
      exact h
  | cons x xs ih =>
      cases hnext : step s x with
      | none => simp [run, hnext] at hrun
      | some next =>
          obtain ⟨s₁, out₁⟩ := next
          rw [List.cons_append, always_cons_some hnext] at h
          simp only [run, hnext] at hrun
          exact ih h.2 hrun

/-- What every step has, the last one has. -/
theorem always_last
    {P : σ → ε → σ → List ω → Prop} {start m : σ × List ω} {s' : σ} {events : List ε} {e : ε}
    {out : List ω} (h : Always step P start.1 (events ++ [e]))
    (hrun : run step start events = some m) (hstep : step m.1 e = some (s', out)) :
    P m.1 e s' out :=
  ((always_cons_some hstep).mp (always_append h hrun)).1

theorem exists_of_run_any
    {p : σ → List ω → Bool} {start : σ × List ω} {events : List ε} {e : ε}
    (h : ((run step start events).bind fun m => step m.1 e).any (fun m => p m.1 m.2) = true) :
    ∃ m s' out, run step start events = some m ∧ step m.1 e = some (s', out) ∧
      p s' out = true := by
  rw [Option.any_eq_true] at h
  obtain ⟨⟨s', out⟩, hbind, hp⟩ := h
  obtain ⟨m, hrun, hstep⟩ := Option.bind_eq_some_iff.mp hbind
  exact ⟨m, s', out, hrun, hstep, hp⟩

theorem always_of_run_append
    {P : σ → ε → σ → List ω → Prop} {s s' : σ} {xs ys : List ε} {before out : List ω}
    (h : Always step P s xs) (hrun : run step (s, before) xs = some (s', out))
    (hrest : Always step P s' ys) :
    Always step P s (xs ++ ys) := by
  induction xs generalizing s before with
  | nil =>
      cases hrun
      exact hrest
  | cons x xs ih =>
      cases hnext : step s x with
      | none => simp [run, hnext] at hrun
      | some next =>
          obtain ⟨s₁, out₁⟩ := next
          rw [always_cons_some hnext] at h
          simp only [run, hnext] at hrun
          exact (always_cons_some hnext).mpr ⟨h.1, ih h.2 hrun⟩

theorem run_passed_from
    {act : ω → Option α} {act' : ω' → Option α} {pass : σ → ε → List ι}
    {P : τ → ι → τ → List ω' → Prop} (R : σ → τ → Prop)
    (hstep : ∀ s t e s' out, R s t → step s e = some (s', out) → Always step' P t (pass s e) →
      ∃ t' out', run step' (t, []) (pass s e) = some (t', out') ∧ R s' t' ∧
        out.filterMap act = out'.filterMap act')
    {s s' : σ} {t : τ} {events : List ε} {before out : List ω} {before' : List ω'} (hs : R s t)
    (hrun : run step (s, before) events = some (s', out))
    (hP : Always step' P t (passed step pass s events))
    (hbefore : before.filterMap act = before'.filterMap act') :
    ∃ t' out', run step' (t, before') (passed step pass s events) = some (t', out') ∧ R s' t' ∧
      out.filterMap act = out'.filterMap act' := by
  induction events generalizing s t before before' with
  | nil =>
      cases hrun
      exact ⟨t, before', rfl, hs, hbefore⟩
  | cons e events ih =>
      cases hnext : step s e with
      | none => simp [run, hnext] at hrun
      | some next =>
          obtain ⟨s₁, out₁⟩ := next
          rw [passed_cons_some hnext] at hP ⊢
          simp only [run, hnext] at hrun
          have hfirst : Always step' P t (pass s e) := always_of_append hP
          obtain ⟨t₁, out₁', hpass, hs₁, hout⟩ := hstep s t e s₁ out₁ hs hnext hfirst
          have hrest := always_append hP hpass
          have hbefore₁ : (before ++ out₁).filterMap act = (before' ++ out₁').filterMap act' := by
            rw [List.filterMap_append, List.filterMap_append, hbefore, hout]
          obtain ⟨t', out', hrun', hs', hacts⟩ := ih hs₁ hrun hrest hbefore₁
          refine ⟨t', out', ?_, hs', hacts⟩
          have hshift := run_before step' t before' [] (pass s e)
          rw [List.append_nil, hpass] at hshift
          rw [run_append, hshift]
          exact hrun'

/-- The simulation rule: a relation that every step keeps, where the other machine takes the
events that are passed on, holds after every run, and both do the same acts. -/
theorem run_passed
    {act : ω → Option α} {act' : ω' → Option α} {pass : σ → ε → List ι}
    {P : τ → ι → τ → List ω' → Prop} (R : σ → τ → Prop)
    (hstep : ∀ s t e s' out, R s t → step s e = some (s', out) → Always step' P t (pass s e) →
      ∃ t' out', run step' (t, []) (pass s e) = some (t', out') ∧ R s' t' ∧
        out.filterMap act = out'.filterMap act')
    {s s' : σ} {t : τ} {events : List ε} {out : List ω} (hs : R s t)
    (hrun : run step (s, []) events = some (s', out))
    (hP : Always step' P t (passed step pass s events)) :
    ∃ t' out', run step' (t, []) (passed step pass s events) = some (t', out') ∧ R s' t' ∧
      out.filterMap act = out'.filterMap act' :=
  run_passed_from R hstep hs hrun hP rfl

end Simulation

section Termination

variable {α : Type*} {r : α → α → Prop}

/-- The ranking rule: when every step lowers a well-founded rank, no schedule runs for ever. -/
theorem exists_run_eq_none
    (hwf : WellFounded r) (rank : σ → α) (inv : σ → Prop)
    (hstep : ∀ s e s' out, inv s → step s e = some (s', out) → r (rank s') (rank s) ∧ inv s')
    {s : σ} (out : List ω) (schedule : Nat → ε) (hs : inv s) :
    ∃ n, run step (s, out) ((List.range n).map schedule) = none := by
  induction hrank : rank s using hwf.induction generalizing s out schedule with
  | _ a ih =>
      cases hnext : step s (schedule 0) with
      | none =>
          refine ⟨1, ?_⟩
          simp [run, hnext]
      | some next =>
          obtain ⟨s', out'⟩ := next
          obtain ⟨hlower, hs'⟩ := hstep s _ s' out' hs hnext
          obtain ⟨n, hn⟩ := ih _ (hrank ▸ hlower) (out ++ out') (fun i => schedule (i + 1)) hs' rfl
          refine ⟨n + 1, ?_⟩
          rw [List.range_succ_eq_map, List.map_cons, List.map_map]
          simp only [run, hnext]
          exact hn

end Termination

end Machine
