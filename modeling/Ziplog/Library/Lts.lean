import Mathlib.Data.Nat.Notation
import Mathlib.Logic.Basic

/-!
# Labelled transition systems

A system has one initial state and a step function that is partial in the label: `step s e` is the
state after the event `e`, or `none` where `e` cannot happen in `s`. Everything the system leaves
open (the interleaving, the clock, the contents of a request) sits in the labels.

`ReachVia guard` collects the states of the runs all of whose steps meet `guard`; `Reach` is the
case without a guard. `ReachVia.invariant` is the induction rule, `ReachVia.abs` carries runs along
an abstraction map that matches each step by one step or by none, `ReachVia.simulate` along a
relation, and `reachVia_of_run` builds a run from a list of events. `countP_le_of_run` bounds the
number of steps along which a measure falls. `withFaults` adds the steps that end in a fault, and
`ReachVia.exists_ok` removes them again where a condition excludes them.
-/

universe u v w x

/-- A labelled transition system. -/
structure Lts (σ : Type u) (ε : Type v) where
  init : σ
  step : σ → ε → Option σ

namespace Lts

variable {σ : Type u} {ε : Type v} {τ : Type w} {δ : Type x}

/-- The states of the runs all of whose steps meet `guard`. -/
inductive ReachVia (M : Lts σ ε) (guard : σ → ε → Prop) : σ → Prop
  | init : ReachVia M guard M.init
  | step {s t : σ} {e : ε} :
      ReachVia M guard s → guard s e → M.step s e = some t → ReachVia M guard t

/-- The states of all runs. -/
abbrev Reach (M : Lts σ ε) : σ → Prop := M.ReachVia fun _ _ => True

/-- **Invariants.** What holds initially and is kept by every step taken in a reached state holds
in every reached state. -/
theorem ReachVia.invariant {M : Lts σ ε} {guard : σ → ε → Prop} (I : σ → Prop) (hinit : I M.init)
    (hstep : ∀ s e t, M.ReachVia guard s → I s → guard s e → M.step s e = some t → I t) {s : σ}
    (h : M.ReachVia guard s) : I s := by
  induction h with
  | init => exact hinit
  | step hr hg hs ih => exact hstep _ _ _ hr ih hg hs

theorem ReachVia.mono {M : Lts σ ε} {guard guard' : σ → ε → Prop}
    (hg : ∀ s e, guard s e → guard' s e) {s : σ} (h : M.ReachVia guard s) :
    M.ReachVia guard' s := by
  induction h with
  | init => exact .init
  | step _ hgs hs ih => exact .step ih (hg _ _ hgs) hs

theorem ReachVia.reach {M : Lts σ ε} {guard : σ → ε → Prop} {s : σ} (h : M.ReachVia guard s) :
    M.Reach s := h.mono fun _ _ _ => trivial

/-- **Abstraction.** A map that sends every guarded step to a guarded step or to no step sends runs
to runs. -/
theorem ReachVia.abs {M : Lts σ ε} {N : Lts τ δ} {guard : σ → ε → Prop} {guard' : τ → δ → Prop}
    (f : σ → τ) (hinit : f M.init = N.init)
    (hstep : ∀ s e t, M.ReachVia guard s → guard s e → M.step s e = some t →
      f t = f s ∨ ∃ d, guard' (f s) d ∧ N.step (f s) d = some (f t)) {s : σ}
    (h : M.ReachVia guard s) : N.ReachVia guard' (f s) := by
  induction h with
  | init => rw [hinit]; exact .init
  | step hr hg hs ih =>
    rcases hstep _ _ _ hr hg hs with heq | ⟨d, hgd, hd⟩
    · rwa [heq]
    · exact .step ih hgd hd

/-- **Simulation.** A relation between the initial states that every guarded step keeps, matched by
a guarded step or by no step, relates every reached state to a reached one. -/
theorem ReachVia.simulate {M : Lts σ ε} {N : Lts τ δ} {guard : σ → ε → Prop}
    {guard' : τ → δ → Prop} (R : σ → τ → Prop) (hinit : R M.init N.init)
    (hstep : ∀ s e s' t, R s t → guard s e → M.step s e = some s' →
      R s' t ∨ ∃ d t', guard' t d ∧ N.step t d = some t' ∧ R s' t') {s : σ}
    (h : M.ReachVia guard s) : ∃ t, N.ReachVia guard' t ∧ R s t := by
  induction h with
  | init => exact ⟨N.init, .init, hinit⟩
  | step _ hg hs ih =>
    obtain ⟨t, ht, hR⟩ := ih
    rcases hstep _ _ _ _ hR hg hs with hsame | ⟨d, t', hgd, hd, hR'⟩
    · exact ⟨t, ht, hsame⟩
    · exact ⟨t', .step ht hgd hd, hR'⟩

/-- The state after a list of events, each of which meets `guard`. -/
def runVia (M : Lts σ ε) (guard : σ → ε → Bool) : List ε → σ → Option σ
  | [], s => some s
  | e :: es, s => if guard s e then (M.step s e).bind (M.runVia guard es) else none

/-- The state after a list of events. -/
abbrev run (M : Lts σ ε) (es : List ε) (s : σ) : Option σ := M.runVia (fun _ _ => true) es s

theorem run_cons (M : Lts σ ε) (e : ε) (es : List ε) (s : σ) :
    M.run (e :: es) s = (M.step s e).bind (M.run es) := if_pos rfl

theorem runVia_append (M : Lts σ ε) (guard : σ → ε → Bool) (es es' : List ε) (s : σ) :
    M.runVia guard (es ++ es') s = (M.runVia guard es s).bind (M.runVia guard es') := by
  induction es generalizing s with
  | nil => rfl
  | cons e es ih =>
    rw [List.cons_append, Lts.runVia, Lts.runVia]
    split
    · rw [Option.bind_assoc]
      exact congrArg _ (funext ih)
    · rfl

/-- A run that starts with the step `e`. -/
theorem exists_runVia_cons {M : Lts σ ε} {guard : σ → ε → Bool} {P : σ → Prop} {s t : σ} {e : ε}
    (hg : guard s e = true) (hs : M.step s e = some t)
    (h : ∃ es u, M.runVia guard es t = some u ∧ P u) :
    ∃ es u, M.runVia guard es s = some u ∧ P u := by
  obtain ⟨es, u, hrun, hu⟩ := h
  refine ⟨e :: es, u, ?_, hu⟩
  rw [Lts.runVia, if_pos hg, hs]
  exact hrun

theorem ReachVia.runVia {M : Lts σ ε} {guard : σ → ε → Prop} {test : σ → ε → Bool}
    (htest : ∀ s e, test s e = true → guard s e) {es : List ε} {s t : σ}
    (h : M.ReachVia guard s) (hrun : M.runVia test es s = some t) : M.ReachVia guard t := by
  induction es generalizing s with
  | nil => cases hrun; exact h
  | cons e es ih =>
    unfold Lts.runVia at hrun
    split at hrun
    · rename_i hg
      obtain ⟨s', hs', hrun⟩ := Option.bind_eq_some_iff.mp hrun
      exact ih (.step h (htest _ _ hg) hs') hrun
    · cases hrun

/-- **Termination.** A measure that no step raises, and that every step counted by `p` lowers,
bounds the number of these steps in every run. -/
theorem countP_le_of_run {M : Lts σ ε} (I : σ → Prop) (p : ε → Bool) (measure : σ → ℕ)
    (hstep : ∀ s e t, I s → M.step s e = some t →
      I t ∧ (if p e then 1 else 0) + measure t ≤ measure s) {es : List ε} {s t : σ} (hI : I s)
    (hrun : M.run es s = some t) : I t ∧ es.countP p + measure t ≤ measure s := by
  induction es generalizing s with
  | nil =>
    cases hrun
    exact ⟨hI, by simp⟩
  | cons e es ih =>
    rw [run_cons] at hrun
    obtain ⟨s', hs', hrun⟩ := Option.bind_eq_some_iff.mp hrun
    obtain ⟨hI', hfirst⟩ := hstep s e s' hI hs'
    obtain ⟨ht, hrest⟩ := ih hI' hrun
    refine ⟨ht, ?_⟩
    rw [List.countP_cons]
    omega

/-- What every step keeps holds at the end of a run. -/
theorem invariant_of_run {M : Lts σ ε} (I : σ → Prop)
    (hstep : ∀ s e t, I s → M.step s e = some t → I t) {es : List ε} {s t : σ} (hI : I s)
    (hrun : M.run es s = some t) : I t := by
  have hcount := countP_le_of_run I (fun _ => false) (fun _ => 0)
    (fun s e t hs h => ⟨hstep s e t hs h, Nat.le_refl _⟩) hI hrun
  exact hcount.1

/-- A guarded list of events that can all happen leads to a reached state. -/
theorem reachVia_of_run (M : Lts σ ε) {guard : σ → ε → Prop} {test : σ → ε → Bool}
    (htest : ∀ s e, test s e = true → guard s e) {es : List ε} {t : σ}
    (hrun : M.runVia test es M.init = some t) : M.ReachVia guard t :=
  ReachVia.runVia htest .init hrun

/-- A run of the image of a system, one step for one step, is the image of a run. -/
theorem exists_run_of_map {M : Lts σ ε} {N : Lts τ ε} {f : σ → τ} (I : σ → Prop)
    (hmap : ∀ s e, I s → (M.step s e).map f = N.step (f s) e)
    (hstep : ∀ s e t, I s → M.step s e = some t → I t) {es : List ε} {s : σ} {u : τ} (hs : I s)
    (hrun : N.run es (f s) = some u) : ∃ t, M.run es s = some t ∧ I t ∧ f t = u := by
  induction es generalizing s with
  | nil =>
    cases hrun
    exact ⟨s, rfl, hs, rfl⟩
  | cons e es ih =>
    rw [run_cons, ← hmap s e hs] at hrun
    obtain ⟨_, hv, hrun⟩ := Option.bind_eq_some_iff.mp hrun
    obtain ⟨s', hs', rfl⟩ := Option.map_eq_some_iff.mp hv
    obtain ⟨t, ht, hI, heq⟩ := ih (hstep s e s' hs hs') hrun
    refine ⟨t, ?_, hI, heq⟩
    rw [run_cons, hs']
    exact ht

/-- A guarded list of events that leads to a state with a tested property. -/
theorem exists_reachVia_of_run (M : Lts σ ε) {guard : σ → ε → Prop} {test : σ → ε → Bool}
    (htest : ∀ s e, test s e = true → guard s e) {es : List ε} {p : σ → Bool}
    (hrun : (M.runVia test es M.init).any p = true) : ∃ s, M.ReachVia guard s ∧ p s = true := by
  cases heq : M.runVia test es M.init with
  | none => simp [heq] at hrun
  | some s =>
    rw [heq, Option.any_some] at hrun
    exact ⟨s, M.reachVia_of_run htest heq, hrun⟩

theorem exists_reach_of_run (M : Lts σ ε) {es : List ε} {p : σ → Bool}
    (hrun : (M.run es M.init).any p = true) : ∃ s, M.Reach s ∧ p s = true :=
  M.exists_reachVia_of_run (fun _ _ _ => trivial) hrun

/-! ## Faults -/

variable {φ : Type x} {fault : σ → ε → Option φ} {guard : σ → ε → Prop}

/-- The system with the faults that a step can end in. Nothing follows a fault. -/
def withFaults (M : Lts σ ε) (fault : σ → ε → Option φ) : Lts (Except φ σ) ε where
  init := .ok M.init
  step x e := match x with
    | .error _ => none
    | .ok s => match fault s e with
      | some f => some (.error f)
      | none => (M.step s e).map .ok

/-- A condition on the steps that are taken as long as there is no fault. -/
def BeforeFault (guard : σ → ε → Prop) : Except φ σ → ε → Prop
  | .error _, _ => True
  | .ok s, e => guard s e

theorem withFaults_step {M : Lts σ ε} {s : σ} {e : ε} (h : fault s e = none) :
    (M.withFaults fault).step (.ok s) e = (M.step s e).map .ok := by
  simp only [withFaults, h]

/-- A step is one of the system, or ends in a fault. -/
theorem withFaults_cases {M : Lts σ ε} {s : σ} {e : ε} {y : Except φ σ}
    (h : (M.withFaults fault).step (.ok s) e = some y) :
    (∃ f, fault s e = some f ∧ y = .error f) ∨
      fault s e = none ∧ ∃ t, M.step s e = some t ∧ y = .ok t := by
  cases hf : fault s e with
  | some f =>
    simp only [withFaults, hf] at h
    cases h
    exact Or.inl ⟨f, rfl, rfl⟩
  | none =>
    rw [withFaults_step hf] at h
    obtain ⟨t, ht, rfl⟩ := Option.map_eq_some_iff.mp h
    exact Or.inr ⟨rfl, t, ht, rfl⟩

/-- **No fault.** A condition under which no step ends in a fault keeps the runs in the system. -/
theorem ReachVia.exists_ok {M : Lts σ ε} (hfree : ∀ s e, guard s e → fault s e = none)
    {x : Except φ σ} (h : (M.withFaults fault).ReachVia (BeforeFault guard) x) :
    ∃ s, x = .ok s ∧ M.ReachVia guard s := by
  refine h.invariant (fun x => ∃ s, x = .ok s ∧ M.ReachVia guard s) ⟨_, rfl, .init⟩ ?_
  rintro _ e y - ⟨s, rfl, hs⟩ hg hy
  rw [withFaults_step (hfree s e hg)] at hy
  obtain ⟨t, ht, rfl⟩ := Option.map_eq_some_iff.mp hy
  exact ⟨t, rfl, .step hs hg ht⟩

/-- A run of the system is one without a fault. -/
theorem ReachVia.withFaults {M : Lts σ ε}
    (hstep : ∀ s e t, M.step s e = some t → fault s e = none) {s : σ} (h : M.ReachVia guard s) :
    (M.withFaults fault).ReachVia (BeforeFault guard) (.ok s) := by
  induction h with
  | init => exact .init
  | step _ hg hs ih =>
    refine .step ih hg ?_
    rw [withFaults_step (hstep _ _ _ hs), hs]
    rfl

end Lts
