import Mathlib

/-!
# Machines

A state and a partial step for every event.

* `Machine.runs` : a list of events, each of which must be enabled;
* `Reachable` : what some list of events leads to; `Reachable.invariant` : the rule of invariants.
-/

namespace GetBibleSword.Lib

structure Machine (σ ε : Type) where
  start : σ
  step : σ → ε → Option σ

namespace Machine
variable {σ ε : Type} (m : Machine σ ε)

/-- The events one after the other. -/
def runs : σ → List ε → Option σ
  | s, [] => some s
  | s, e :: events => (m.step s e).bind fun t => runs t events

inductive Reachable : σ → Prop
  | start : Reachable m.start
  | step {s t : σ} {e : ε} : Reachable s → m.step s e = some t → Reachable t

variable {m} {s t : σ}

theorem runs_cons {e : ε} {events : List ε} :
    m.runs s (e :: events) = some t ↔ ∃ u, m.step s e = some u ∧ m.runs u events = some t :=
  Option.bind_eq_some_iff

/-- What every step of the events keeps, the run keeps. -/
theorem runs_invariant {P : σ → Prop} {events : List ε}
    (hstep : ∀ e ∈ events, ∀ s t, P s → m.step s e = some t → P t) :
    ∀ {s : σ}, P s → m.runs s events = some t → P t := by
  induction events with
  | nil =>
    intro s hs hruns
    rwa [← Option.some.inj hruns]
  | cons e events ih =>
    intro s hs hruns
    obtain ⟨u, hu, hruns⟩ := runs_cons.mp hruns
    apply ih (fun e he => hstep e (List.mem_cons_of_mem _ he)) _ hruns
    exact hstep e List.mem_cons_self s u hs hu

theorem Reachable.runs (h : m.Reachable s) {events : List ε} (hruns : m.runs s events = some t) : m.Reachable t :=
  runs_invariant (fun _ _ _ _ hs hstep => .step hs hstep) h hruns

/-- What holds at the start and over every step holds in every reachable state. -/
theorem Reachable.invariant {P : σ → Prop} (hstart : P m.start)
    (hstep : ∀ {s e t}, P s → m.step s e = some t → P t) (h : m.Reachable s) : P s := by
  induction h with
  | start => exact hstart
  | step _ hs ih => exact hstep ih hs

end Machine

end GetBibleSword.Lib
