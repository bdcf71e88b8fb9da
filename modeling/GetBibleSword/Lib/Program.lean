import GetBibleSword.Lib.Outcome

/-!
# Programs with a state and exceptions

`EStateM ε σ`: a step of a program returns or throws, and the state it leaves is kept either way.

* `run_bind`, `run_modify`, ... : how a program runs, one construct at a time;
* `bind_ok` : a sequence that returned, taken apart;
* `Keeps I x Q` : however `x` ends it keeps `I`, and what it returns is in `Q`; the rules of sequence and
  handlers;
* `Triple P x Q E` : from a state in `P` the program `x` returns in `Q` or throws in `E`; the same rules.
-/

namespace GetBibleSword.Lib

variable {ε σ α β : Type}

/-! ## Runs -/

theorem run_pure (a : α) (s : σ) : (pure a : EStateM ε σ α) s = .ok a s := rfl

theorem run_bind (x : EStateM ε σ α) (f : α → EStateM ε σ β) (s : σ) :
    (x >>= f) s = match x s with
      | .ok a s' => f a s'
      | .error e s' => .error e s' := rfl

theorem run_get (s : σ) : (get : EStateM ε σ σ) s = .ok s s := rfl

theorem run_set (t s : σ) : (set t : EStateM ε σ PUnit) s = .ok ⟨⟩ t := rfl

theorem run_modify (f : σ → σ) (s : σ) : (modify f : EStateM ε σ PUnit) s = .ok ⟨⟩ (f s) := rfl

theorem run_throw (e : ε) (s : σ) : (throw e : EStateM ε σ α) s = .error e s := rfl

/-- The state a program leaves, however it ends. -/
def final (x : EStateM ε σ α) (s : σ) : σ :=
  match x s with
  | .ok _ t => t
  | .error _ t => t

/-- A sequence that returned: its first part did, and the rest from the state that left. -/
theorem bind_ok {x : EStateM ε σ α} {f : α → EStateM ε σ β} {s s' : σ} {b : β} :
    (x >>= f) s = .ok b s' ↔ ∃ a t, x s = .ok a t ∧ f a t = .ok b s' := by
  rw [run_bind]
  cases x s with
  | ok a t => simp
  | error e t => simp

theorem run_tryCatch (x : EStateM ε σ α) (handle : ε → EStateM ε σ α) (s : σ) :
    (tryCatch x handle) s = match x s with
      | .ok a t => .ok a t
      | .error e t => handle e t := by
  show EStateM.tryCatch x handle s = _
  unfold EStateM.tryCatch
  cases x s with
  | ok a t => rfl
  | error e t => rfl

/-! ## Invariants -/

section Keeps
variable {I : σ → Prop} {x : EStateM ε σ α} {f : α → EStateM ε σ β} {Q : α → Prop} {R : β → Prop}

/-- From a state in `I` the program ends in one, and what it returns is in `Q`. -/
def Keeps (I : σ → Prop) (x : EStateM ε σ α) (Q : α → Prop) : Prop :=
  ∀ s, I s → match x s with
    | .ok a t => Q a ∧ I t
    | .error _ t => I t

theorem Keeps.final (h : Keeps I x Q) {s : σ} (hs : I s) : I (Lib.final x s) := by
  have hend := h s hs
  unfold Lib.final
  cases hx : x s with
  | ok a t =>
    rw [hx] at hend
    exact hend.2
  | error e t =>
    rw [hx] at hend
    exact hend

theorem Keeps.pure {a : α} (h : Q a) : Keeps (ε := ε) I (pure a) Q := fun _ hs => ⟨h, hs⟩

theorem Keeps.throw (e : ε) : Keeps I (throw e : EStateM ε σ α) Q := fun _ hs => hs

theorem Keeps.get : Keeps (ε := ε) I get I := fun _ hs => ⟨hs, hs⟩

theorem Keeps.modify {g : σ → σ} (h : ∀ s, I s → I (g s)) : Keeps (ε := ε) I (modify g) fun _ => True :=
  fun s hs => ⟨trivial, h s hs⟩

theorem Keeps.bind (hx : Keeps I x Q) (hf : ∀ a, Q a → Keeps I (f a) R) : Keeps I (x >>= f) R := by
  intro s hs
  have hfirst := hx s hs
  rw [run_bind]
  cases hrun : x s with
  | ok a t =>
    rw [hrun] at hfirst
    exact hf a hfirst.1 t hfirst.2
  | error e t =>
    rw [hrun] at hfirst
    exact hfirst

theorem Keeps.tryCatch {handle : ε → EStateM ε σ α} (hx : Keeps I x Q) (hhandle : ∀ e, Keeps I (handle e) Q) :
    Keeps I (tryCatch x handle) Q := by
  intro s hs
  have hbody := hx s hs
  rw [run_tryCatch]
  cases hrun : x s with
  | ok a t =>
    rw [hrun] at hbody
    exact hbody
  | error e t =>
    rw [hrun] at hbody
    exact hhandle e t hbody

end Keeps

/-! ## Triples -/

section Triple
variable {P P' : σ → Prop} {x : EStateM ε σ α} {f : α → EStateM ε σ β} {Q Q' : α → σ → Prop} {R : β → σ → Prop}
  {E E' : ε → σ → Prop}

/-- From a state in `P` the program returns in `Q`, or throws in `E`. -/
def Triple (P : σ → Prop) (x : EStateM ε σ α) (Q : α → σ → Prop) (E : ε → σ → Prop) : Prop :=
  ∀ s, P s → match x s with
    | .ok a t => Q a t
    | .error e t => E e t

theorem Triple.ok (h : Triple P x Q E) {s t : σ} {a : α} (hs : P s) (hx : x s = .ok a t) : Q a t := by
  have hend := h s hs
  rwa [hx] at hend

theorem Triple.error (h : Triple P x Q E) {s t : σ} {e : ε} (hs : P s) (hx : x s = .error e t) : E e t := by
  have hend := h s hs
  rwa [hx] at hend

theorem Keeps.triple {I : σ → Prop} {x : EStateM ε σ α} {Q : α → Prop} (h : Keeps I x Q) :
    Triple I x (fun a s => Q a ∧ I s) fun _ => I := h

theorem Triple.conseq (h : Triple P x Q E) (hP : ∀ s, P' s → P s) (hQ : ∀ a s, Q a s → Q' a s)
    (hE : ∀ e s, E e s → E' e s) : Triple P' x Q' E' := by
  intro s hs
  cases hx : x s with
  | ok a t => exact hQ a t (h.ok (hP s hs) hx)
  | error e t => exact hE e t (h.error (hP s hs) hx)

theorem Triple.and (h : Triple P x Q E) (h' : Triple P x Q' E') :
    Triple P x (fun a s => Q a s ∧ Q' a s) fun e s => E e s ∧ E' e s := by
  intro s hs
  cases hx : x s with
  | ok a t => exact ⟨h.ok hs hx, h'.ok hs hx⟩
  | error e t => exact ⟨h.error hs hx, h'.error hs hx⟩

theorem Triple.both (h : Triple P x Q E) (h' : Triple P' x Q' E') :
    Triple (fun s => P s ∧ P' s) x (fun a s => Q a s ∧ Q' a s) fun e s => E e s ∧ E' e s :=
  (h.conseq (fun _ hs => hs.1) (fun _ _ hs => hs) fun _ _ hs => hs).and
    (h'.conseq (fun _ hs => hs.2) (fun _ _ hs => hs) fun _ _ hs => hs)

theorem Triple.pure {a : α} (h : ∀ s, P s → Q a s) : Triple P (pure a) Q E := h

theorem Triple.throw {e : ε} (h : ∀ s, P s → E e s) : Triple P (throw e : EStateM ε σ α) Q E := h

theorem Triple.modify {g : σ → σ} {Q : PUnit → σ → Prop} (h : ∀ s, P s → Q ⟨⟩ (g s)) : Triple P (modify g) Q E := h

theorem Triple.bind (hx : Triple P x Q E) (hf : ∀ a, Triple (Q a) (f a) R E) : Triple P (x >>= f) R E := by
  intro s hs
  rw [run_bind]
  cases hrun : x s with
  | ok a t => exact hf a t (hx.ok hs hrun)
  | error e t => exact hx.error hs hrun

/-- What is read is the state. -/
theorem Triple.get {g : σ → EStateM ε σ β} (h : ∀ s, P s → Triple (fun t => t = s) (g s) R E) :
    Triple P (get >>= g) R E :=
  fun s hs => h s hs s rfl

/-- From each state on its own. -/
theorem Triple.each (h : ∀ s, P s → Triple (fun t => t = s) x Q E) : Triple P x Q E := fun s hs => h s hs s rfl

theorem Triple.tryCatch {handle : ε → EStateM ε σ α} (hx : Triple P x Q E)
    (hhandle : ∀ e, Triple (E e) (handle e) Q E') : Triple P (tryCatch x handle) Q E' := by
  intro s hs
  rw [run_tryCatch]
  cases hrun : x s with
  | ok a t => exact hx.ok hs hrun
  | error e t => exact hhandle e t (hx.error hs hrun)

end Triple

end GetBibleSword.Lib
