import GetBibleSword.Cli.AtomicOutput

/-!
# What the target of the output holds

* `Atomic` : at every moment the target holds what it would hold without the run, or the complete stream;
* `Waiting`, `Published` : the two states of a run; `Stable` : what other processes leave of them;
* `triple_*` : what each step of `AtomicOutput` does to them;
* `atomic_output` : every run is atomic unless `mkstemp` picks the name of the target.
-/

namespace GetBibleSword.Cli
open GetBibleSword.Lib

section Process
variable {β : Type} (options : Options)

/-! ## What holds at every moment -/

/-- What a path holds that this run has left alone. -/
def heldOf : Option β → Held β
  | none => .absent
  | some b => .other b

/-- The target holds what it would hold without this run, or the complete stream; without `force` it is the former
if that is anything; behind the destructor the temporary file is unlinked, or the target is the complete stream. -/
structure Atomic (w : World β) : Prop where
  held : ∀ m ∈ w.moments, m.held = heldOf m.undisturbed ∨ m.held = .file w.attempted
  exclusive : options.force = false → ∀ m ∈ w.moments, m.undisturbed ≠ none → m.held = heldOf m.undisturbed
  cleaned : w.destroyed = true → w.leftover = true ∨ w.directory options.temporary = none ∨
    w.held options = .file w.attempted

/-- Before anything is published. -/
structure Waiting (w : World β) : Prop where
  target : w.directory options.target = w.undisturbed.map .other
  moments : ∀ m ∈ w.moments, m.held = heldOf m.undisturbed
  committed : w.committed = false
  destroyed : w.destroyed = false

structure Published (w : World β) : Prop where
  target : w.directory options.target = some .temporary
  content : w.content = w.attempted
  moments : ∀ m ∈ w.moments, m.held = heldOf m.undisturbed ∨ m.held = .file w.attempted
  exclusive : options.force = false →
    w.undisturbed = none ∧ ∀ m ∈ w.moments, m.undisturbed ≠ none → m.held = heldOf m.undisturbed
  destroyed : w.destroyed = false

def Kept (w : World β) : Prop := Waiting options w ∨ Published options w

section Moments
variable {options} {w : World β}

theorem arrive_cases (w : World β) (b : β) : w.arrive options b = w ∨ w.directory options.target = none ∧
    w.arrive options b = ({ w.link options.target (some (.other b)) with undisturbed := some b }).note options := by
  unfold World.arrive
  cases w.directory options.target with
  | none => exact .inr ⟨rfl, rfl⟩
  | some entry => exact .inl rfl

theorem Waiting.held (h : Waiting options w) : w.held options = heldOf w.undisturbed := by
  unfold World.held
  rw [h.target]
  cases w.undisturbed with
  | none => rfl
  | some b => rfl

theorem Waiting.note (h : Waiting options w) : Waiting options (w.note options) where
  target := h.target
  moments := by
    intro m hm
    rcases List.mem_append.mp hm with hm | hm
    · exact h.moments m hm
    · rw [List.mem_singleton.mp hm]
      exact h.held
  committed := h.committed
  destroyed := h.destroyed

theorem Waiting.link (h : Waiting options w) {name : Bytes} (hname : name ≠ options.target)
    (entry : Option (Entry β)) : Waiting options (w.link name entry) where
  target := (Function.update_of_ne hname.symm _ _).trans h.target
  moments := h.moments
  committed := h.committed
  destroyed := h.destroyed

theorem Waiting.arrive (h : Waiting options w) (b : β) : Waiting options (w.arrive options b) := by
  rcases @arrive_cases β options w b with heq | ⟨-, heq⟩
  · rwa [heq]
  · rw [heq]
    apply Waiting.note
    exact ⟨Function.update_self _ _ _, h.moments, h.committed, h.destroyed⟩

theorem Published.held (h : Published options w) : w.held options = .file w.attempted := by
  unfold World.held
  rw [h.target, ← h.content]

theorem Published.note (h : Published options w) : Published options (w.note options) where
  target := h.target
  content := h.content
  moments := by
    intro m hm
    rcases List.mem_append.mp hm with hm | hm
    · exact h.moments m hm
    · rw [List.mem_singleton.mp hm]
      exact .inr h.held
  exclusive hforce := by
    obtain ⟨hnone, hmoments⟩ := h.exclusive hforce
    refine ⟨hnone, fun m hm hsome => ?_⟩
    rcases List.mem_append.mp hm with hm | hm
    · exact hmoments m hm hsome
    · rw [List.mem_singleton.mp hm] at hsome
      exact absurd hnone hsome
  destroyed := h.destroyed

theorem Published.arrive (h : Published options w) (b : β) : Published options (w.arrive options b) := by
  rcases @arrive_cases β options w b with heq | ⟨hnone, -⟩
  · rwa [heq]
  · rw [h.target] at hnone
    cases hnone

theorem Published.link (h : Published options w) {name : Bytes} (hname : name ≠ options.target)
    (entry : Option (Entry β)) : Published options (w.link name entry) where
  target := (Function.update_of_ne hname.symm _ _).trans h.target
  content := h.content
  moments := h.moments
  exclusive := h.exclusive
  destroyed := h.destroyed

/-- The target becomes the file, all of which is written. -/
theorem Waiting.publish (h : Waiting options w) (hcontent : w.content = w.attempted)
    (habsent : options.force = false → w.undisturbed = none) :
    Published options (w.link options.target (some .temporary)) where
  target := Function.update_self _ _ _
  content := hcontent
  moments m hm := .inl (h.moments m hm)
  exclusive hforce := ⟨habsent hforce, fun m hm _ => h.moments m hm⟩
  destroyed := h.destroyed

theorem Kept.atomic (h : Kept options w) : Atomic options w := by
  rcases h with h | h
  · refine ⟨fun m hm => .inl (h.moments m hm), fun _ m hm _ => h.moments m hm, fun hdestroyed => ?_⟩
    rw [h.destroyed] at hdestroyed
    cases hdestroyed
  · exact ⟨h.moments, fun hforce => (h.exclusive hforce).2, fun _ => .inr (.inr h.held)⟩

end Moments

/-! ## System calls keep it -/

/-- What other processes, and the passing of events, leave. -/
structure Stable (P : World β → Prop) : Prop where
  arrive : ∀ w b, P w → P (w.arrive options b)
  events : ∀ w events, P w → P { w with events := events }

section Calls
variable {options} {P Q : World β → Prop} {effect : World β → World β}

theorem Stable.arrivals (h : Stable options P) (events : List (Event β)) :
    ∀ w, P w → P (arrivals options events w).2 := by
  induction events with
  | nil => exact fun w hw => h.events w [] hw
  | cons event events ih =>
    intro w hw
    cases event with
    | created b => exact ih _ (h.arrive w b hw)
    | answered answer => exact h.events w events hw

theorem triple_await (h : Stable options P) : Triple P (await options) (fun _ => P) fun _ => P := by
  intro w hw
  have hend := h.arrivals w.events w hw
  unfold await
  cases harrivals : Cli.arrivals options w.events w with
  | mk answer w' =>
    rw [harrivals] at hend
    cases answer with
    | none => exact hend
    | some answer => exact hend

/-- What a call leaves that did its effect, or failed. -/
def Called (P Q : World β → Prop) (answer : Answer) (w : World β) : Prop :=
  if answer.isDone then Q w else P w

theorem triple_call (h : Stable options P) (heffect : ∀ w, P w → Q ((effect w).note options)) :
    Triple P (call options effect) (Called P Q) fun _ => P := by
  unfold call
  apply Triple.bind (triple_await h)
  intro answer
  cases answer with
  | done count =>
    exact fun w hw => heffect w hw
  | interrupted => exact fun _ hw => hw
  | failed message => exact fun _ hw => hw

theorem triple_create (h : Stable options P) {name : Bytes}
    (heffect : ∀ w, P w → w.directory name = none → Q ((effect (w.link name (some .temporary))).note options)) :
    Triple P (create options name effect) (Called P Q) fun _ => P := by
  unfold create
  apply Triple.bind (triple_await h)
  intro answer
  cases answer with
  | done count =>
    apply Triple.get
    intro w hw
    cases hname : w.directory name with
    | none =>
      intro w' hw'
      subst hw'
      exact heffect _ hw hname
    | some entry =>
      intro w' hw'
      subst hw'
      exact hw
  | interrupted => exact fun _ hw => hw
  | failed message => exact fun _ hw => hw

theorem triple_require (message : String) (answer : Answer) :
    Triple (Called P Q answer) (require message answer) (fun _ => Q) fun _ => P := by
  unfold require Called
  cases answer.isDone with
  | true => exact fun _ hw => hw
  | false => exact fun _ hw => hw

/-- A call that must succeed. -/
theorem triple_required {x : Process β Answer} (message : String) (hx : Triple P x (Called P Q) fun _ => P) :
    Triple P (x >>= require message) (fun _ => Q) fun _ => P :=
  Triple.bind hx fun answer => triple_require message answer

/-- A call without an effect. -/
theorem triple_quiet (h : Stable options P) (hnote : ∀ w, P w → P (w.note options)) :
    Triple P (call options id) (fun _ => P) fun _ => P := by
  refine (triple_call (Q := P) h hnote).conseq (fun _ h => h) ?_ fun _ _ h => h
  intro answer w hw
  unfold Called at hw
  split_ifs at hw
  · exact hw
  · exact hw

theorem triple_raise (message : String) (answer : Answer) :
    Triple P (require message answer) (fun _ => P) fun _ => P := by
  unfold require
  split_ifs
  · exact fun _ hw => hw
  · exact fun _ hw => hw

end Calls

/-! ## Before anything is published -/

section Stream
variable {options}

/-- `more` is still to be put into the buffer. -/
def Streamed (more : Bytes) (w : World β) : Prop := w.content ++ (w.pending ++ more) = w.attempted

variable (options) in
def Writing (more : Bytes) (w : World β) : Prop := Waiting options w ∧ Streamed more w

theorem arrive_streamed {w : World β} {more : Bytes} (b : β) (h : Streamed more w) :
    Streamed more (w.arrive options b) := by
  rcases @arrive_cases β options w b with heq | ⟨-, heq⟩
  · rwa [heq]
  · rw [heq]
    exact h

theorem stable_waiting : Stable (β := β) options (Waiting options) where
  arrive _ b h := h.arrive b
  events _ _ h := ⟨h.target, h.moments, h.committed, h.destroyed⟩

theorem stable_writing (more : Bytes) : Stable (β := β) options (Writing options more) where
  arrive _ b h := ⟨h.1.arrive b, arrive_streamed b h.2⟩
  events _ events h := ⟨stable_waiting.events _ events h.1, h.2⟩

/-- All of `pending` is written, or the target is as it was. -/
theorem writePending_streamed (events : List (Event β)) : ∀ (pending more : Bytes) (w : World β), Waiting options w →
    w.content ++ (pending ++ more) = w.attempted →
    match writePending options pending events w with
    | .ok true w' => Writing options more w' ∧ w'.pending = []
    | .ok false w' => Waiting options w'
    | .error _ w' => Waiting options w' := by
  induction events with
  | nil =>
    intro pending more w hw hstreamed
    cases pending with
    | nil => exact ⟨⟨⟨hw.target, hw.moments, hw.committed, hw.destroyed⟩, hstreamed⟩, rfl⟩
    | cons c pending => exact ⟨hw.target, hw.moments, hw.committed, hw.destroyed⟩
  | cons event events ih =>
    intro pending more w hw hstreamed
    cases pending with
    | nil => exact ⟨⟨⟨hw.target, hw.moments, hw.committed, hw.destroyed⟩, hstreamed⟩, rfl⟩
    | cons c pending =>
      cases event with
      | created b =>
        apply ih (c :: pending) more (w.arrive options b) (hw.arrive b)
        rcases @arrive_cases β options w b with heq | ⟨-, heq⟩
        · rwa [heq]
        · rw [heq]
          exact hstreamed
      | answered answer =>
        cases answer with
        | done count =>
          apply ih _ more
          · apply Waiting.note
            exact ⟨hw.target, hw.moments, hw.committed, hw.destroyed⟩
          · show w.content ++ (c :: pending).take count ++ ((c :: pending).drop count ++ more) = w.attempted
            rw [List.append_assoc, ← List.append_assoc ((c :: pending).take count), List.take_append_drop]
            exact hstreamed
        | interrupted => exact ih (c :: pending) more w hw hstreamed
        | failed message => exact ⟨hw.target, hw.moments, hw.committed, hw.destroyed⟩

variable (options) in
/-- Behind a step of the buffer: all went well, or the stream is about to fail. -/
def Taken (more : Bytes) (ok : Bool) (w : World β) : Prop := Waiting options w ∧ (ok = true → Streamed more w)

theorem triple_flushPending (more : Bytes) :
    Triple (Writing (β := β) options more) (flushPending options)
      (fun ok w => Waiting options w ∧ (ok = true → Streamed more w ∧ w.pending = [])) fun _ => Waiting options := by
  intro w hw
  have hend := writePending_streamed w.events w.pending more w hw.1 hw.2
  unfold flushPending
  cases hrun : writePending options w.pending w.events w with
  | error e w' =>
    rw [hrun] at hend
    exact hend
  | ok ok w' =>
    rw [hrun] at hend
    cases ok with
    | true => exact ⟨hend.1.1, fun _ => ⟨hend.1.2, hend.2⟩⟩
    | false => exact ⟨hend, nofun⟩

/-- One octet is put into the buffer. -/
theorem Streamed.push {w : World β} {c : Byte} {more : Bytes} (h : Streamed (c :: more) w) :
    Streamed more { w with pending := w.pending ++ [c] } := by
  show w.content ++ (w.pending ++ [c] ++ more) = w.attempted
  rw [List.append_assoc]
  exact h

theorem triple_sputc (c : Byte) (more : Bytes) :
    Triple (Writing (β := β) options (c :: more)) (sputc options c) (Taken options more)
      fun _ => Waiting options := by
  unfold sputc
  apply Triple.get
  intro w hw
  by_cases hroom : w.pending.length < bufferSize
  · rw [if_pos hroom]
    intro w' hw'
    subst hw'
    exact ⟨⟨hw.1.target, hw.1.moments, hw.1.committed, hw.1.destroyed⟩, fun _ => hw.2.push⟩
  · rw [if_neg hroom]
    intro w' hw'
    subst hw'
    refine Triple.bind (triple_flushPending (c :: more)) (fun ok => ?_) w' hw
    cases ok with
    | true =>
      intro u hu
      exact ⟨⟨hu.1.target, hu.1.moments, hu.1.committed, hu.1.destroyed⟩, fun _ => (hu.2 rfl).1.push⟩
    | false => exact fun u hu => ⟨hu.1, nofun⟩

theorem triple_sputn (data more : Bytes) :
    Triple (Writing (β := β) options (data ++ more)) (sputn options data)
      (Taken options more) fun _ => Waiting options := by
  induction data with
  | nil => exact fun w hw => ⟨hw.1, fun _ => hw.2⟩
  | cons c data ih =>
    rw [sputn]
    apply Triple.bind (triple_sputc c (data ++ more))
    intro ok
    cases ok with
    | true => exact ih.conseq (fun w hw => ⟨hw.1, hw.2 rfl⟩) (fun _ _ h => h) fun _ _ h => h
    | false => exact fun w hw => ⟨hw.1, nofun⟩

variable (options) in
/-- Between two steps of the stream. -/
def Ready (w : World β) : Prop := Waiting options w ∧ (w.good = true → Streamed [] w)

theorem triple_setGood (ok : Bool) :
    Triple (Taken (β := β) options [] ok) (modify fun w => { w with good := ok } : Process β Unit)
      (fun _ => Ready options) fun _ => Waiting options := by
  intro w hw
  exact ⟨⟨hw.1.target, hw.1.moments, hw.1.committed, hw.1.destroyed⟩, hw.2⟩

theorem triple_write (data : Bytes) :
    Triple (Ready (β := β) options) (write options data) (fun _ => Ready options)
      fun _ => Waiting options := by
  unfold write
  intro w hw
  rw [run_bind, run_modify]
  dsimp only
  rw [run_bind, run_get]
  dsimp only
  have hwaiting : Waiting options { w with attempted := w.attempted ++ data } :=
    ⟨hw.1.target, hw.1.moments, hw.1.committed, hw.1.destroyed⟩
  by_cases hgood : w.good = true
  · rw [if_pos hgood]
    refine Triple.bind (triple_sputn data []) triple_setGood _ ⟨hwaiting, ?_⟩
    have hstreamed := hw.2 hgood
    show w.content ++ (w.pending ++ (data ++ [])) = w.attempted ++ data
    unfold Streamed at hstreamed
    rw [← hstreamed, List.append_nil, List.append_nil, List.append_assoc]
  · rw [if_neg hgood]
    exact ⟨hwaiting, fun htrue => absurd htrue hgood⟩

variable (options) in
/-- A flushed stream has an empty buffer while it is good. -/
def Flushed (w : World β) : Prop := Ready options w ∧ (w.good = true → w.pending = [])

theorem triple_flush :
    Triple (Ready (β := β) options) (flush options) (fun _ => Flushed options)
      fun _ => Waiting options := by
  unfold flush
  apply Triple.get
  intro w hw
  by_cases hgood : w.good = true
  · rw [if_pos hgood]
    intro w' hw'
    subst hw'
    refine Triple.bind (triple_flushPending []) (fun ok => ?_) w' ⟨hw.1, hw.2 hgood⟩
    intro u hu
    exact ⟨⟨⟨hu.1.target, hu.1.moments, hu.1.committed, hu.1.destroyed⟩, fun hok => (hu.2 hok).1⟩,
      fun hok => (hu.2 hok).2⟩
  · rw [if_neg hgood]
    intro w' hw'
    subst hw'
    exact ⟨hw, fun htrue => absurd htrue hgood⟩

/-- Whatever writes to the stream leaves the target alone. -/
theorem triple_producer (producer : Producer) :
    Triple (Ready (β := β) options) (producer.run options) (fun _ => Ready options)
      fun _ => Waiting options := by
  induction producer with
  | done success => exact fun _ hw => hw
  | throw what => exact fun _ hw => hw.1
  | write data next ih =>
    rw [Producer.run]
    apply Triple.bind (triple_write data)
    intro _
    apply Triple.get
    intro w hw w' hw'
    subst hw'
    exact ih w'.good w' hw
  | flush next ih =>
    rw [Producer.run]
    apply Triple.bind triple_flush
    intro _
    apply Triple.get
    intro w hw w' hw'
    subst hw'
    exact ih w'.good w' hw.1

end Stream

/-! ## The steps of `AtomicOutput` -/

section Steps
variable {options} (hname : options.temporary ≠ options.target)

variable (options) in
/-- The file is complete, and nothing is published. -/
def Complete (w : World β) : Prop := Waiting options w ∧ w.content = w.attempted

theorem arrive_complete {w : World β} (b : β) (h : Complete options w) :
    Complete options (w.arrive options b) := by
  refine ⟨h.1.arrive b, ?_⟩
  rcases @arrive_cases β options w b with heq | ⟨-, heq⟩
  · rw [heq]
    exact h.2
  · rw [heq]
    exact h.2

theorem stable_complete : Stable (β := β) options (Complete options) where
  arrive _ b h := arrive_complete b h
  events _ events h := ⟨stable_waiting.events _ events h.1, h.2⟩

theorem stable_published : Stable (β := β) options (Published options) where
  arrive _ b h := h.arrive b
  events _ _ h := ⟨h.target, h.content, h.moments, h.exclusive, h.destroyed⟩

theorem Complete.note {w : World β} (h : Complete options w) :
    Complete options (w.note options) := ⟨h.1.note, h.2⟩

theorem triple_flushFile :
    Triple (Ready (β := β) options) (flushFile options) (fun _ => Complete options)
      fun _ => Waiting options := by
  unfold flushFile
  apply Triple.bind triple_flush
  intro _
  apply Triple.get
  intro w hw w' hw'
  subst hw'
  by_cases hgood : w'.good = true
  · rw [if_pos hgood]
    refine ⟨hw.1.1, ?_⟩
    have hstreamed := hw.1.2 hgood
    unfold Streamed at hstreamed
    rwa [hw.2 hgood, List.append_nil, List.append_nil] at hstreamed
  · rw [if_neg hgood]
    exact hw.1.1

theorem triple_finishFile :
    Triple (Ready (β := β) options) (finishFile options) (fun _ => Complete options)
      fun _ => Waiting options := by
  have hwaiting : ∀ w : World β, Complete options w → Waiting options w := fun w hw => hw.1
  have hcall : Triple (Complete (β := β) options) (call options id)
      (fun _ => Complete options) fun _ => Waiting options :=
    (triple_quiet stable_complete fun _ => Complete.note).conseq (fun _ h => h) (fun _ _ h => h) fun _ => hwaiting
  have hraise : ∀ message answer, Triple (Complete (β := β) options) (require message answer)
      (fun _ => Complete options) fun _ => Waiting options :=
    fun message answer => (triple_raise message answer).conseq (fun _ h => h) (fun _ _ h => h) fun _ => hwaiting
  have hset : ∀ f : World β → World β, (∀ w, Complete options w → Complete options (f w)) →
      Triple (Complete options) (modify f : Process β Unit) (fun _ => Complete options)
        fun _ => Waiting options := fun f hf => Triple.modify hf
  unfold finishFile
  apply Triple.bind triple_flushFile
  intro _
  apply Triple.bind hcall
  intro synced
  apply Triple.bind (hraise _ synced)
  intro _
  apply Triple.bind (hset detach fun w hw => ⟨⟨hw.1.target, hw.1.moments, hw.1.committed, hw.1.destroyed⟩, hw.2⟩)
  intro _
  apply Triple.bind hcall
  intro closed
  apply Triple.bind (hset (fun w => { w with descriptor := false }) fun w hw =>
    ⟨⟨hw.1.target, hw.1.moments, hw.1.committed, hw.1.destroyed⟩, hw.2⟩)
  exact fun _ => hraise _ closed

include hname in
theorem triple_publish :
    Triple (Complete (β := β) options) (publish options) (fun _ => Published options)
      fun _ => Kept options := by
  have hwaiting : ∀ w : World β, Complete options w → Kept options w := fun w hw => .inl hw.1
  unfold publish
  by_cases hforce : options.force = true
  · rw [if_pos hforce]
    refine (triple_required _ ?_).conseq (fun _ h => h) (fun _ _ h => h) fun _ => hwaiting
    refine triple_call stable_complete fun w hw => Published.note ?_
    refine Waiting.publish (hw.1.link hname none) hw.2 fun hfalse => ?_
    rw [hforce] at hfalse
    cases hfalse
  · rw [if_neg hforce]
    apply Triple.bind (Q := fun answer => Called (Complete options) (Published options) answer)
    · refine (triple_create stable_complete fun w hw hnone => ?_).conseq (fun _ h => h) (fun _ _ h => h) fun _ => hwaiting
      apply Published.note
      apply Waiting.publish hw.1 hw.2
      intro _
      rw [hw.1.target] at hnone
      exact Option.map_eq_none_iff.mp hnone
    · intro linked
      apply Triple.bind ((triple_require _ linked).conseq (fun _ h => h) (fun _ _ h => h) fun _ => hwaiting)
      intro _
      refine (triple_required _ ?_).conseq (fun _ h => h) (fun _ _ h => h) fun _ _ h => .inr h
      exact triple_call stable_published fun w hw => (hw.link hname none).note

theorem triple_syncParent :
    Triple (Published (β := β) options) (syncParent options) (fun _ => Published options) fun _ => Published options := by
  have hcall := triple_quiet (@stable_published β options) fun _ => Published.note
  unfold syncParent
  apply Triple.bind hcall
  intro opened
  apply Triple.bind (triple_raise _ opened)
  intro _
  apply Triple.bind hcall
  intro synced
  apply Triple.bind hcall
  intro closed
  apply Triple.bind (triple_raise _ synced)
  exact fun _ => triple_raise _ closed

include hname in
theorem triple_commit :
    Triple (Ready (β := β) options) (commit options) (fun _ => Published options)
      fun _ => Kept options := by
  unfold commit
  apply Triple.bind (triple_finishFile.conseq (fun _ h => h) (fun _ _ h => h) fun _ _ h => .inl h)
  intro _
  apply Triple.bind (triple_publish hname)
  intro _
  apply Triple.bind (triple_syncParent.conseq (fun _ h => h) (fun _ _ h => h) fun _ _ h => .inr h)
  intro _ w hw
  exact ⟨hw.target, hw.content, hw.moments, hw.exclusive, hw.destroyed⟩

include hname in
theorem triple_produce (producer : Producer) :
    Triple (Ready (β := β) options) (produce options producer) (fun _ => Published options)
      fun _ => Kept options := by
  unfold produce
  apply Triple.bind ((triple_producer producer).conseq (fun _ h => h) (fun _ _ h => h) fun _ _ h => .inl h)
  intro success
  exact Triple.bind (triple_commit hname) fun _ _ h => h

/-! ## Construction and destruction -/

theorem triple_inspect (resolves : β → Bool) {P : World β → Prop} (h : Stable options P) :
    Triple P (inspect options resolves) (fun _ => P) fun _ => P := by
  unfold inspect
  split_ifs
  · exact fun _ hw => hw
  · apply Triple.bind (triple_await h)
    intro answer
    apply Triple.get
    intro w hw w' hw'
    subst hw'
    cases answer with
    | done count =>
      cases w'.held options with
      | other b =>
        dsimp only
        split_ifs
        · exact hw
        · exact hw
      | absent => exact hw
      | file content => exact hw
    | interrupted => exact hw
    | failed message => exact hw

theorem stable_ready : Stable (β := β) options (Ready options) where
  arrive w b h := by
    refine ⟨h.1.arrive b, ?_⟩
    rcases @arrive_cases β options w b with heq | ⟨-, heq⟩
    · rw [heq]
      exact h.2
    · rw [heq]
      exact h.2
  events _ events h := ⟨stable_waiting.events _ events h.1, h.2⟩

include hname in
theorem triple_secure :
    Triple (Ready (β := β) options) (secure options) (fun _ => Ready options)
      fun _ => Waiting options := by
  have hquiet := (triple_quiet (@stable_ready β options) fun w hw => ⟨hw.1.note, hw.2⟩).conseq
    (fun _ h => h) (fun _ _ h => h) fun _ _ h => h.1
  unfold secure
  apply Triple.bind hquiet
  intro secured
  split_ifs
  · exact fun _ hw => hw
  · apply Triple.bind hquiet
    intro _
    apply Triple.bind (Q := fun _ => Ready options)
    · exact Triple.modify fun w hw => ⟨⟨hw.1.target, hw.1.moments, hw.1.committed, hw.1.destroyed⟩, hw.2⟩
    · intro _
      apply Triple.bind (Q := fun _ => Ready options)
      · refine (triple_call (Q := Ready options) stable_ready fun w hw => ?_).conseq (fun _ h => h) ?_
          fun _ _ h => h.1
        · exact ⟨(hw.1.link hname none).note, hw.2⟩
        · intro answer w hw
          unfold Called at hw
          split_ifs at hw
          · exact hw
          · exact hw
      · exact fun _ => (triple_raise _ secured).conseq (fun _ h => h) (fun _ _ h => h) fun _ _ h => h.1

include hname in
theorem triple_construct (resolves : β → Bool) :
    Triple (Ready (β := β) options) (construct options resolves) (fun _ => Ready options)
      fun _ => Waiting options := by
  unfold construct
  apply Triple.bind ((triple_inspect resolves stable_ready).conseq (fun _ h => h) (fun _ _ h => h) fun _ _ h => h.1)
  intro _
  apply Triple.bind (Q := fun answer => Called (Ready options) (Ready options) answer)
  · refine (triple_create stable_ready fun w hw _ => ?_).conseq (fun _ h => h) (fun _ _ h => h) fun _ _ h => h.1
    refine ⟨?_, hw.2⟩
    have hlink := hw.1.link hname (some .temporary)
    exact (show Waiting options { w.link options.temporary (some .temporary) with descriptor := true } from
      ⟨hlink.target, hlink.moments, hlink.committed, hlink.destroyed⟩).note
  · intro created
    apply Triple.bind ((triple_require _ created).conseq (fun _ h => h) (fun _ _ h => h) fun _ _ h => h.1)
    exact fun _ => triple_secure hname

theorem stable_kept : Stable (β := β) options (Kept options) where
  arrive _ b h := h.imp (fun h => h.arrive b) fun h => h.arrive b
  events _ events h := h.imp (stable_waiting.events _ events) (stable_published.events _ events)

theorem Kept.note {w : World β} (h : Kept options w) : Kept options (w.note options) :=
  h.imp Waiting.note Published.note

variable (options) in
/-- The destructor but for its last word. -/
structure Removed (w : World β) : Prop where
  kept : Kept options w
  cleaned : w.leftover = true ∨ w.directory options.temporary = none ∨ w.held options = .file w.attempted

theorem triple_closeDescriptor :
    Triple (Kept (β := β) options) (closeDescriptor options) (fun _ => Kept options) fun _ => Kept options := by
  unfold closeDescriptor
  apply Triple.get
  intro w hw w' hw'
  subst hw'
  split_ifs
  · exact Triple.bind (triple_quiet stable_kept fun _ => Kept.note) (fun _ _ h => h) w' hw
  · exact hw

include hname in
theorem triple_removeTemporary :
    Triple (Kept (β := β) options) (removeTemporary options) (fun _ => Removed options)
      fun _ => Kept options := by
  unfold removeTemporary
  apply Triple.get
  intro w hw w' hw'
  subst hw'
  split_ifs with hcommitted
  · refine ⟨hw, .inr (.inr ?_)⟩
    rcases hw with h | h
    · rw [h.committed] at hcommitted
      cases hcommitted
    · exact h.held
  · have hcall : Triple (Kept (β := β) options) (unlink options)
        (Called (Kept options) fun w => Kept options w ∧ w.directory options.temporary = none) fun _ => Kept options := by
      refine triple_call stable_kept fun w hw => ⟨Kept.note ?_, Function.update_self _ _ _⟩
      exact hw.imp (fun h => h.link hname none) fun h => h.link hname none
    refine Triple.bind hcall (fun unlinked u hu => ?_) w' hw
    have hkept : ∀ leftover, Kept options u → Kept options { u with leftover := leftover } := fun leftover h =>
      h.imp (fun h => ⟨h.target, h.moments, h.committed, h.destroyed⟩)
        fun h => ⟨h.target, h.content, h.moments, h.exclusive, h.destroyed⟩
    unfold Called at hu
    split_ifs at hu with hdone
    · exact ⟨hkept _ hu.1, .inr (.inl hu.2)⟩
    · refine ⟨hkept _ hu, .inl ?_⟩
      show (!unlinked.isDone) = true
      rw [Bool.eq_false_iff.mpr hdone]
      rfl

include hname in
theorem triple_destroy :
    Triple (Kept (β := β) options) (destroy options) (fun _ => Atomic options) fun _ => Atomic options := by
  have hatomic : ∀ w : World β, Kept options w → Atomic options w := fun w hw => hw.atomic
  unfold destroy
  apply Triple.bind (Q := fun _ => Kept options)
  · refine Triple.modify fun w hw => hw.imp (fun h => ⟨h.target, h.moments, h.committed, h.destroyed⟩) ?_
    exact fun h => ⟨h.target, h.content, h.moments, h.exclusive, h.destroyed⟩
  · intro _
    apply Triple.bind (triple_closeDescriptor.conseq (fun _ h => h) (fun _ _ h => h) fun _ => hatomic)
    intro _
    apply Triple.bind ((triple_removeTemporary hname).conseq (fun _ h => h) (fun _ _ h => h) fun _ => hatomic)
    intro _ w hw
    have hkept := hw.kept.atomic
    exact ⟨hkept.held, hkept.exclusive, fun _ => hw.cleaned⟩

include hname in
theorem triple_runOutput (resolves : β → Bool) (producer : Producer) :
    Triple (Ready (β := β) options) (runOutput options resolves producer) (fun _ => Atomic options)
      fun _ => Atomic options := by
  unfold runOutput
  apply Triple.bind ((triple_construct hname resolves).conseq (fun _ h => h) (fun _ _ h => h) fun _ _ h =>
    Kept.atomic (.inl h))
  intro _
  apply Triple.bind (Q := fun _ => Kept options)
  · have hproduce : Triple (Ready (β := β) options) (produce options producer) (fun _ => Kept options)
        fun _ => Kept options :=
      (triple_produce hname producer).conseq (fun _ h => h) (fun _ _ h => .inr h) fun _ _ h => h
    refine Triple.tryCatch hproduce fun e => ?_
    cases e with
    | stopped => exact fun _ hw => hw.atomic
    | error what => exact Triple.bind (triple_destroy hname) fun _ _ h => h
  · intro success
    exact Triple.bind (triple_destroy hname) fun _ _ h => h

theorem ready_start (initial : Bytes → Option β) (events : List (Event β)) :
    Ready options (World.start options initial events) :=
  ⟨Waiting.note ⟨rfl, fun _ hm => absurd hm List.not_mem_nil, rfl, rfl⟩, fun _ => rfl⟩

end Steps

/-! ## The result -/

/-- Whatever is written, whatever the calls answer and whenever another process creates the target: it holds what it
would hold without this run or the complete stream, and the latter where `commit` has returned. -/
theorem atomic_output (resolves : β → Bool) (producer : Producer) (initial : Bytes → Option β)
    (events : List (Event β)) (hname : options.temporary ≠ options.target) :
    Atomic options (final (runOutput options resolves producer) (World.start options initial events)) ∧
    ∀ success w, (construct options resolves >>= fun _ => produce options producer)
      (World.start options initial events) = .ok success w → w.held options = .file w.attempted := by
  have hready := @ready_start β options initial events
  constructor
  · unfold final
    cases hrun : runOutput options resolves producer (World.start options initial events) with
    | ok success w => exact (triple_runOutput hname resolves producer).ok hready hrun
    | error e w => exact (triple_runOutput hname resolves producer).error hready hrun
  · intro success w hrun
    obtain ⟨_, w', hconstruct, hproduce⟩ := bind_ok.mp hrun
    have hw' := (triple_construct hname resolves).ok hready hconstruct
    exact ((triple_produce hname producer).ok hw' hproduce).held

end Process

/-- A run without `force` whose file is written in two parts. -/
def successEvents : List (Event Unit) :=
  [.answered (.done 0), .answered (.done 0), .answered (.done 0), .answered (.done 1), .answered .interrupted,
    .answered (.done 1), .answered (.done 0), .answered (.done 0), .answered (.done 0), .answered (.done 0),
    .answered (.done 0), .answered (.done 0), .answered (.done 0)]

theorem atomic_output_twoOctets :
    let options := Options.mk (ascii "out.ndjson") false (ascii "aaaaaa")
    let producer := Producer.write (ascii "ab") fun _ => .done true
    let start := World.start options (fun _ => none) successEvents
    (final (runOutput options (fun _ => true) producer) start).held options = .file (ascii "ab") ∧
    Atomic options (final (runOutput options (fun _ => true) producer) start) ∧
    ∀ success w, (construct options (fun _ => true) >>= fun _ => produce options producer) start = .ok success w →
      w.held options = .file w.attempted := by
  intro options producer start
  refine ⟨by decide, ?_⟩
  exact atomic_output options (fun _ => true) producer (fun _ => none) successEvents (by decide)

/-- Where `mkstemp` picks the name of the target, which is absent, that holds an empty file for a while. -/
theorem ownName_not_atomic :
    let options := Options.mk (ascii ".getbiblesword.tmp.aaaaaa") false (ascii "aaaaaa")
    let producer := Producer.write (ascii "ab") fun _ => .done true
    ¬ Atomic options (final (runOutput options (fun _ => true) producer)
      (World.start options (fun _ => none) successEvents)) := by
  intro options producer hatomic
  have hheld := hatomic.held ⟨.file [], none⟩ (by decide)
  revert hheld
  decide

end GetBibleSword.Cli
