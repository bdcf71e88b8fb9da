import GetBibleSword.Tool.Confinement

/-!
# A reassembly that fails

Where it fails before the rename, the handler puts everything back, unless the descriptor of an artifact cannot be
closed or the stage cannot be removed.

* `Spoilt` : a call of these has failed, or one behind the rename;
* `Held` : the descriptor that is left is open; `triple_held_lines` : the loop keeps it, or is spoilt;
* `triple_publish_held` : behind the rename only calls that fail end the run;
* `triple_restore` : the handler; `Restores` : the tree is there, or everything is as before.
-/

namespace GetBibleSword.Tool
open GetBibleSword.Lib Posix

/-! ## Failed calls -/

section Spoilt
variable (env : Env) (before : List Syscall)

/-- A call behind these has failed that is a close or the removal, or comes behind the rename. -/
def Spoilt (k : Kernel) : Prop :=
  ∃ n call, before.length ≤ n ∧ k.calls[n]? = some call ∧ env.faults n ≠ none ∧
    (call = .close ∨ call = .remove ∨ .rename ∈ (k.calls.take n).drop before.length)

variable {env before} {k k' : Kernel}

theorem Spoilt.mono (h : Spoilt env before k) (hcalls : k.calls <+: k'.calls) : Spoilt env before k' := by
  obtain ⟨n, call, hn, hcall, hfault, hkind⟩ := h
  obtain ⟨more, hmore⟩ := hcalls
  have hlength : n < k.calls.length := (List.getElem?_eq_some_iff.mp hcall).1
  refine ⟨n, call, hn, ?_, hfault, hkind.imp_right fun hkind => hkind.imp_right fun hrename => ?_⟩
  · rw [← hmore, List.getElem?_append_left hlength, hcall]
  · rwa [← hmore, List.take_append_of_le_length hlength.le]

theorem Spoilt.of_tick {call : Syscall} (hbegan : k.Began before) (hcalls : k'.calls = k.calls ++ [call])
    (hfault : env.faults k.calls.length ≠ none)
    (hkind : call = .close ∨ call = .remove ∨ .rename ∈ k.calls.drop before.length) : Spoilt env before k' := by
  refine ⟨k.calls.length, call, hbegan.length_le, ?_, hfault, hkind.imp_right fun hkind => hkind.imp_right fun hrename => ?_⟩
  · rw [hcalls, List.getElem?_concat_length]
  · rwa [hcalls, List.take_left]

end Spoilt

/-! ## The descriptor that is left -/

section Held
variable {env : Env} {request : Request} {artifacts : List Artifact} {before : List Syscall} {s t : Locals}

variable (before) in
structure Held (s : Locals) : Prop where
  closable : Closable s
  began : s.kernel.Began before

theorem keeps_held_system {α : Type} {call : Call α} (h : ∀ {calls}, Keeps (Kernel.Began calls) call fun _ => True) :
    Keeps (Held before) (system call) fun _ => True := by
  intro s hs
  have hcall := h s.kernel hs.began
  unfold system
  cases hrun : call s.kernel with
  | ok a k =>
    rw [hrun] at hcall
    exact ⟨trivial, hs.closable, hcall.2⟩
  | error error k =>
    rw [hrun] at hcall
    exact ⟨hs.closable, hcall⟩

theorem keeps_python {α : Type} {I : Locals → Prop} (x : Except PyError α) : Keeps I (python x) fun _ => True := by
  cases x with
  | ok a => exact Keeps.pure trivial
  | error error => exact Keeps.throw _

theorem keeps_recordId {I : Locals → Prop} (record : Dict) : Keeps I (recordId record) fun _ => True := by
  refine Keeps.bind (keeps_python _) fun value _ => ?_
  cases int value with
  | none => exact Keeps.throw _
  | some artifactId => exact Keeps.pure trivial

theorem keeps_artifactById {I : Locals → Prop} (artifactId : Int) :
    Keeps I (artifactById artifacts artifactId) fun _ => True := by
  unfold artifactById
  cases findArtifact artifacts artifactId with
  | none => exact Keeps.throw _
  | some a => exact Keeps.pure trivial

theorem keeps_held_begin (record : Dict) : Keeps (Held before) (beginArtifact env request artifacts record) fun _ => True := by
  refine Keeps.bind (keeps_recordId record) fun activeId _ => ?_
  refine Keeps.bind (Keeps.modify fun s hs => ⟨hs.closable, hs.began⟩) fun _ _ => ?_
  refine Keeps.bind (keeps_artifactById activeId) fun artifact _ => ?_
  refine Keeps.bind (keeps_held_system (keeps_makedirs _ _ _)) fun _ _ => ?_
  cases artifact.fileType with
  | directory =>
    exact Keeps.bind (keeps_held_system (keeps_makedirs _ _ _)) fun _ _ => Keeps.modify fun s hs => ⟨hs.closable, hs.began⟩
  | regular =>
    refine Keeps.bind (keeps_held_system (keeps_addEntry _ _ _ _)) fun descriptor _ => Keeps.modify fun s hs => ⟨?_, hs.began⟩
    exact fun d hd => Option.some.inj hd ▸ List.mem_cons_self
  | symlink => exact Keeps.bind (keeps_python _) fun target _ => keeps_held_system (keeps_symlink _ _)

theorem keeps_writeAll {calls : List Syscall} (loc : Loc) (fuel : Nat) : ∀ {data : Bytes},
    Keeps (Kernel.Began calls) (writeAll env loc fuel data) fun _ => True := by
  induction fuel with
  | zero => exact fun {data} => Keeps.pure trivial
  | succ fuel ih =>
    intro data
    rw [writeAll]
    by_cases hdata : data = []
    · rw [if_pos hdata]
      exact Keeps.pure trivial
    · rw [if_neg hdata]
      refine Keeps.bind (keeps_writeSome _ _) fun written _ => ?_
      by_cases hwritten : written = 0
      · rw [if_pos hwritten]
        exact Keeps.throw _
      · rw [if_neg hwritten]
        exact ih

theorem keeps_held_chunk (record : Dict) (lineNumber : Nat) :
    Keeps (Held before) (writeChunk env record lineNumber) fun _ => True := by
  refine Keeps.bind Keeps.get fun s _ => ?_
  cases s.fileDescriptor with
  | none => exact Keeps.throw _
  | some descriptor =>
    refine Keeps.bind (keeps_recordId record) fun artifactId _ => ?_
    by_cases hactive : s.activeId ≠ some artifactId
    · rw [if_pos hactive]
      exact Keeps.throw _
    · rw [if_neg hactive]
      exact Keeps.bind (keeps_python _) fun data _ => keeps_held_system (keeps_writeAll _ _)

/-- An open descriptor is closed, or closing it fails. -/
theorem triple_held_close {descriptor : Loc} (hopen : descriptor ∈ s.descriptors) (hbegan : s.kernel.Began before) :
    Triple (fun t => t = s) (close env descriptor)
      (fun _ t => ∃ k : Kernel, k.Began before ∧ t = { s with kernel := k, descriptors := s.descriptors.erase descriptor })
      fun _ t => Spoilt env before t.kernel := by
  apply Triple.get
  intro s' hs'
  subst hs'
  refine Triple.bind (Q := fun _ t => t = { s' with descriptors := s'.descriptors.erase descriptor })
    (fun t ht => by rw [ht]; rfl) fun _ t ht => ?_
  subst ht
  have htick := @triple_tick_made env .close s'.kernel s'.kernel rfl
  rw [run_bind]
  unfold system
  dsimp only
  cases hrun : tick env .close s'.kernel with
  | error error k =>
    rw [hrun] at htick
    exact Spoilt.of_tick hbegan htick.2 (by rw [htick.1]; exact Option.some_ne_none _) (.inl rfl)
  | ok u k =>
    rw [hrun] at htick
    dsimp only
    rw [if_pos (List.contains_iff_mem.mpr hopen)]
    exact ⟨k, hbegan.trans (htick.2 ▸ List.prefix_append _ _), rfl⟩

theorem triple_began_system {α : Type} {call : Call α} (h : ∀ {calls}, Keeps (Kernel.Began calls) call fun _ => True)
    (hbegan : s.kernel.Began before) :
    Triple (fun t => t = s) (system call) (fun _ t => ∃ k : Kernel, k.Began before ∧ t = { s with kernel := k })
      fun _ t => ∃ k : Kernel, k.Began before ∧ t = { s with kernel := k } := by
  intro t ht
  subst ht
  have hcall := h t.kernel hbegan
  unfold system
  cases hrun : call t.kernel with
  | ok a k =>
    rw [hrun] at hcall
    exact ⟨k, hcall.2, rfl⟩
  | error error k =>
    rw [hrun] at hcall
    exact ⟨k, hcall, rfl⟩

variable (env before) in
/-- How a step that fails leaves things. -/
def Left (s : Locals) : Prop := Held before s ∨ Spoilt env before s.kernel

theorem triple_held_finish (artifact : Artifact) :
    Triple (Held before) (finishFile env request artifact) (fun _ => Held before) fun _ => Left env before := by
  apply Triple.get
  intro s hs
  cases hdescriptor : s.fileDescriptor with
  | none => exact Triple.pure fun t ht => ht ▸ hs
  | some descriptor =>
    dsimp only
    have hopen := hs.closable descriptor hdescriptor
    refine Triple.bind ((triple_began_system (keeps_tick _) hs.began).conseq (fun _ h => h) (fun _ _ h => h) ?_)
      fun _ => Triple.each fun t ht => ?_
    · intro _ t ht
      obtain ⟨k, hk, rfl⟩ := ht
      exact .inl ⟨hs.closable, hk⟩
    obtain ⟨k, hk, rfl⟩ := ht
    refine Triple.bind ((triple_began_system (keeps_changeMode _ _) hk).conseq (fun _ h => h) (fun _ _ h => h) ?_)
      fun _ => Triple.each fun t ht => ?_
    · intro _ t ht
      obtain ⟨k', hk', rfl⟩ := ht
      exact .inl ⟨hs.closable, hk'⟩
    obtain ⟨k', hk', rfl⟩ := ht
    refine Triple.bind ((triple_held_close (s := { s with kernel := k' }) hopen hk').conseq (fun _ h => h) (fun _ _ h => h) fun _ _ h => .inr h)
      fun _ => Triple.modify fun t ht => ?_
    obtain ⟨k'', hk'', rfl⟩ := ht
    exact ⟨nofun, hk''⟩

theorem triple_held_end (record : Dict) :
    Triple (Held before) (endArtifact env request artifacts record) (fun _ => Held before) fun _ => Left env before := by
  refine Triple.bind ((keeps_recordId record).triple.conseq (fun _ h => h) (fun _ _ h => h) fun _ _ h => .inl h)
    fun artifactId => ?_
  refine Triple.bind ((keeps_artifactById artifactId).triple.conseq (fun _ h => h.2) (fun _ _ h => h) fun _ _ h => .inl h)
    fun artifact => ?_
  refine Triple.bind ((triple_held_finish artifact).conseq (fun _ h => h.2) (fun _ _ h => h) fun _ _ h => h) fun _ => ?_
  exact Triple.modify fun s hs => ⟨hs.closable, hs.began⟩

theorem triple_held_line (rawLine : Bytes) (lineNumber : Nat) :
    Triple (Held before) (reassembleLine env request artifacts rawLine lineNumber) (fun _ => Held before)
      fun _ => Left env before := by
  refine Triple.bind ((keeps_python _).triple.conseq (fun _ h => h) (fun _ _ h => h) fun _ _ h => .inl h) fun record => ?_
  refine Triple.bind ((keeps_python _).triple.conseq (fun _ h => h.2) (fun _ _ h => h) fun _ _ h => .inl h)
    fun recordType => ?_
  by_cases hbegin : isText (some recordType) "artifact_begin" = true
  · rw [if_pos hbegin]
    exact (keeps_held_begin record).triple.conseq (fun _ h => h.2) (fun _ _ h => h.2) fun _ _ h => .inl h
  rw [if_neg hbegin]
  by_cases hchunk : isText (some recordType) "artifact_chunk" = true
  · rw [if_pos hchunk]
    exact (keeps_held_chunk record lineNumber).triple.conseq (fun _ h => h.2) (fun _ _ h => h.2) fun _ _ h => .inl h
  rw [if_neg hchunk]
  by_cases hend : isText (some recordType) "artifact_end" = true
  · rw [if_pos hend]
    exact (triple_held_end record).conseq (fun _ h => h.2) (fun _ _ h => h) fun _ _ h => h
  · rw [if_neg hend]
    exact Triple.pure fun s hs => hs.2

theorem triple_held_lines (rawLines : List Bytes) : ∀ {lineNumber : Nat},
    Triple (Held before) (reassembleLines env request artifacts lineNumber rawLines) (fun _ => Held before)
      fun _ => Left env before := by
  induction rawLines with
  | nil => exact fun {lineNumber} => Triple.pure fun _ h => h
  | cons rawLine rawLines ih => exact fun {lineNumber} => Triple.bind (triple_held_line rawLine _) fun _ => ih

theorem keeps_held_modes (entries : List (List Name × Nat)) :
    Keeps (Held before) (restoreModes env request entries) fun _ => True := by
  induction entries with
  | nil => exact Keeps.pure trivial
  | cons entry entries ih => exact Keeps.bind (keeps_held_system (keeps_chmod _ _)) fun _ _ => ih

end Held

/-! ## Behind the rename -/

section Publish
variable {env : Env} {request : Request} {stage : Stage env} {before : List Syscall} {s : Locals} {k k₀ k' : Kernel}

variable (before) in
/-- The rename was made. -/
structure Renaming (k : Kernel) : Prop where
  began : k.Began before
  rename : .rename ∈ k.calls.drop before.length

theorem Renaming.mono (h : Renaming before k) (hcalls : k.calls <+: k'.calls) : Renaming before k' := by
  refine ⟨h.began.trans hcalls, ?_⟩
  obtain ⟨more, hmore⟩ := hcalls
  rw [← hmore, List.drop_append_of_le_length h.began.length_le]
  exact List.mem_append_left _ h.rename

theorem triple_late_tick (call : Syscall) :
    Triple (fun s => Renaming before s.kernel) (system (tick env call)) (fun _ s => Renaming before s.kernel)
      fun _ s => Spoilt env before s.kernel := by
  intro s hs
  have htick := @triple_tick_made env call s.kernel s.kernel rfl
  unfold system
  cases hrun : tick env call s.kernel with
  | ok u k =>
    rw [hrun] at htick
    exact hs.mono (htick.2 ▸ List.prefix_append _ _)
  | error error k =>
    rw [hrun] at htick
    refine Spoilt.of_tick hs.began htick.2 ?_ (.inr (.inr hs.rename))
    rw [htick.1]
    exact Option.some_ne_none _

/-- The directory of the stage can be opened in every tree that extends the one before. -/
theorem triple_late_open (hs : Renaming before s.kernel) (hextends : Extends stage.before s.kernel.fs) :
    Triple (fun t => t = s) (system (openDirectory env stage.parent)) (fun _ s => Renaming before s.kernel)
      fun _ s => Spoilt env before s.kernel := by
  intro t ht
  subst ht
  have htick := @triple_tick_made env .open t.kernel t.kernel rfl
  have hstill := @triple_tick env .open t.kernel t.kernel rfl
  unfold system openDirectory
  rw [run_bind]
  cases hrun : tick env .open t.kernel with
  | error error k =>
    rw [hrun] at htick
    refine Spoilt.of_tick hs.began htick.2 ?_ (.inr (.inr hs.rename))
    rw [htick.1]
    exact Option.some_ne_none _
  | ok u k =>
    rw [hrun] at htick hstill
    dsimp only
    have hextends' : Extends stage.before k.fs := hstill.fs ▸ hextends
    have hdir : k.fs.IsDir stage.base := by
      obtain ⟨mode, hmode, -⟩ := searched_eq_none.mp (searched_extends hextends' stage.searchable)
      exact FileSystem.isDir_iff.mpr ⟨mode, hmode⟩
    rw [run_bind, run_get]
    dsimp only
    rw [walk_extends hextends' _ stage.leads]
    dsimp only
    rw [if_pos hdir]
    exact hs.mono (htick.2 ▸ List.prefix_append _ _)

/-- Where nothing is in the place of the destination, the tree before extends to the one behind the rename. -/
theorem extends_renamed {e e' : Entry} (haround : stage.Around k.fs) (hpath : request.stage = stage.path)
    (habsent : stage.before.node (stage.base ++ [request.name]) = none)
    (h : Renamed env request.stage request.destination k k' e e') : Extends stage.before k'.fs := by
  have hparent : request.parent = stage.parent := (List.append_inj' hpath rfl).1
  have hsource := h.source
  rw [hpath, haround.locate_path] at hsource
  obtain rfl := Except.ok.inj hsource
  have htarget := h.target
  rw [Request.destination, hparent] at htarget
  obtain ⟨rfl, -⟩ := haround.locate_beside htarget
  intro l node hnode
  have hstage : ¬ stage.loc <+: l := by
    rintro ⟨rest, rfl⟩
    rw [Stage.before_below] at hnode
    cases hnode
  have hplace : ¬ stage.base ++ [request.name] <+: l := by
    rintro ⟨rest, rfl⟩
    rw [FileSystem.node_below habsent] at hnode
    cases hnode
  rw [h.node]
  exact (FileSystem.moveNode_apart hplace hstage).trans ((haround.apart l hstage).trans hnode)

/-- Before the rename nothing is done, and behind it only a call that fails ends the run. -/
theorem triple_publish_held (hinside : stage.Inside k₀ s.kernel) (hpath : request.stage = stage.path)
    (habsent : stage.before.node (stage.base ++ [request.name]) = none) (hs : Held before s) :
    Triple (fun t => t = s) (publish env request) (fun _ _ => True)
      fun _ t => stage.Inside k₀ t.kernel ∧ Held before t ∨ Spoilt env before t.kernel := by
  have hparent : request.parent = stage.parent := (List.append_inj' hpath rfl).1
  unfold publish
  refine Triple.bind (Q := fun _ t => Renaming before t.kernel ∧ Extends stage.before t.kernel.fs) ?_ fun _ =>
    Triple.each fun t ht => ?_
  · intro t ht
    subst ht
    have hcall := ((@triple_renameDirectory env request.stage request.destination t.kernel).and
      (calls_renameDirectory _ _ _)) t.kernel rfl
    unfold system
    cases hrun : renameDirectory env request.stage request.destination t.kernel with
    | ok u k =>
      rw [hrun] at hcall
      obtain ⟨⟨e, e', hrenamed⟩, hcalls⟩ := hcall
      refine ⟨⟨hs.began.trans (hcalls ▸ List.prefix_append _ _), ?_⟩, extends_renamed hinside.around hpath habsent hrenamed⟩
      rw [hcalls, List.drop_append_of_le_length hs.began.length_le]
      exact List.mem_append_right _ (List.mem_singleton_self _)
    | error error k =>
      rw [hrun] at hcall
      exact .inl ⟨hinside.still hcall.1, hs.closable, hs.began.trans (hcall.2 ▸ List.prefix_append _ _)⟩
  have hlate : ∀ call, Triple (fun s => Renaming before s.kernel) (system (tick env call))
      (fun _ s => Renaming before s.kernel)
      fun _ t => stage.Inside k₀ t.kernel ∧ Held before t ∨ Spoilt env before t.kernel :=
    fun call => (triple_late_tick call).conseq (fun _ h => h) (fun _ _ h => h) fun _ _ h => .inr h
  rw [hparent]
  refine Triple.bind ((triple_late_open ht.1 ht.2).conseq (fun _ h => h) (fun _ _ h => h) fun _ _ h => .inr h) fun _ => ?_
  refine Triple.bind (Triple.tryCatch (triple_late_tick .fsync) fun error => ?_) fun _ =>
    (hlate .close).conseq (fun _ h => h) (fun _ _ _ => trivial) fun _ _ h => h
  refine Triple.bind (Q := fun _ s => Spoilt env before s.kernel) ?_ fun _ => Triple.throw fun _ h => .inr h
  intro t ht
  have htick := @triple_tick_made env .close t.kernel t.kernel rfl
  unfold system
  cases hrun : tick env .close t.kernel with
  | ok u k =>
    rw [hrun] at htick
    exact ht.mono (htick.2 ▸ List.prefix_append _ _)
  | error error k =>
    rw [hrun] at htick
    exact .inr (ht.mono (htick.2 ▸ List.prefix_append _ _))

end Publish

/-! ## The handler -/

section Restore
variable {env : Env} {request : Request} {stage : Stage env} {before : List Syscall} {k₀ : Kernel}

/-- What is spoilt stays so. -/
theorem triple_spoilt_abandon (error : ReassembleError) :
    Triple (fun s => Spoilt env before s.kernel) (abandon env request error) (fun _ _ => False)
      fun _ s => Spoilt env before s.kernel := by
  have hleft : Triple (fun s => Spoilt env before s.kernel) (closeLeft env) (fun _ s => Spoilt env before s.kernel)
      fun _ s => Spoilt env before s.kernel := by
    apply Triple.get
    intro s hs
    cases s.fileDescriptor with
    | none => exact Triple.pure fun t ht => ht ▸ hs
    | some descriptor =>
      have hcalls : Keeps (fun t => Kernel.Began s.kernel.calls t.kernel) (close env descriptor) fun _ => True := by
        refine Keeps.bind Keeps.get fun t ht => Keeps.bind (Q := fun _ => True) (fun _ _ => ⟨trivial, ht⟩) fun _ _ => ?_
        refine Keeps.bind (Q := fun _ => True) ?_ fun _ _ => ?_
        · intro u hu
          have htick := @keeps_tick env s.kernel.calls .close u.kernel hu
          unfold system
          cases hrun : tick env .close u.kernel with
          | ok x k =>
            rw [hrun] at htick
            exact ⟨trivial, htick.2⟩
          | error error k =>
            rw [hrun] at htick
            exact htick
        · by_cases hopen : t.descriptors.contains descriptor = true
          · rw [if_pos hopen]
            exact Keeps.pure trivial
          · rw [if_neg hopen]
            exact Keeps.throw _
      refine hcalls.triple.conseq (fun t ht => ht ▸ List.prefix_rfl) (fun _ t ht => hs.mono ht.2) fun _ t ht => hs.mono ht
  refine Triple.bind hleft fun _ => Triple.bind (Q := fun _ s => Spoilt env before s.kernel) ?_ fun _ => Triple.throw fun _ h => h
  refine Triple.tryCatch (E := fun _ s => Spoilt env before s.kernel) (Triple.each fun s hs => ?_) fun _ => Triple.pure fun _ h => h
  refine (triple_began_system (keeps_removeTree _) (List.prefix_refl s.kernel.calls)).conseq (fun _ h => h) ?_ ?_
  · intro _ t ht
    obtain ⟨k, hk, rfl⟩ := ht
    exact hs.mono hk
  · intro _ t ht
    obtain ⟨k, hk, rfl⟩ := ht
    exact hs.mono hk

/-- The stage is removed, unless the call fails. -/
theorem triple_removeStage {k : Kernel} (hinside : stage.Inside k₀ k) (hbegan : k.Began before) :
    Triple (fun k' => k' = k) (removeTree env stage.path) (fun _ k' => ∀ l, k'.fs.node l = stage.before.node l)
      fun _ k' => Spoilt env before k' := by
  intro k' hk'
  subst hk'
  have htick := @triple_tick_made env .remove k' k' rfl
  have hstill := @triple_tick env .remove k' k' rfl
  unfold removeTree
  rw [run_bind]
  cases hrun : tick env .remove k' with
  | error error k =>
    rw [hrun] at htick
    refine Spoilt.of_tick hbegan htick.2 ?_ (.inr (.inl rfl))
    rw [htick.1]
    exact Option.some_ne_none _
  | ok u k =>
    rw [hrun] at hstill
    have haround : stage.Around k.fs := hstill.fs ▸ hinside.around
    dsimp only
    rw [run_bind, run_get]
    dsimp only
    rw [haround.locate_path]
    intro l
    show (if stage.loc <+: l then none else k.fs.node l) = _
    by_cases hl : stage.loc <+: l
    · obtain ⟨rest, rfl⟩ := hl
      rw [if_pos (List.prefix_append _ _), Stage.before_below]
    · rw [if_neg hl, haround.apart l hl]

/-- The handler puts everything back, or is spoilt itself. -/
theorem triple_restore (hpath : request.stage = stage.path) (error : ReassembleError) :
    Triple (fun s => stage.Inside k₀ s.kernel ∧ Held before s) (abandon env request error) (fun _ _ => False)
      fun _ s => (∀ l, s.kernel.fs.node l = stage.before.node l) ∨ Spoilt env before s.kernel := by
  have hleft : Triple (fun s => stage.Inside k₀ s.kernel ∧ Held before s) (closeLeft env)
      (fun _ s => stage.Inside k₀ s.kernel ∧ s.kernel.Began before) fun _ s => Spoilt env before s.kernel := by
    apply Triple.get
    intro s hs
    obtain ⟨hinside, hheld⟩ := hs
    cases hdescriptor : s.fileDescriptor with
    | none => exact Triple.pure fun t ht => ht ▸ ⟨hinside, hheld.began⟩
    | some descriptor =>
      refine ((triple_close descriptor s).and (triple_held_close (hheld.closable descriptor hdescriptor) hheld.began)).conseq
        (fun _ h => h) (fun _ t ht => ?_) fun _ _ h => h.2
      obtain ⟨⟨k, hstill, rfl⟩, k', hbegan, heq⟩ := ht
      obtain rfl : k = k' := congrArg Locals.kernel heq
      exact ⟨hinside.still hstill, hbegan⟩
  refine Triple.bind (hleft.conseq (fun _ h => h) (fun _ _ h => h) fun _ _ h => .inr h) fun _ => ?_
  refine Triple.bind (Q := fun _ s => (∀ l, s.kernel.fs.node l = stage.before.node l) ∨ Spoilt env before s.kernel) ?_
    fun _ => Triple.throw fun _ h => h
  refine Triple.tryCatch (E := fun _ s => Spoilt env before s.kernel) (Triple.each fun s hs => ?_) fun _ =>
    Triple.pure fun _ h => .inr h
  rw [hpath]
  have hremove := triple_removeStage hs.1 hs.2
  intro t ht
  subst ht
  have hcall := hremove t.kernel rfl
  unfold system
  cases hrun : removeTree env stage.path t.kernel with
  | ok u k =>
    rw [hrun] at hcall
    exact .inl hcall
  | error error' k =>
    rw [hrun] at hcall
    exact hcall

end Restore

/-! ## The whole run -/

section Run
variable {env : Env} {request : Request} {summary : ValidationSummary} {k k₁ k₂ : Kernel} {stage : Stage env}

theorem triple_openSource {artifacts : List Artifact} {pass : Pass} :
    Triple (Built stage artifacts k₂ pass) (system (tick env .open)) (fun _ => Built stage artifacts k₂ pass)
      fun _ => Stopped stage k₂ := by
  apply Triple.each
  intro s h
  refine (triple_call h.closable ((triple_tick _ s.kernel).conseq (fun _ hk => hk) (fun _ _ hk => hk)
    fun _ _ hk => h.inside.still hk)).conseq (fun _ hs => hs) (fun _ t ht => ?_) fun _ _ hk => hk
  obtain ⟨k, hstill, rfl⟩ := ht
  exact h.still hstill

/-- What ends the block `try` without spoiling anything happened before the rename. -/
theorem triple_build_held {artifacts : List Artifact} (hsound : Sound artifacts) (hpath : request.stage = stage.path)
    (habsent : stage.before.node (stage.base ++ [request.name]) = none) (source : Bytes)
    (hapart : Pass.Apart artifacts .start ((fileLines source).filterMap readingOf)) {before : List Syscall} :
    Triple (fun s => Built stage artifacts k₂ .start s ∧ Held before s) (build env request artifacts source)
      (fun _ _ => True)
      fun _ t => stage.Inside k₂ t.kernel ∧ Held before t ∨ Spoilt env before t.kernel := by
  have hend : ∀ {s : Locals}, Stopped stage k₂ s ∧ Left env before s →
      stage.Inside k₂ s.kernel ∧ Held before s ∨ Spoilt env before s.kernel :=
    fun h => h.2.imp_left fun hheld => ⟨h.1.inside, hheld⟩
  unfold build
  refine Triple.bind ((triple_openSource.both (keeps_held_system (keeps_tick _)).triple).conseq (fun _ h => h)
    (fun _ _ h => h) fun _ _ h => hend ⟨h.1, .inl h.2⟩) fun _ => ?_
  refine Triple.bind (((triple_reassembleLines hsound hpath _ hapart).both (triple_held_lines _)).conseq
    (fun _ h => ⟨h.1, h.2.2⟩) (fun _ _ h => h) fun _ _ h => hend h) fun _ => ?_
  apply Triple.get
  intro s hs
  have hmodes : ∀ entry ∈ deepestFirst s.directoryModes, ∃ a ∈ (deliveries artifacts source).begun,
      a.fileType = .directory ∧ entry.1 = stage.path ++ a.components := by
    intro entry hentry
    exact hs.1.modes entry ((List.mergeSort_perm _ _).mem_iff.mp hentry)
  refine Triple.bind (((triple_restoreModes hsound _ hmodes).both (keeps_held_modes _).triple).conseq
    (fun _ ht => ht ▸ hs) (fun _ _ h => h) fun _ _ h => hend ⟨h.1, .inl h.2⟩) fun _ => Triple.each fun t ht => ?_
  exact triple_publish_held ht.1.inside hpath habsent ht.2.2

theorem triple_block_held {artifacts : List Artifact} (hsound : Sound artifacts) (hpath : request.stage = stage.path)
    (habsent : stage.before.node (stage.base ++ [request.name]) = none) (source : Bytes)
    (hapart : Pass.Apart artifacts .start ((fileLines source).filterMap readingOf)) {before : List Syscall} :
    Triple (fun s => Built stage artifacts k₂ .start s ∧ Held before s)
      (tryCatch (build env request artifacts source) (abandon env request)) (fun _ _ => True)
      fun _ t => (∀ l, t.kernel.fs.node l = stage.before.node l) ∨ Spoilt env before t.kernel := by
  refine Triple.tryCatch (triple_build_held hsound hpath habsent source hapart) fun error => Triple.each fun s hs => ?_
  rcases hs with hs | hs
  · exact (triple_restore hpath error).conseq (fun _ ht => ht ▸ hs) (fun _ _ h => h.elim) fun _ _ h => h
  · exact (triple_spoilt_abandon error).conseq (fun _ ht => ht ▸ hs) (fun _ _ h => h.elim) fun _ _ h => .inr h

/-- Nothing is in the place of the destination. -/
theorem Making.absent (h : Making env request summary k k₁ k₂ stage)
    (habsent : exists_ env k₁.fs request.destination = false) (hunlinked : isLink env k₁.fs request.destination = false) :
    stage.before.node (stage.base ++ [request.name]) = none := by
  have hparent : request.parent = stage.parent := (List.append_inj' h.path rfl).1
  by_contra hthere
  rw [Request.destination, hparent, ← h.before] at habsent hunlinked
  have hname : ValidName request.name :=
    FileSystem.valid_of_node hthere _ (List.mem_append_right _ (List.mem_singleton_self _))
  exact hthere (Stage.absent_beside hname habsent hunlinked)

variable (env request summary k k₁) in
/-- A run that returns has put the tree of the summary at the destination; one that raises has put everything back:
nothing is at the destination, and no stage is left. -/
structure Restores (stage : Stage env) (source : Bytes) : Prop where
  returned : ∀ t, reassemble env request summary source (Locals.start k) = .ok () t →
    DestinationContains summary.artifacts t.kernel
  raised : ∀ error t, reassemble env request summary source (Locals.start k) = .error error t →
    (∀ l, t.kernel.fs.node l = k₁.fs.node l) ∧ exists_ env t.kernel.fs request.destination = false ∧
      isLink env t.kernel.fs request.destination = false ∧ t.kernel.fs.node stage.loc = none

theorem exists_congr {fs fs' : FileSystem} {path : List Name} (h : ∀ l, fs'.node l = fs.node l)
    (hexists : exists_ env fs path = false) : exists_ env fs' path = false := by
  have hextends : Extends fs' fs := fun l node hnode => (h l).symm.trans hnode
  rw [exists_] at hexists ⊢
  cases hwalk : walk env.process fs' true maxLinks [] path with
  | error error => rfl
  | ok found =>
    rw [walk_extends hextends _ hwalk] at hexists
    cases hexists

theorem isLink_congr {fs fs' : FileSystem} {path : List Name} (h : ∀ l, fs'.node l = fs.node l)
    (hlink : isLink env fs path = false) : isLink env fs' path = false := by
  have hextends : Extends fs' fs := fun l node hnode => (h l).symm.trans hnode
  rw [isLink] at hlink ⊢
  cases hwalk : walk env.process fs' false maxLinks [] path with
  | error error => rfl
  | ok found =>
    rw [walk_extends hextends _ hwalk] at hlink
    dsimp only at hlink ⊢
    rwa [h found.loc]

/-- A validated stream in which no artifact lies below an earlier link: where no call fails that closes the
descriptor of an artifact or removes the stage, and none behind the rename, the run leaves the tree or nothing. -/
theorem reassembly_restores {maximumRecordBytes : Nat} {validated : Bytes}
    (hvalid : validate maximumRecordBytes validated = .ok summary) (hun : Unlinking summary.artifacts)
    (hmaking : Making env request summary k k₁ k₂ stage) (habsent : exists_ env k₁.fs request.destination = false)
    (hunlinked : isLink env k₁.fs request.destination = false)
    (hspared : ¬ Spoilt env k₂.calls (final (reassemble env request summary validated) (Locals.start k)).kernel) :
    Restores env request summary k k₁ stage validated := by
  obtain ⟨fields, items, f, shape, hv⟩ := validated_of_validate hvalid
  have hcommand := hmaking.granted.command
  have hsound := hv.sound hcommand
  have hapart := hv.apart hcommand hun
  have hplace := hmaking.absent habsent hunlinked
  refine ⟨fun t hrun => ?_, fun error t hrun => ?_⟩
  · obtain ⟨stage', k₂', hpath, hfinished⟩ := finished_of_ok hsound hapart hrun
    obtain ⟨s, loc, via, hbuilt, hlast, hsame⟩ := hfinished.destination hpath
    exact ⟨loc, via, hlast, hbuilt.contains hsound hsame (hv.delivered hcommand hbuilt)⟩
  · have hblock := @triple_block_held env request k₂ stage summary.artifacts hsound hmaking.path hplace validated hapart
      k₂.calls
    rw [hmaking.run] at hrun
    have hend := hblock.error ⟨hmaking.built, nofun, List.prefix_rfl⟩ hrun
    have hspoilt : ¬ Spoilt env k₂.calls t.kernel := by
      unfold final at hspared
      rwa [hmaking.run, hrun] at hspared
    have hnode : ∀ l, t.kernel.fs.node l = k₁.fs.node l := by
      rw [← hmaking.before]
      exact hend.resolve_right hspoilt
    refine ⟨hnode, exists_congr hnode habsent, isLink_congr hnode hunlinked, ?_⟩
    rw [hnode, ← hmaking.before]
    exact stage.fresh

end Run

/-! ## One call that fails -/

/-- The call with this number fails, and no other. -/
def failingEnv (n : Nat) : Env := { openEnv with faults := fun m => if m = n then some .acces else none }

/-- The reassembly of the stream with one file, from where it is granted. -/
def oneFileRun (env : Env) : Reassembly Unit :=
  construct env outRequest (oneFile.mapIdx Specimen.artifact) (artifactStream oneFile)

/-- The kernel behind the parents of the destination. -/
def parentsMade (env : Env) : Kernel := final (makeParents env outRequest.parent) bareKernel

theorem exists_oneFile_making {env : Env} (habsent : exists_ env bareKernel.fs outRequest.destination = false)
    (hunlinked : isLink env bareKernel.fs outRequest.destination = false)
    (hparents : returned (makeParents env outRequest.parent bareKernel) = true)
    (hmade : returned (mkdir env outRequest.stage 0o700 (parentsMade env)) = true) :
    ∃ (summary : ValidationSummary) (stage : Stage env) (e : Entry),
      validate 1024 (artifactStream oneFile) = .ok summary ∧ Unlinking summary.artifacts ∧
      Making env outRequest summary bareKernel (parentsMade env)
        (final (mkdir env outRequest.stage 0o700) (parentsMade env)) stage ∧
      locate env.process (parentsMade env).fs outRequest.stage = .ok e ∧ e.loc = stage.loc ∧
      reassemble env outRequest summary (artifactStream oneFile) (Locals.start bareKernel) =
        oneFileRun env (Locals.start bareKernel) := by
  obtain ⟨summary, hvalid, hcommand, hsuccess, hartifacts⟩ := exists_oneFile
  have hlinks : ∀ a ∈ summary.artifacts, a.fileType ≠ .symlink := by
    rw [hartifacts]
    decide
  have hun : Unlinking summary.artifacts := by
    rw [hartifacts]
    unfold Unlinking
    decide
  have hgranted : Granted env outRequest summary bareKernel.fs :=
    ⟨hcommand, hsuccess, habsent, hunlinked, .inr hlinks, fun a ha htype => absurd htype (hlinks a ha)⟩
  obtain ⟨stage, e, hmaking, hlocate, hloc⟩ := exists_making hgranted (run_of_returned hparents) (run_of_returned hmade)
  refine ⟨summary, stage, e, hvalid, hun, hmaking, hlocate, hloc, ?_⟩
  rw [reassemble_of_granted hgranted, hartifacts]
  rfl

theorem calls_fchmod_fails : (final (oneFileRun (failingEnv 6)) (Locals.start bareKernel)).kernel.calls =
    [.mkdir, .mkdir, .open, .mkdir, .open, .fsync, .fchmod, .close, .remove] := by decide +kernel

/-- The mode of the file cannot be set. -/
theorem reassembly_restores_oneFile : ∃ summary stage, validate 1024 (artifactStream oneFile) = .ok summary ∧
    Restores (failingEnv 6) outRequest summary bareKernel (parentsMade (failingEnv 6)) stage (artifactStream oneFile) := by
  obtain ⟨summary, stage, e, hvalid, hun, hmaking, -, -, hrun⟩ := @exists_oneFile_making (failingEnv 6) (by decide)
    (by decide) (by decide +kernel) (by decide +kernel)
  refine ⟨summary, stage, hvalid, reassembly_restores hvalid hun hmaking (by decide +kernel) (by decide +kernel) ?_⟩
  intro hspoilt
  unfold final at hspoilt
  rw [hrun] at hspoilt
  have hcalls := calls_fchmod_fails
  unfold final at hcalls
  obtain ⟨n, call, hn, hcall, hfault, hkind⟩ := hspoilt
  rw [hcalls] at hcall hkind
  have hsix : n = 6 := by
    by_contra hne
    exact hfault (if_neg hne)
  subst hsix
  obtain rfl := Option.some.inj hcall
  revert hkind
  decide +kernel

/-- The descriptor of the file cannot be closed: the handler closes it again, fails with that, and leaves the stage. -/
theorem close_fails_not_restored : ∃ (summary : ValidationSummary) (stage : Stage (failingEnv 7)) (k₂ : Kernel),
    validate 1024 (artifactStream oneFile) = .ok summary ∧ Unlinking summary.artifacts ∧
    Making (failingEnv 7) outRequest summary bareKernel (parentsMade (failingEnv 7)) k₂ stage ∧
    ¬ Restores (failingEnv 7) outRequest summary bareKernel (parentsMade (failingEnv 7)) stage (artifactStream oneFile) := by
  obtain ⟨summary, stage, e, hvalid, hun, hmaking, hlocate, hloc, hrun⟩ := @exists_oneFile_making (failingEnv 7)
    (by decide) (by decide) (by decide +kernel) (by decide +kernel)
  refine ⟨summary, stage, _, hvalid, hun, hmaking, fun hrestores => ?_⟩
  have hraised : returned (oneFileRun (failingEnv 7) (Locals.start bareKernel)) = false := by decide +kernel
  have hleft : (final (oneFileRun (failingEnv 7)) (Locals.start bareKernel)).kernel.fs.node [outRequest.stageName] ≠ none := by
    decide +kernel
  have hplace : locate (failingEnv 7).process (parentsMade (failingEnv 7)).fs outRequest.stage =
      .ok ⟨[], outRequest.stageName, []⟩ := by decide +kernel
  obtain rfl := Except.ok.inj (hplace.symm.trans hlocate)
  unfold final at hleft
  cases hend : oneFileRun (failingEnv 7) (Locals.start bareKernel) with
  | ok u t =>
    rw [hend] at hraised
    cases hraised
  | error error t =>
    rw [hend] at hleft
    obtain ⟨-, -, -, hgone⟩ := hrestores.raised error t (hrun.trans hend)
    rw [← hloc] at hgone
    exact hleft hgone

end GetBibleSword.Tool
