import GetBibleSword.Core.Entries
import GetBibleSword.Lib.Orbit

/-!
# Where the traversal ends

The loop of `emit_entries` on a module that is not a dictionary.

* `Engine.next` : the position of the round behind a position, when there is one;
* `traverse_stalled`, `traverse_failed`, `traverse_ended`, `traverse_moved` : what one round does;
* `traverse_returns`, `ends_of_traverse` : the loop ends exactly when following `next` does;
* `emitEntries_terminates_iff` : it ends, with no more records than positions, exactly when no cycle is
  reachable.
-/

namespace GetBibleSword.Core
open GetBibleSword.Lib

section Next
variable {Position : Type} (engine : Engine Position)

/-- Nothing behind a failed read or a failed increment, nor where key and index stay the same. -/
def Engine.next (position : Position) : Option Position :=
  let answers := engine.answers position
  let behind := engine.answers (engine.increment position).2
  if answers.readError ≠ zeroByte then none
  else if (engine.increment position).1 ≠ zeroByte then none
  else if safeCString behind.keyText = safeCString answers.keyText ∧ behind.index = answers.index then none
  else some (engine.increment position).2

variable {engine} {position behind : Position}

theorem Engine.limit_of_not_dictionary (h : engine.dictionaryEntries = none) : engine.limit = none := by
  unfold Engine.limit
  rw [h]

theorem Engine.next_eq_some (h : engine.next position = some behind) :
    (engine.answers position).readError = zeroByte ∧ engine.increment position = (zeroByte, behind) ∧
      ∀ entries, stalls engine (engine.answers behind) entries
        (safeCString (engine.answers position).keyText) (engine.answers position).index = false := by
  unfold Engine.next at h
  by_cases hread : (engine.answers position).readError = zeroByte
  · rw [if_neg (not_not.mpr hread)] at h
    by_cases herror : (engine.increment position).1 = zeroByte
    · rw [if_neg (not_not.mpr herror)] at h
      split_ifs at h with hsame
      have hbehind := Option.some.inj h
      refine ⟨hread, Prod.ext herror hbehind, fun entries => ?_⟩
      rw [hbehind] at hsame
      unfold stalls
      rw [Bool.eq_false_iff, ne_eq, Bool.and_eq_true, Bool.and_eq_true, decide_eq_true_iff, decide_eq_true_iff]
      intro hstalls
      exact hsame ⟨hstalls.1.2, hstalls.2⟩
    · rw [if_pos herror] at h
      cases h
  · rw [if_pos hread] at h
    cases h

/-- Where a round moves on, the next round stalls or is that of `next`. -/
theorem Engine.next_of_moved (hread : (engine.answers position).readError = zeroByte)
    (herror : (engine.increment position).1 = zeroByte) (hlimit : engine.limit = none) {entries : Nat}
    (hentries : entries ≠ 0)
    (hstalls : stalls engine (engine.answers (engine.increment position).2) entries
      (safeCString (engine.answers position).keyText) (engine.answers position).index = false) :
    engine.next position = some (engine.increment position).2 := by
  unfold Engine.next
  rw [if_neg (not_not.mpr hread), if_neg (not_not.mpr herror), if_neg]
  rintro ⟨hkey, hindex⟩
  unfold stalls at hstalls
  rw [hlimit, decide_eq_true hkey, decide_eq_true hindex, decide_eq_true hentries] at hstalls
  cases hstalls

end Next

/-! ## A round -/

/-- How many of the records are entries. -/
def entryRecords (records : List (Bytes × JsonFields)) : Nat :=
  records.countP fun record => record.1 = Purpose.entry.type

theorem entryRecords_diagnostics (diagnostics : List Diagnostic) :
    entryRecords ((diagnostics.map Emission.diagnostic).map Emission.written) = 0 := by
  unfold entryRecords
  rw [List.countP_eq_zero]
  intro record hrecord
  simp only [List.map_map, List.mem_map, Function.comp_apply] at hrecord
  obtain ⟨value, -, rfl⟩ := hrecord
  have hne : Purpose.diagnostic.type ≠ Purpose.entry.type := by decide
  rw [decide_eq_true_iff]
  exact hne

theorem entryRecords_append (records more : List (Bytes × JsonFields)) :
    entryRecords (records ++ more) = entryRecords records + entryRecords more := List.countP_append

section Round
variable (icu : Icu)

theorem entryRecords_entryEmissions (answers : EntryAnswers) (ordinal : Nat) :
    entryRecords ((entryEmissions icu answers ordinal).map Emission.written) = 1 := by
  unfold entryEmissions
  rw [List.map_append, entryRecords_append, entryRecords_diagnostics]
  rfl

theorem countP_entryEmissions (answers : EntryAnswers) (ordinal : Nat) :
    (entryEmissions icu answers ordinal).countP Emission.isEntry = 1 := by
  unfold entryEmissions
  rw [List.countP_append]
  have hnone : ((entryDiagnostics icu answers ordinal).map Emission.diagnostic).countP Emission.isEntry = 0 := by
    rw [List.countP_eq_zero]
    intro emission hemission
    obtain ⟨value, -, rfl⟩ := List.mem_map.mp hemission
    exact Bool.false_ne_true
  rw [hnone]
  rfl

variable {Position : Type} {engine : Engine Position} {s : Extraction} {position : Position}
variable {previousKey : Bytes} {previousIndex : Int} (fuel : Nat)

theorem traverse_stalled (hs : s.session.Open)
    (hstalls : stalls engine (engine.answers position) s.entries previousKey previousIndex = true) :
    Runs (traverse noFaults icu engine (fuel + 1) position previousKey previousIndex) s (some false)
      [.diagnostic (navigationStalled s.entries (safeCString (engine.answers position).keyText))] := by
  unfold traverse
  apply Runs.silent hs (runs_mayThrow s)
  intro t ht hran
  apply Runs.get
  have hentries : t.entries = s.entries := hran.entries
  rw [hentries, if_pos hstalls]
  apply Runs.bind ht (runs_report ht (plain_navigationStalled s.entries _))
  intro u _ _
  exact Runs.pure _ u

section Advancing
variable (hs : s.session.Open)
variable (hstalls : stalls engine (engine.answers position) s.entries previousKey previousIndex = false)
include hs hstalls

theorem traverse_failed (hread : (engine.answers position).readError ≠ zeroByte) :
    Runs (traverse noFaults icu engine (fuel + 1) position previousKey previousIndex) s (some false)
      [.diagnostic (entryReadFailed s.entries (safeCString (engine.answers position).keyText)
        (engine.answers position).readError)] := by
  unfold traverse
  apply Runs.silent hs (runs_mayThrow s)
  intro t ht hran
  apply Runs.get
  have hentries : t.entries = s.entries := hran.entries
  rw [hentries, if_neg (Bool.eq_false_iff.mp hstalls), ← hentries]
  apply Runs.bind ht (emitEntry_failed icu (engine.answers position) ht hread)
  intro u _ _
  exact Runs.pure _ u

variable (hread : (engine.answers position).readError = zeroByte)
include hread

/-- The round up to its record. -/
theorem traverse_read :
    ∃ t : Extraction, t.session.Open ∧ s.Ran t (entryEmissions icu (engine.answers position) s.entries) ∧
      traverse noFaults icu engine (fuel + 1) position previousKey previousIndex s =
        (navigate noFaults engine position >>= fun navigation =>
          match navigation with
          | .ended success => pure (some success)
          | .moved next => traverse noFaults icu engine fuel next
              (safeCString (engine.answers position).keyText) (engine.answers position).index) t := by
  obtain ⟨t, ht, htick⟩ := runs_mayThrow s
  have hentries : t.entries = s.entries := htick.entries
  have hopen := htick.session.opened hs
  obtain ⟨u, hu, hran⟩ := emitEntry_noFaults icu (engine.answers position) hopen hread
  rw [hentries] at hran
  refine ⟨u, hran.session.opened hopen, htick.trans hran, ?_⟩
  rw [traverse, run_bind, ht]
  dsimp only
  rw [run_bind, run_get]
  dsimp only
  rw [hentries, if_neg (Bool.eq_false_iff.mp hstalls), run_bind, hu]
  rfl

variable (hlimit : engine.limit = none)
include hlimit

theorem traverse_ended (herror : (engine.increment position).1 ≠ zeroByte) :
    ∃ (success : Bool) (diagnostics : List Diagnostic),
      Runs (traverse noFaults icu engine (fuel + 1) position previousKey previousIndex) s (some success)
        (entryEmissions icu (engine.answers position) s.entries ++ diagnostics.map Emission.diagnostic) := by
  obtain ⟨t, ht, hran, heq⟩ := traverse_read icu fuel hs hstalls hread
  have hfull : engine.full t.entries = false := by
    unfold Engine.full
    rw [hlimit]
    rfl
  obtain ⟨success, diagnostics, u, hu, hmore⟩ : ∃ (success : Bool) (diagnostics : List Diagnostic),
      Runs (navigate noFaults engine position) t (.ended success) (diagnostics.map Emission.diagnostic) := by
    by_cases hbounds : (engine.increment position).1 = keyErrOutOfBounds
    · refine ⟨true, [], ?_⟩
      unfold navigate navigationError
      apply Runs.get
      dsimp only
      rw [hfull, if_neg Bool.false_ne_true]
      apply Runs.silent ht (runs_mayThrow t)
      intro u _ _
      rw [if_neg herror, if_pos hbounds, hlimit]
      exact Runs.pure _ u
    · refine ⟨false, [navigationFailed t.entries (engine.increment position).1], ?_⟩
      unfold navigate navigationError
      apply Runs.get
      dsimp only
      rw [hfull, if_neg Bool.false_ne_true]
      apply Runs.silent ht (runs_mayThrow t)
      intro u hu _
      rw [if_neg herror, if_neg hbounds]
      apply Runs.bind hu (runs_report hu (plain_navigationFailed t.entries _))
      intro v _ _
      exact Runs.pure _ v
  refine ⟨success, diagnostics, u, ?_, hran.trans hmore⟩
  rw [heq, run_bind, hu]
  rfl

theorem traverse_moved (herror : (engine.increment position).1 = zeroByte) :
    ∃ t : Extraction, t.session.Open ∧ s.Ran t (entryEmissions icu (engine.answers position) s.entries) ∧
      traverse noFaults icu engine (fuel + 1) position previousKey previousIndex s =
        traverse noFaults icu engine fuel (engine.increment position).2
          (safeCString (engine.answers position).keyText) (engine.answers position).index t := by
  obtain ⟨t, ht, hran, heq⟩ := traverse_read icu fuel hs hstalls hread
  obtain ⟨u, hu, htick⟩ := runs_mayThrow t
  have hfull : engine.full t.entries = false := by
    unfold Engine.full
    rw [hlimit]
    rfl
  refine ⟨u, htick.session.opened ht, ?_, ?_⟩
  · have hrun := hran.trans htick
    rwa [List.append_nil] at hrun
  · rw [heq, run_bind]
    unfold navigate
    rw [run_bind, run_get]
    dsimp only
    rw [hfull, if_neg Bool.false_ne_true, run_bind, hu]
    dsimp only
    rw [if_pos herror, run_pure]

end Advancing
end Round

/-! ## The loop -/

section Loop
variable {Position : Type} {engine : Engine Position} (icu : Icu) (hlimit : engine.limit = none)
include hlimit

/-- Where `next` ends the loop returns: one more round finds that the engine stalls. -/
theorem traverse_returns (n : Nat) : ∀ {position : Position} {s : Extraction} {previousKey : Bytes}
    {previousIndex : Int}, s.session.Open → Ends engine.next n position →
    stalls engine (engine.answers position) s.entries previousKey previousIndex = false →
    ∃ success emitted,
      Runs (traverse noFaults icu engine (n + 1) position previousKey previousIndex) s (some success) emitted ∧
      entryRecords (emitted.map Emission.written) ≤ (trail engine.next n position).length := by
  induction n with
  | zero => intro _ _ _ _ _ hends; exact hends.elim
  | succ n ih =>
    intro position s previousKey previousIndex hs hends hstalls
    have hone : 1 ≤ (trail engine.next (n + 1) position).length := by
      unfold trail
      rw [List.length_cons]
      omega
    by_cases hread : (engine.answers position).readError = zeroByte
    · by_cases herror : (engine.increment position).1 = zeroByte
      · obtain ⟨t, ht, hran, heq⟩ := traverse_moved icu (n + 1) hs hstalls hread hlimit herror
        have hentries : t.entries = s.entries + 1 := by
          rw [hran.entries, countP_entryEmissions]
        cases hnext : stalls engine (engine.answers (engine.increment position).2) t.entries
            (safeCString (engine.answers position).keyText) (engine.answers position).index with
        | true =>
          obtain ⟨u, hu, hmore⟩ := traverse_stalled icu n ht hnext
          refine ⟨false, _, ⟨u, heq.trans hu, hran.trans hmore⟩, ?_⟩
          rw [List.map_append, entryRecords_append, entryRecords_entryEmissions]
          exact hone
        | false =>
          have hstep := Engine.next_of_moved hread herror hlimit (by omega) hnext
          obtain ⟨success, emitted, ⟨u, hu, hmore⟩, hcount⟩ := ih ht (hends _ hstep) hnext
          refine ⟨success, _, ⟨u, heq.trans hu, hran.trans hmore⟩, ?_⟩
          unfold trail
          rw [List.map_append, entryRecords_append, entryRecords_entryEmissions, hstep, List.length_cons,
            Nat.add_comm]
          exact Nat.succ_le_succ hcount
      · obtain ⟨success, diagnostics, hruns⟩ :=
          traverse_ended icu (n + 1) hs hstalls hread hlimit herror
        refine ⟨success, _, hruns, ?_⟩
        rw [List.map_append, entryRecords_append, entryRecords_entryEmissions, entryRecords_diagnostics]
        exact hone
    · exact ⟨false, _, traverse_failed icu (n + 1) hs hstalls hread, Nat.zero_le _⟩

/-- Where the loop returns `next` ends, by induction on the rounds. -/
theorem ends_of_traverse (fuel : Nat) : ∀ {position : Position} {s t : Extraction} {previousKey : Bytes}
    {previousIndex : Int} {success : Bool}, s.session.Open →
    stalls engine (engine.answers position) s.entries previousKey previousIndex = false →
    traverse noFaults icu engine fuel position previousKey previousIndex s = .ok (some success) t →
    Ends engine.next fuel position := by
  induction fuel with
  | zero =>
    intro _ _ _ _ _ _ _ _ hruns
    cases hruns
  | succ fuel ih =>
    intro position s t previousKey previousIndex success hs hstalls hruns behind hnext
    obtain ⟨hread, hincrement, hfree⟩ := Engine.next_eq_some hnext
    obtain ⟨u, hu, -, heq⟩ := traverse_moved icu fuel hs hstalls hread hlimit (by rw [hincrement])
    rw [heq, hincrement] at hruns
    exact ih hu (hfree u.entries) hruns

end Loop

/-! ## Termination -/

section Start
variable {Position : Type} {engine : Engine Position} {s : Extraction}

/-- The loop starts with no entry behind it. -/
theorem emitEntries_positioned (icu : Icu) (hs : s.session.Open) (hentries : s.entries = 0)
    (htop : engine.top.1 = zeroByte) :
    ∃ t : Extraction, t.session.Open ∧ s.Ran t [] ∧
      (∀ position, stalls engine (engine.answers position) t.entries [] longMin = false) ∧
      ∀ fuel, emitEntries noFaults icu engine fuel s =
        traverse noFaults icu engine fuel engine.top.2 [] longMin t := by
  obtain ⟨t, ht, htick⟩ := runs_mayThrow s
  have hzero : t.entries = 0 := htick.entries.trans hentries
  refine ⟨t, htick.session.opened hs, htick, fun position => ?_, fun fuel => ?_⟩
  · unfold stalls
    rw [hzero, Bool.eq_false_iff, ne_eq, Bool.and_eq_true, Bool.and_eq_true, Bool.and_eq_true]
    intro hstalls
    exact of_decide_eq_true hstalls.1.1.2 rfl
  · unfold emitEntries
    rw [run_bind, ht]
    dsimp only
    rw [if_neg (not_not.mpr htop)]

end Start

section Terminates
variable {Position : Type} [Fintype Position] (icu : Icu) (engine : Engine Position)

/-- `emit_entries` returns, with no more entry records than there are positions. -/
def Terminates (s : Extraction) : Prop :=
  ∃ fuel success t records, emitEntries noFaults icu engine fuel s = .ok (some success) t ∧
    t.session.emitted = s.session.emitted ++ records ∧ entryRecords records ≤ Fintype.card Position

variable {icu engine} {s : Extraction}

theorem Terminates.acyclic (hlimit : engine.limit = none) (hs : s.session.Open) (hentries : s.entries = 0)
    (htop : engine.top.1 = zeroByte) (h : Terminates icu engine s) : Acyclic engine.next engine.top.2 := by
  obtain ⟨t, ht, -, hfirst, hstart⟩ := emitEntries_positioned icu hs hentries htop
  obtain ⟨fuel, success, u, _, hruns, _, _⟩ := h
  rw [hstart] at hruns
  exact (ends_of_traverse icu hlimit fuel ht (hfirst _) hruns).acyclic

theorem terminates_of_acyclic (hlimit : engine.limit = none) (hs : s.session.Open) (hentries : s.entries = 0)
    (htop : engine.top.1 = zeroByte) (h : Acyclic engine.next engine.top.2) : Terminates icu engine s := by
  obtain ⟨t, ht, htick, hfirst, hstart⟩ := emitEntries_positioned icu hs hentries htop
  obtain ⟨n, hends⟩ := ends_iff_acyclic.mpr h
  obtain ⟨success, emitted, ⟨u, hu, hran⟩, hcount⟩ := traverse_returns icu hlimit n ht hends (hfirst _)
  refine ⟨n + 1, success, u, emitted.map Emission.written, (hstart _).trans hu, ?_, ?_⟩
  · exact (htick.trans hran).session.emitted
  · exact hcount.trans (length_trail_le h n)

theorem terminates_of_empty (hs : s.session.Open) (htop : engine.top.1 ≠ zeroByte) :
    Terminates icu engine s := by
  obtain ⟨t, ht, htick⟩ := runs_mayThrow s
  obtain ⟨u, hu, hran⟩ := runs_report (htick.session.opened hs) plain_moduleEmpty
  refine ⟨0, true, u, _, ?_, (htick.trans hran).session.emitted, Nat.zero_le _⟩
  unfold emitEntries
  rw [run_bind, ht]
  dsimp only
  rw [if_pos htop, run_bind, hu]
  rfl

variable (icu engine)

/-- The traversal ends exactly when it cannot be positioned or reaches no cycle: only a step to the same key and
index is noticed. -/
theorem emitEntries_terminates_iff (hkind : engine.dictionaryEntries = none) (hs : s.session.Open)
    (hentries : s.entries = 0) :
    Terminates icu engine s ↔ engine.top.1 ≠ zeroByte ∨ Acyclic engine.next engine.top.2 := by
  have hlimit := Engine.limit_of_not_dictionary hkind
  by_cases htop : engine.top.1 = zeroByte
  · constructor
    · intro h
      exact Or.inr (h.acyclic hlimit hs hentries htop)
    · intro h
      exact terminates_of_acyclic hlimit hs hentries htop (h.resolve_left (not_not.mpr htop))
  · exact iff_of_true (terminates_of_empty hs htop) (Or.inl htop)

end Terminates

/-! ### Two indexes -/

/-- A stream that takes every write. -/
def openStream : OStream := ⟨[], none, true, true⟩

theorem openStream_open : (Extraction.start openStream).session.Open := ⟨⟨rfl, rfl, rfl⟩, rfl⟩

/-- No converter opens. -/
def noIcu : Icu := fun _ _ => none

def plainEntry (key : String) : EntryAnswers where
  keyText := some (ascii key)
  index := 0
  raw := []
  readError := zeroByte
  encoding := none
  rendered := []
  attributes := []
  stripped := none
  normalizedStripped := none
  scope := .swordKey 0

/-- An index of one position that leads to itself. -/
def fixedIndex : Engine Unit where
  dictionaryEntries := none
  top := (zeroByte, ())
  answers := fun _ => plainEntry "a"
  increment := fun _ => (zeroByte, ())

theorem emitEntries_terminates_fixedIndex :
    Terminates noIcu fixedIndex (Extraction.start openStream) ↔
      fixedIndex.top.1 ≠ zeroByte ∨ Acyclic fixedIndex.next fixedIndex.top.2 :=
  emitEntries_terminates_iff noIcu fixedIndex rfl openStream_open rfl

/-- An index of two positions that lead to each other. -/
def ringIndex : Engine Bool where
  dictionaryEntries := none
  top := (zeroByte, false)
  answers := fun position => plainEntry (if position then "b" else "a")
  increment := fun position => (zeroByte, !position)

theorem ringIndex_not_terminates : ¬ Terminates noIcu ringIndex (Extraction.start openStream) := by
  intro h
  have hacyclic := h.acyclic rfl openStream_open rfl rfl
  have hforth : Step ringIndex.next false true := by
    show ringIndex.next false = some true
    decide
  have hback : Step ringIndex.next true false := by
    show ringIndex.next true = some false
    decide
  exact hacyclic false .refl (.tail (.single hforth) hback)

end GetBibleSword.Core
