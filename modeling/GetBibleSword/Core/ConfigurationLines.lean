import GetBibleSword.Core.Configuration

/-!
# The lines of a configuration file

`defines_module` against the lines of a file.

* `IsLine bytes front line` : a line, with everything before it;
* `DefinesSection` : a line of the file is the section of a module;
* `definesModule_iff` : the scan by offsets finds exactly that.
-/

namespace GetBibleSword.Core
open GetBibleSword.Lib

/-- A line of a file, without what ends it, and what stands before it. -/
def IsLine (bytes front line : Bytes) : Prop :=
  lf ∉ line ∧ (front = [] ∨ front.getLast? = some lf) ∧
    ∃ back, bytes = front ++ (line ++ back) ∧ (back = [] ∨ back.head? = some lf)

/-- `[name]`, with the name of the module in any case of its ASCII letters. -/
def SectionLine (moduleName line : Bytes) : Prop :=
  ∃ name, line = octet 0x5b :: name ++ [octet 0x5d] ∧ name.map lowercaseAscii = moduleName.map lowercaseAscii

/-- What a line is compared without: a carriage return at its end, and in the first line a byte order mark. -/
def bareLine (front line : Bytes) : Bytes := if front = [] then stripMark (stripReturn line) else stripReturn line

def DefinesSection (moduleName bytes : Bytes) : Prop :=
  ∃ front line, IsLine bytes front line ∧ SectionLine moduleName (bareLine front line)

theorem isSection_iff (moduleName line : Bytes) : isSection moduleName line = true ↔ SectionLine moduleName line := by
  unfold isSection asciiIequals
  simp only [Bool.and_eq_true, decide_eq_true_eq]
  constructor
  · intro h
    obtain ⟨⟨⟨hlength, hhead⟩, hlast⟩, hname⟩ := h
    refine ⟨line.tail.dropLast, ?_, hname⟩
    obtain ⟨first, rest, rfl⟩ := List.exists_cons_of_ne_nil (List.ne_nil_of_length_pos (by omega : 0 < line.length))
    obtain rfl := Option.some.inj hhead
    have hne : rest ≠ [] := by
      rintro rfl
      simp at hlength
    rw [List.getLast?_cons_of_ne_nil hne] at hlast
    rw [List.tail_cons, List.cons_append, List.dropLast_append_getLast? _ hlast]
  · intro h
    obtain ⟨name, rfl, hname⟩ := h
    refine ⟨⟨⟨by simp, rfl⟩, ?_⟩, ?_⟩
    · rw [List.cons_append, List.getLast?_cons_of_ne_nil (by simp), List.getLast?_concat]
    · rw [List.cons_append, List.tail_cons, List.dropLast_concat]
      exact hname

section Scan
variable {bytes moduleName front line : Bytes} {offset : Nat}

/-- Up to the next line feed. -/
def upToFeed (bytes : Bytes) : Bytes := bytes.takeWhile fun byte => byte ≠ lf

theorem lf_notMem_upToFeed (bytes : Bytes) : lf ∉ upToFeed bytes := by
  intro hmem
  have hne := List.mem_takeWhile_imp hmem
  simp at hne

/-- It is followed by a line feed, or by nothing. -/
theorem upToFeed_split (bytes : Bytes) : bytes = upToFeed bytes ∨ ∃ back, bytes = upToFeed bytes ++ lf :: back := by
  induction bytes with
  | nil => exact .inl rfl
  | cons byte bytes ih =>
    unfold upToFeed at ih ⊢
    rw [List.takeWhile_cons]
    by_cases hbyte : byte = lf
    · rw [if_neg (by simpa using hbyte), hbyte]
      exact .inr ⟨bytes, rfl⟩
    · rw [if_pos (by simpa using hbyte)]
      rcases ih with heq | ⟨back, heq⟩
      · exact .inl (congrArg (byte :: ·) heq)
      · exact .inr ⟨back, congrArg (byte :: ·) heq⟩

theorem upToFeed_append {back : Bytes} (h : lf ∉ line) (hback : back = [] ∨ back.head? = some lf) :
    upToFeed (line ++ back) = line := by
  induction line with
  | nil =>
    cases back with
    | nil => rfl
    | cons byte back =>
      obtain rfl := Option.some.inj (hback.resolve_left (List.cons_ne_nil _ _))
      exact List.takeWhile_cons_of_neg (by simp)
  | cons byte line ih =>
    have hbyte : byte ≠ lf := fun heq => h (heq ▸ List.mem_cons_self)
    have hrest := ih fun hmem => h (List.mem_cons_of_mem _ hmem)
    unfold upToFeed at hrest ⊢
    rw [List.cons_append, List.takeWhile_cons, if_pos (by simpa using hbyte), hrest]

theorem length_upToFeed_le (front back : Bytes) : (upToFeed (front ++ lf :: back)).length ≤ front.length := by
  induction front with
  | nil =>
    rw [List.nil_append, upToFeed, List.takeWhile_cons_of_neg (by simp)]
  | cons byte front ih =>
    unfold upToFeed at ih ⊢
    rw [List.cons_append, List.takeWhile_cons]
    split_ifs
    · exact Nat.succ_le_succ ih
    · exact Nat.zero_le _

/-- What stands before a line tells the line. -/
theorem IsLine.eq (h : IsLine bytes front line) :
    front = bytes.take front.length ∧ line = upToFeed (bytes.drop front.length) := by
  obtain ⟨hfree, -, back, rfl, hback⟩ := h
  rw [List.take_left, List.drop_left, upToFeed_append hfree hback]
  exact ⟨rfl, rfl⟩

/-- The line at an offset that follows a line feed. -/
theorem isLine_at (hstart : offset = 0 ∨ (bytes.take offset).getLast? = some lf) :
    IsLine bytes (bytes.take offset) (upToFeed (bytes.drop offset)) := by
  refine ⟨lf_notMem_upToFeed _, ?_, ?_⟩
  · exact hstart.imp_left fun hzero => by rw [hzero, List.take_zero]
  · rcases upToFeed_split (bytes.drop offset) with hlast | ⟨back, hsplit⟩
    · exact ⟨[], by rw [List.append_nil, ← hlast, List.take_append_drop], .inl rfl⟩
    · exact ⟨lf :: back, by rw [← hsplit, List.take_append_drop], .inr rfl⟩

/-- A line that starts behind an offset starts behind the next line feed. -/
theorem IsLine.behind (h : IsLine bytes front line) (hoffset : offset < front.length) :
    (upToFeed (bytes.drop offset)).length ≠ (bytes.drop offset).length ∧
      offset + (upToFeed (bytes.drop offset)).length + 1 ≤ front.length := by
  obtain ⟨-, hstart, back, rfl, -⟩ := h
  have hlast := hstart.resolve_left fun hnil => by simp [hnil] at hoffset
  obtain ⟨init, rfl⟩ : ∃ init, front = init ++ [lf] :=
    ⟨front.dropLast, (List.dropLast_append_getLast? lf hlast).symm⟩
  rw [List.length_append, List.length_singleton] at hoffset ⊢
  have hdrop : (init ++ [lf] ++ (line ++ back)).drop offset = init.drop offset ++ lf :: (line ++ back) := by
    rw [List.append_assoc, List.drop_append_of_le_length (by omega)]
    rfl
  have hle := length_upToFeed_le (init.drop offset) (line ++ back)
  rw [hdrop]
  rw [List.length_drop] at hle
  refine ⟨?_, by omega⟩
  rw [List.length_append, List.length_drop, List.length_cons]
  omega

/-- The scan from the start of a line on looks at this line and those behind it. -/
theorem definesModuleFrom_iff (rounds : Nat) : ∀ {offset : Nat}, offset ≤ bytes.length →
    bytes.length < offset + rounds → (offset = 0 ∨ (bytes.take offset).getLast? = some lf) →
    (definesModuleFrom bytes moduleName rounds offset = true ↔ ∃ front line, IsLine bytes front line ∧
      offset ≤ front.length ∧ SectionLine moduleName (bareLine front line)) := by
  induction rounds with
  | zero => exact fun hoffset hrounds _ => absurd hrounds (by omega)
  | succ rounds ih =>
    intro offset hoffset hrounds hstart
    have htake : (bytes.drop offset).take (upToFeed (bytes.drop offset)).length = upToFeed (bytes.drop offset) :=
      (List.prefix_iff_eq_take.mp (List.takeWhile_prefix _)).symm
    have hfirst : bytes.take offset = [] ↔ offset = 0 := by
      rw [List.take_eq_nil_iff]
      refine ⟨fun h => h.elim id fun hnil => ?_, .inl⟩
      rw [hnil] at hoffset
      exact Nat.le_zero.mp hoffset
    have hbare : bareLine (bytes.take offset) (upToFeed (bytes.drop offset)) =
        if offset = 0 then stripMark (stripReturn (upToFeed (bytes.drop offset)))
        else stripReturn (upToFeed (bytes.drop offset)) := by
      unfold bareLine
      exact if_congr hfirst rfl rfl
    have hhere := @isLine_at bytes offset hstart
    have hlength : (bytes.take offset).length = offset := List.length_take_of_le hoffset
    rw [definesModuleFrom, if_pos hoffset]
    show (if isSection moduleName (if offset = 0 then stripMark (stripReturn ((bytes.drop offset).take
      (upToFeed (bytes.drop offset)).length)) else stripReturn ((bytes.drop offset).take
      (upToFeed (bytes.drop offset)).length)) = true then true
      else if (upToFeed (bytes.drop offset)).length = (bytes.drop offset).length then false
      else definesModuleFrom bytes moduleName rounds (offset + (upToFeed (bytes.drop offset)).length + 1)) = true ↔ _
    rw [htake, ← hbare]
    by_cases hsection : isSection moduleName (bareLine (bytes.take offset) (upToFeed (bytes.drop offset))) = true
    · rw [if_pos hsection]
      exact iff_of_true rfl ⟨_, _, hhere, hlength.ge, (isSection_iff _ _).mp hsection⟩
    rw [if_neg hsection]
    -- another line that is the section starts behind the next line feed
    have hother : ∀ front line, IsLine bytes front line → offset ≤ front.length →
        SectionLine moduleName (bareLine front line) → offset < front.length := by
      intro front line hline hle hsectionLine
      refine lt_of_le_of_ne hle fun heq => hsection ?_
      obtain ⟨hfront, hlineEq⟩ := hline.eq
      rw [isSection_iff, heq, ← hlineEq, ← hfront]
      exact hsectionLine
    by_cases hend : (upToFeed (bytes.drop offset)).length = (bytes.drop offset).length
    · rw [if_pos hend]
      refine iff_of_false Bool.false_ne_true fun h => ?_
      obtain ⟨front, line, hline, hle, hsectionLine⟩ := h
      exact (hline.behind (hother front line hline hle hsectionLine)).1 hend
    · rw [if_neg hend]
      obtain ⟨back, hsplit⟩ := (upToFeed_split (bytes.drop offset)).resolve_left fun heq => hend (congrArg _ heq).symm
      have hsize : (bytes.drop offset).length = (upToFeed (bytes.drop offset)).length + (back.length + 1) := by
        conv_lhs => rw [hsplit]
        rw [List.length_append, List.length_cons]
      rw [List.length_drop] at hsize
      have hnext : (bytes.take (offset + (upToFeed (bytes.drop offset)).length + 1)).getLast? = some lf := by
        have hfeed : (bytes.drop offset).take ((upToFeed (bytes.drop offset)).length + 1) =
            upToFeed (bytes.drop offset) ++ [lf] := by
          have htaken : (upToFeed (bytes.drop offset) ++ lf :: back).take ((upToFeed (bytes.drop offset)).length + 1) =
              upToFeed (bytes.drop offset) ++ [lf] := by simp [List.take_append]
          rwa [← hsplit] at htaken
        rw [Nat.add_assoc, List.take_add, hfeed, ← List.append_assoc, List.getLast?_concat]
      rw [ih (by omega) (by omega) (.inr hnext)]
      constructor
      · intro h
        obtain ⟨front, line, hline, hle, hsectionLine⟩ := h
        exact ⟨front, line, hline, by omega, hsectionLine⟩
      · intro h
        obtain ⟨front, line, hline, hle, hsectionLine⟩ := h
        exact ⟨front, line, hline, (hline.behind (hother front line hline hle hsectionLine)).2, hsectionLine⟩

/-- `defines_module` tells whether a line of the file is the section of the module. -/
theorem definesModule_iff (bytes moduleName : Bytes) :
    definesModule bytes moduleName = true ↔ DefinesSection moduleName bytes := by
  unfold definesModule DefinesSection
  rw [definesModuleFrom_iff _ (Nat.zero_le _) (by omega) (.inl rfl)]
  simp only [Nat.zero_le, true_and]

end Scan

end GetBibleSword.Core
