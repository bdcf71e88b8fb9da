import GetBibleSword.Core.Annotation

/-!
# What the annotation segments are

The grammar `segment_annotations` follows, without its loops, and that it follows it:

* `quoteStep`, `Unclosed`, `EntityName` : where a tag is still open, and the name of an entity;
* `Classified kind raw after` : what a segment of a kind is, in front of the octets `after`;
* `markupScan_closed`, `markupScan_open`, `entityScan_name`, `entityScan_open` : the two lookaheads;
* `exists_classified`, `segmentsFrom_classified` : every text starts with one segment, and it is the
  one the loop takes;
* `lossless_segmentation` : the whole text.
-/

namespace GetBibleSword.Core
open GetBibleSword.Lib

/-! ## The grammar -/

/-- `>`. -/
def greaterThan : Byte := octet 0x3e

/-- `;`. -/
def semicolon : Byte := octet 0x3b

/-- The quote that is open behind one more octet; a quote closes with its own kind only. -/
def quoteStep : Option Byte → Byte → Option Byte
  | some quote, value => if value = quote then none else some quote
  | none, value => if isQuote value then some value else none

/-- Every `>` of `inner` stands inside quotes, `quote` being open in front. -/
def Unclosed (quote : Option Byte) (inner : Bytes) : Prop :=
  ∀ a b, inner = a ++ greaterThan :: b → a.foldl quoteStep quote ≠ none

/-- The octets between `&` and the first `;`, with nothing that breaks an entity. -/
def EntityName (name : Bytes) : Prop := ∀ value ∈ name, value ≠ semicolon ∧ breaksEntity value = false

/-- Behind `&`: an entity. -/
def StartsEntity (rest : Bytes) : Prop := ∃ name after, rest = name ++ semicolon :: after ∧ EntityName name

/-- A segment of a kind, in front of the octets `after`. -/
inductive Classified : AnnotationSegmentKind → Bytes → Bytes → Prop
  /-- Up to the first `>` outside quotes. -/
  | tag {inner after : Bytes} (hopen : Unclosed none inner) (hclose : inner.foldl quoteStep none = none) :
      Classified .markup (lessThan :: (inner ++ [greaterThan])) after
  /-- No such `>` in all that is left. -/
  | stray {after : Bytes} (hopen : Unclosed none after) : Classified .markup [lessThan] after
  | entity {name after : Bytes} (hname : EntityName name) :
      Classified .entity (ampersand :: (name ++ [semicolon])) after
  /-- Up to the next `<`, `&` or the end. -/
  | text {first : Byte} {body after : Bytes} (hfirst : first ≠ lessThan)
      (hentity : first = ampersand → ¬ StartsEntity (body ++ after))
      (hbody : ∀ value ∈ body, value ≠ lessThan ∧ value ≠ ampersand)
      (hafter : ∀ value rest, after = value :: rest → value = lessThan ∨ value = ampersand) :
      Classified .text (first :: body) after

theorem Classified.ne_nil {kind : AnnotationSegmentKind} {raw after : Bytes}
    (h : Classified kind raw after) : raw ≠ [] := by
  cases h <;> simp

/-! ## The lookahead of a tag -/

theorem markupScan_cons (quote : Option Byte) (value : Byte) (rest : Bytes) :
    markupScan quote (value :: rest) =
      if quote = none ∧ value = greaterThan then some 1
      else (markupScan (quoteStep quote value) rest).map (· + 1) := by
  cases quote with
  | some quote =>
    rw [if_neg fun h => nomatch h.1]
    rfl
  | none =>
    have hval : value.val = 0x3e ↔ value = greaterThan := Fin.ext_iff (b := greaterThan).symm
    rw [markupScan, quoteStep]
    by_cases hq : isQuote value = true
    · have hne : value ≠ greaterThan := by
        rintro rfl
        exact absurd hq (by decide)
      rw [if_pos hq, if_pos hq, if_neg fun h => hne h.2]
    · rw [if_neg hq, if_neg hq]
      by_cases hg : value = greaterThan
      · rw [if_pos (hval.mpr hg), if_pos ⟨rfl, hg⟩]
      · rw [if_neg (mt hval.mp hg), if_neg fun h => hg h.2]

theorem Unclosed.cons {quote : Option Byte} {value : Byte} {rest : Bytes}
    (h : Unclosed quote (value :: rest)) :
    ¬ (quote = none ∧ value = greaterThan) ∧ Unclosed (quoteStep quote value) rest := by
  refine ⟨fun hq => h [] rest (by rw [hq.2]; rfl) hq.1, fun a b hab => ?_⟩
  exact h (value :: a) b (by rw [hab]; rfl)

theorem unclosed_nil (quote : Option Byte) : Unclosed quote [] := by
  intro a b h
  simp at h

theorem unclosed_cons {quote : Option Byte} {value : Byte} {rest : Bytes}
    (hvalue : ¬ (quote = none ∧ value = greaterThan)) (hrest : Unclosed (quoteStep quote value) rest) :
    Unclosed quote (value :: rest) := by
  intro a b hab
  cases a with
  | nil =>
    intro hq
    exact hvalue ⟨hq, (List.cons.inj hab).1⟩
  | cons c a =>
    obtain ⟨rfl, rfl⟩ := List.cons.inj hab
    exact hrest a b rfl

/-- The scan stops behind the first `>` outside quotes. -/
theorem markupScan_closed {inner : Bytes} : ∀ {quote : Option Byte} (after : Bytes),
    Unclosed quote inner → inner.foldl quoteStep quote = none →
    markupScan quote (inner ++ greaterThan :: after) = some (inner.length + 1) := by
  induction inner with
  | nil =>
    intro quote after _ hclose
    rw [List.nil_append, markupScan_cons, if_pos ⟨hclose, rfl⟩]
    rfl
  | cons value inner ih =>
    intro quote after hopen hclose
    obtain ⟨hvalue, hrest⟩ := hopen.cons
    rw [List.cons_append, markupScan_cons, if_neg hvalue, ih after hrest hclose]
    rfl

theorem markupScan_open {rest : Bytes} : ∀ {quote : Option Byte}, Unclosed quote rest →
    markupScan quote rest = none := by
  induction rest with
  | nil => intro quote _; cases quote <;> rfl
  | cons value rest ih =>
    intro quote hopen
    obtain ⟨hvalue, hrest⟩ := hopen.cons
    rw [markupScan_cons, if_neg hvalue, ih hrest]
    rfl

/-- Either a tag closes or it does not. -/
theorem closed_or_open (rest : Bytes) : ∀ quote : Option Byte, Unclosed quote rest ∨
    ∃ inner after, rest = inner ++ greaterThan :: after ∧ Unclosed quote inner ∧
      inner.foldl quoteStep quote = none := by
  induction rest with
  | nil => exact fun quote => .inl (unclosed_nil quote)
  | cons value rest ih =>
    intro quote
    by_cases hvalue : quote = none ∧ value = greaterThan
    · obtain ⟨rfl, rfl⟩ := hvalue
      exact .inr ⟨[], rest, rfl, unclosed_nil none, rfl⟩
    · rcases ih (quoteStep quote value) with hopen | ⟨inner, after, rfl, hopen, hclose⟩
      · exact .inl (unclosed_cons hvalue hopen)
      · exact .inr ⟨value :: inner, after, rfl, unclosed_cons hvalue hopen, hclose⟩

/-! ## The lookahead of an entity -/

theorem semicolon_val {value : Byte} : value.val = 0x3b ↔ value = semicolon :=
  Fin.ext_iff (b := semicolon).symm

theorem entityScan_name {name : Bytes} (after : Bytes) (h : EntityName name) :
    entityScan (name ++ semicolon :: after) = some (name.length + 1) := by
  induction name with
  | nil => rfl
  | cons value name ih =>
    obtain ⟨hne, hbreak⟩ := h value List.mem_cons_self
    rw [List.cons_append, entityScan, if_neg (mt semicolon_val.mp hne), hbreak, if_neg Bool.false_ne_true,
      ih fun v hv => h v (List.mem_cons_of_mem _ hv)]
    rfl

theorem entityScan_open {rest : Bytes} (h : ¬ StartsEntity rest) : entityScan rest = none := by
  induction rest with
  | nil => rfl
  | cons value rest ih =>
    rw [entityScan]
    by_cases hsemi : value = semicolon
    · exact absurd ⟨[], rest, by rw [hsemi]; rfl, by simp [EntityName]⟩ h
    rw [if_neg (mt semicolon_val.mp hsemi)]
    by_cases hbreak : breaksEntity value = true
    · rw [if_pos hbreak]
    rw [if_neg hbreak, ih]
    · rfl
    rintro ⟨name, after, rfl, hname⟩
    refine h ⟨value :: name, after, rfl, fun v hv => ?_⟩
    rcases List.mem_cons.mp hv with rfl | hv
    · exact ⟨hsemi, by simpa using hbreak⟩
    · exact hname v hv

/-! ## One segment -/

theorem continuesText_iff {value : Byte} :
    continuesText value = true ↔ value ≠ lessThan ∧ value ≠ ampersand := by
  simp [continuesText]

/-- Every text that is not empty starts with a segment. -/
theorem exists_classified (first : Byte) (rest : Bytes) : ∃ kind raw after,
    first :: rest = raw ++ after ∧ Classified kind raw after := by
  by_cases hlt : first = lessThan
  · rcases closed_or_open rest none with hopen | ⟨inner, after, rfl, hopen, hclose⟩
    · exact ⟨.markup, [lessThan], rest, by rw [hlt]; rfl, .stray hopen⟩
    · exact ⟨.markup, _, after, by rw [hlt]; simp, .tag hopen hclose⟩
  by_cases hentity : first = ampersand ∧ StartsEntity rest
  · obtain ⟨rfl, name, after, rfl, hname⟩ := hentity
    exact ⟨.entity, _, after, by simp, .entity hname⟩
  refine ⟨.text, first :: rest.takeWhile continuesText, rest.dropWhile continuesText, ?_,
    .text hlt ?_ ?_ ?_⟩
  · rw [List.cons_append, List.takeWhile_append_dropWhile]
  · intro hamp hstarts
    rw [List.takeWhile_append_dropWhile] at hstarts
    exact hentity ⟨hamp, hstarts⟩
  · intro value hvalue
    exact continuesText_iff.mp (List.mem_takeWhile_imp hvalue)
  · intro value after hafter
    have hhead := List.head?_dropWhile_not continuesText rest
    rw [hafter, List.head?_cons] at hhead
    by_contra hnot
    rw [not_or] at hnot
    exact absurd (continuesText_iff.mpr hnot) (by simpa using hhead)

/-- A text ends where the loop over its octets stops. -/
theorem span_text {body after : Bytes} (hbody : ∀ value ∈ body, value ≠ lessThan ∧ value ≠ ampersand)
    (hafter : ∀ value rest, after = value :: rest → value = lessThan ∨ value = ampersand) :
    (body ++ after).takeWhile continuesText = body ∧ (body ++ after).dropWhile continuesText = after := by
  have hall : ∀ value ∈ body, continuesText value = true := fun v hv => continuesText_iff.mpr (hbody v hv)
  have hstop : after.takeWhile continuesText = [] ∧ after.dropWhile continuesText = after := by
    cases after with
    | nil => exact ⟨rfl, rfl⟩
    | cons value rest =>
      have hnot : ¬ continuesText value = true := by
        rw [continuesText_iff, ← not_or, not_not]
        exact hafter value rest rfl
      exact ⟨List.takeWhile_cons_of_neg hnot, List.dropWhile_cons_of_neg hnot⟩
  rw [List.takeWhile_append_of_pos hall, List.dropWhile_append_of_pos hall, hstop.1, hstop.2,
    List.append_nil]
  exact ⟨rfl, rfl⟩

theorem cut_front (kind : AnnotationSegmentKind) (raw after : Bytes) (fuel : Nat) :
    (⟨kind, (raw ++ after).take raw.length⟩ :: segmentsFrom fuel ((raw ++ after).drop raw.length) :
      List AnnotationSegment) = ⟨kind, raw⟩ :: segmentsFrom fuel after := by
  rw [List.take_left, List.drop_left]

/-- The loop takes the segment in front, whatever is behind it. -/
theorem segmentsFrom_classified {kind : AnnotationSegmentKind} {raw after : Bytes}
    (h : Classified kind raw after) (fuel : Nat) :
    segmentsFrom (fuel + 1) (raw ++ after) = ⟨kind, raw⟩ :: segmentsFrom fuel after := by
  have hamp : ampersand ≠ lessThan := by decide
  cases h with
  | @tag inner after hopen hclose =>
    have hend : markupEnd (inner ++ [greaterThan] ++ after) = (lessThan :: (inner ++ [greaterThan])).length := by
      rw [List.append_assoc, List.singleton_append, markupEnd, markupScan_closed after hopen hclose]
      simp [Nat.add_comm]
    rw [List.cons_append, segmentsFrom, if_pos rfl, hend]
    exact cut_front _ _ _ _
  | stray hopen =>
    rw [List.singleton_append, segmentsFrom, if_pos rfl, markupEnd, markupScan_open hopen]
    rfl
  | @entity name after hname =>
    have hend : entityEnd (name ++ [semicolon] ++ after) = (ampersand :: (name ++ [semicolon])).length := by
      rw [List.append_assoc, List.singleton_append, entityEnd, entityScan_name after hname]
      simp [Nat.add_comm]
    rw [List.cons_append, segmentsFrom, if_neg hamp, hend, if_pos ⟨rfl, by simp⟩]
    exact cut_front _ _ _ _
  | @text first body after hfirst hentity hbody hafter =>
    obtain ⟨htake, hdrop⟩ := span_text hbody hafter
    rw [List.cons_append, segmentsFrom, if_neg hfirst, if_neg, htake, hdrop]
    rintro ⟨hfirst, hend⟩
    rw [entityEnd, entityScan_open (hentity hfirst)] at hend
    exact absurd hend (by decide)

/-- A segment stays what it is when the octets behind it are taken away. -/
theorem Classified.alone {kind : AnnotationSegmentKind} {raw after : Bytes}
    (h : Classified kind raw after) : Classified kind raw [] := by
  cases h with
  | tag hopen hclose => exact .tag hopen hclose
  | stray hopen => exact .stray (unclosed_nil none)
  | entity hname => exact .entity hname
  | text hfirst hentity hbody hafter =>
    refine .text hfirst (fun hamp hstarts => hentity hamp ?_) hbody nofun
    obtain ⟨name, rest, hname, hok⟩ := hstarts
    rw [List.append_nil] at hname
    exact ⟨name, rest ++ _, by rw [hname, List.append_assoc, List.cons_append], hok⟩

theorem Classified.segmentAnnotations {kind : AnnotationSegmentKind} {raw after : Bytes}
    (h : Classified kind raw after) : segmentAnnotations raw = [⟨kind, raw⟩] := by
  obtain ⟨n, hn⟩ := Nat.exists_eq_succ_of_ne_zero (mt List.length_eq_zero_iff.mp h.ne_nil)
  have hseg := segmentsFrom_classified h.alone n
  rw [List.append_nil] at hseg
  rw [Core.segmentAnnotations, hn, hseg]
  cases n <;> rfl

/-! ## The whole text -/

/-- Every segment is of its kind in front of what follows it. -/
def AllClassified : List AnnotationSegment → Prop
  | [] => True
  | segment :: rest =>
    Classified segment.kind segment.raw (rest.flatMap AnnotationSegment.raw) ∧ AllClassified rest

theorem AllClassified.split {before after : List AnnotationSegment} {segment : AnnotationSegment}
    (h : AllClassified (before ++ segment :: after)) :
    Classified segment.kind segment.raw (after.flatMap AnnotationSegment.raw) := by
  induction before with
  | nil => exact h.1
  | cons s before ih => exact ih h.2

/-- A text that is not empty, cut behind its first segment. -/
theorem exists_front {raw : Bytes} {fuel : Nat} (hne : raw ≠ []) (h : raw.length ≤ fuel + 1) :
    ∃ kind front after, raw = front ++ after ∧ Classified kind front after ∧ after.length ≤ fuel := by
  obtain ⟨first, rest, rfl⟩ := List.exists_cons_of_ne_nil hne
  obtain ⟨kind, front, after, hsplit, hclass⟩ := exists_classified first rest
  have hpos := List.length_pos_iff.mpr hclass.ne_nil
  rw [hsplit, List.length_append] at h
  exact ⟨kind, front, after, hsplit, hclass, by omega⟩

theorem segmentsFrom_nil (fuel : Nat) : segmentsFrom fuel [] = [] := by
  cases fuel <;> rfl

/-- As many rounds as there are octets are enough: more change nothing. -/
theorem segmentsFrom_fuel (fuel : Nat) : ∀ (more : Nat) (raw : Bytes), raw.length ≤ fuel →
    segmentsFrom (fuel + more) raw = segmentsFrom fuel raw := by
  induction fuel with
  | zero =>
    intro more raw h
    obtain rfl := List.length_eq_zero_iff.mp (Nat.le_zero.mp h)
    rw [segmentsFrom_nil, segmentsFrom_nil]
  | succ fuel ih =>
    intro more raw h
    by_cases hne : raw = []
    · rw [hne, segmentsFrom_nil, segmentsFrom_nil]
    obtain ⟨kind, front, after, rfl, hclass, hafter⟩ := exists_front hne h
    rw [Nat.succ_add, segmentsFrom_classified hclass, segmentsFrom_classified hclass, ih more after hafter]

theorem segmentsFrom_allClassified (fuel : Nat) : ∀ raw : Bytes, raw.length ≤ fuel →
    AllClassified (segmentsFrom fuel raw) := by
  induction fuel with
  | zero =>
    intro raw h
    obtain rfl := List.length_eq_zero_iff.mp (Nat.le_zero.mp h)
    trivial
  | succ fuel ih =>
    intro raw h
    by_cases hne : raw = []
    · rw [hne, segmentsFrom_nil]
      trivial
    obtain ⟨kind, front, after, rfl, hclass, hafter⟩ := exists_front hne h
    rw [segmentsFrom_classified hclass]
    refine ⟨?_, ih after hafter⟩
    rwa [segmentsFrom_flatten fuel after hafter]

/-- The loop ends, its segments are not empty and make up the text, each is what its kind says in
front of what follows it, and each on its own is segmented as itself. -/
theorem lossless_segmentation (raw : Bytes) :
    (∀ fuel ≥ raw.length, segmentsFrom fuel raw = segmentAnnotations raw) ∧
      (segmentAnnotations raw).flatMap AnnotationSegment.raw = raw ∧
      ∀ before segment after, segmentAnnotations raw = before ++ segment :: after →
        segment.raw ≠ [] ∧
        Classified segment.kind segment.raw (after.flatMap AnnotationSegment.raw) ∧
        segmentAnnotations segment.raw = [segment] := by
  refine ⟨fun fuel h => ?_, segmentAnnotations_flatten raw, fun before segment after h => ?_⟩
  · rw [← Nat.add_sub_cancel' h]
    exact segmentsFrom_fuel raw.length _ raw (Nat.le_refl _)
  have hall := segmentsFrom_allClassified raw.length raw (Nat.le_refl _)
  rw [← segmentAnnotations, h] at hall
  exact ⟨hall.split.ne_nil, hall.split, hall.split.segmentAnnotations⟩

end GetBibleSword.Core
