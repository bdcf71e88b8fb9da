import GetBibleSword.Lib.Bytes

/-!
# UTF-8

* `IsScalar` : the code points UTF-8 encodes; `encodeChar`, `encode` : the encoding form;
* `decode` : a strict decoder by the table of well-formed byte sequences;
* `decode_eq_some` : `decode` is the inverse of `encode` on scalar values, hence
  `decode_append` (decoding is a homomorphism on well-formed pieces) and `decode_ascii`.
-/

namespace GetBibleSword.Lib.Utf8

def IsScalar (c : Nat) : Prop := c < 0xd800 ∨ (0xe000 ≤ c ∧ c ≤ 0x10ffff)

instance (c : Nat) : Decidable (IsScalar c) := inferInstanceAs (Decidable (_ ∨ _))

def encodeChar (c : Nat) : Bytes :=
  if c < 0x80 then [octet c]
  else if c < 0x800 then [octet (0xc0 + c / 0x40), octet (0x80 + c % 0x40)]
  else if c < 0x10000 then
    [octet (0xe0 + c / 0x1000), octet (0x80 + c / 0x40 % 0x40), octet (0x80 + c % 0x40)]
  else
    [octet (0xf0 + c / 0x40000), octet (0x80 + c / 0x1000 % 0x40), octet (0x80 + c / 0x40 % 0x40),
      octet (0x80 + c % 0x40)]

def encode (t : Text) : Bytes := t.flatMap encodeChar

@[simp] theorem encode_nil : encode [] = [] := rfl

@[simp] theorem encode_cons (c : Nat) (t : Text) : encode (c :: t) = encodeChar c ++ encode t := rfl

@[simp] theorem encode_append (s t : Text) : encode (s ++ t) = encode s ++ encode t :=
  List.flatMap_append

/-- A continuation byte. -/
def IsTail (b : Byte) : Prop := 0x80 ≤ b.val ∧ b.val ≤ 0xbf

instance (b : Byte) : Decidable (IsTail b) := inferInstanceAs (Decidable (_ ∧ _))

/-- The second bytes the table allows after a lead byte: narrower than `IsTail` after `E0`, `ED`,
`F0` and `F4`, which is what excludes overlong forms, surrogates and values above `10FFFF`. -/
def IsSecond (a b : Byte) : Prop :=
  IsTail b ∧ (a.val = 0xe0 → 0xa0 ≤ b.val) ∧ (a.val = 0xed → b.val ≤ 0x9f) ∧
    (a.val = 0xf0 → 0x90 ≤ b.val) ∧ (a.val = 0xf4 → b.val ≤ 0x8f)

instance (a b : Byte) : Decidable (IsSecond a b) := inferInstanceAs (Decidable (_ ∧ _))

/-- The strict decoder. -/
def decode : Bytes → Option Text
  | [] => some []
  | a :: s =>
    if a.val < 0x80 then (decode s).map (a.val :: ·)
    else if 0xc2 ≤ a.val ∧ a.val ≤ 0xdf then
      match s with
      | b :: s =>
        if IsTail b then (decode s).map (((a.val - 0xc0) * 0x40 + (b.val - 0x80)) :: ·) else none
      | _ => none
    else if 0xe0 ≤ a.val ∧ a.val ≤ 0xef then
      match s with
      | b :: c :: s =>
        if IsSecond a b ∧ IsTail c then
          (decode s).map
            (((a.val - 0xe0) * 0x1000 + (b.val - 0x80) * 0x40 + (c.val - 0x80)) :: ·)
        else none
      | _ => none
    else if 0xf0 ≤ a.val ∧ a.val ≤ 0xf4 then
      match s with
      | b :: c :: d :: s =>
        if IsSecond a b ∧ IsTail c ∧ IsTail d then
          (decode s).map
            (((a.val - 0xf0) * 0x40000 + (b.val - 0x80) * 0x1000 + (c.val - 0x80) * 0x40 +
              (d.val - 0x80)) :: ·)
        else none
      | _ => none
    else none

theorem isTail_octet (n : Nat) : IsTail (octet (0x80 + n % 0x40)) := by
  unfold IsTail
  rw [octet_val]
  omega

theorem decode_one {a : Byte} (h : a.val < 0x80) (s : Bytes) :
    decode (a :: s) = (decode s).map (a.val :: ·) := by
  conv_lhs => unfold decode
  rw [if_pos h]

theorem decode_two {a b : Byte} (ha : 0xc2 ≤ a.val ∧ a.val ≤ 0xdf) (hb : IsTail b) (s : Bytes) :
    decode (a :: b :: s) =
      (decode s).map (((a.val - 0xc0) * 0x40 + (b.val - 0x80)) :: ·) := by
  conv_lhs => unfold decode
  rw [if_neg (by omega), if_pos ha]
  dsimp only
  rw [if_pos hb]

theorem decode_three {a b c : Byte} (ha : 0xe0 ≤ a.val ∧ a.val ≤ 0xef) (hb : IsSecond a b)
    (hc : IsTail c) (s : Bytes) :
    decode (a :: b :: c :: s) =
      (decode s).map (((a.val - 0xe0) * 0x1000 + (b.val - 0x80) * 0x40 + (c.val - 0x80)) :: ·) := by
  conv_lhs => unfold decode
  rw [if_neg (by omega), if_neg (by omega), if_pos ha]
  dsimp only
  rw [if_pos ⟨hb, hc⟩]

theorem decode_four {a b c d : Byte} (ha : 0xf0 ≤ a.val ∧ a.val ≤ 0xf4) (hb : IsSecond a b)
    (hc : IsTail c) (hd : IsTail d) (s : Bytes) :
    decode (a :: b :: c :: d :: s) =
      (decode s).map (((a.val - 0xf0) * 0x40000 + (b.val - 0x80) * 0x1000 + (c.val - 0x80) * 0x40 +
        (d.val - 0x80)) :: ·) := by
  conv_lhs => unfold decode
  rw [if_neg (by omega), if_neg (by omega), if_neg (by omega), if_pos ha]
  dsimp only
  rw [if_pos ⟨hb, hc, hd⟩]

/-- Decoding reads back the character it starts with. -/
theorem decode_encodeChar_append {c : Nat} (hc : IsScalar c) (s : Bytes) :
    decode (encodeChar c ++ s) = (decode s).map (c :: ·) := by
  unfold IsScalar at hc
  unfold encodeChar
  split_ifs with h1 h2 h3
  · have hv : (octet c).val = c := by rw [octet_val]; omega
    rw [List.singleton_append, decode_one (by omega), hv]
  · have hv : (octet (0xc0 + c / 0x40)).val = 0xc0 + c / 0x40 := by rw [octet_val]; omega
    rw [List.cons_append, List.singleton_append, decode_two (by omega) (isTail_octet c), hv,
      octet_val, show (0xc0 + c / 0x40 - 0xc0) * 0x40 + ((0x80 + c % 0x40) % 256 - 0x80) = c by omega]
  · have hv : (octet (0xe0 + c / 0x1000)).val = 0xe0 + c / 0x1000 := by rw [octet_val]; omega
    have hsecond : IsSecond (octet (0xe0 + c / 0x1000)) (octet (0x80 + c / 0x40 % 0x40)) := by
      refine ⟨isTail_octet _, ?_⟩
      rw [hv, octet_val]
      omega
    rw [List.cons_append, List.cons_append, List.singleton_append,
      decode_three (by omega) hsecond (isTail_octet c), hv, octet_val, octet_val,
      show (0xe0 + c / 0x1000 - 0xe0) * 0x1000 + ((0x80 + c / 0x40 % 0x40) % 256 - 0x80) * 0x40 +
        ((0x80 + c % 0x40) % 256 - 0x80) = c by omega]
  · have hv : (octet (0xf0 + c / 0x40000)).val = 0xf0 + c / 0x40000 := by rw [octet_val]; omega
    have hsecond : IsSecond (octet (0xf0 + c / 0x40000)) (octet (0x80 + c / 0x1000 % 0x40)) := by
      refine ⟨isTail_octet _, ?_⟩
      rw [hv, octet_val]
      omega
    rw [List.cons_append, List.cons_append, List.cons_append, List.singleton_append,
      decode_four (by omega) hsecond (isTail_octet _) (isTail_octet c), hv, octet_val, octet_val,
      octet_val, show (0xf0 + c / 0x40000 - 0xf0) * 0x40000 +
        ((0x80 + c / 0x1000 % 0x40) % 256 - 0x80) * 0x1000 +
        ((0x80 + c / 0x40 % 0x40) % 256 - 0x80) * 0x40 + ((0x80 + c % 0x40) % 256 - 0x80) = c by omega]

theorem decode_encode {t : Text} (h : ∀ c ∈ t, IsScalar c) : decode (encode t) = some t := by
  induction t with
  | nil => rfl
  | cons c t ih =>
    rw [encode_cons, decode_encodeChar_append (h c (by simp)),
      ih fun d hd => h d (List.mem_cons_of_mem _ hd)]
    rfl

theorem encodeChar_two {a b : Byte} (ha : 0xc2 ≤ a.val ∧ a.val ≤ 0xdf) (hb : IsTail b) :
    encodeChar ((a.val - 0xc0) * 0x40 + (b.val - 0x80)) = [a, b] := by
  unfold IsTail at hb
  rw [encodeChar, if_neg (by omega), if_pos (by omega)]
  exact congrArg₂ (fun a b => [a, b]) (octet_eq (by omega)) (octet_eq (by omega))

theorem encodeChar_three {a b c : Byte} (ha : 0xe0 ≤ a.val ∧ a.val ≤ 0xef) (hb : IsSecond a b)
    (hc : IsTail c) :
    encodeChar ((a.val - 0xe0) * 0x1000 + (b.val - 0x80) * 0x40 + (c.val - 0x80)) = [a, b, c] := by
  unfold IsSecond IsTail at hb
  unfold IsTail at hc
  rw [encodeChar, if_neg (by omega), if_neg (by omega), if_pos (by omega)]
  have h1 : octet (0xe0 + ((a.val - 0xe0) * 0x1000 + (b.val - 0x80) * 0x40 + (c.val - 0x80)) / 0x1000)
      = a := octet_eq (by omega)
  rw [h1]
  exact congrArg₂ (fun b c => [a, b, c]) (octet_eq (by omega)) (octet_eq (by omega))

theorem encodeChar_four {a b c d : Byte} (ha : 0xf0 ≤ a.val ∧ a.val ≤ 0xf4) (hb : IsSecond a b)
    (hc : IsTail c) (hd : IsTail d) :
    encodeChar ((a.val - 0xf0) * 0x40000 + (b.val - 0x80) * 0x1000 + (c.val - 0x80) * 0x40 +
      (d.val - 0x80)) = [a, b, c, d] := by
  unfold IsSecond IsTail at hb
  unfold IsTail at hc hd
  generalize hv : (a.val - 0xf0) * 0x40000 + (b.val - 0x80) * 0x1000 + (c.val - 0x80) * 0x40 +
    (d.val - 0x80) = v
  rw [encodeChar, if_neg (by omega), if_neg (by omega), if_neg (by omega)]
  have h1 : octet (0xf0 + v / 0x40000) = a := octet_eq (by omega)
  have h2 : octet (0x80 + v / 0x1000 % 0x40) = b := octet_eq (by omega)
  rw [h1, h2]
  exact congrArg₂ (fun c d => [a, b, c, d]) (octet_eq (by omega)) (octet_eq (by omega))

/-- What the decoder accepts is the encoding of what it returns. -/
theorem encode_of_decode {b : Bytes} : ∀ {t : Text}, decode b = some t →
    b = encode t ∧ ∀ c ∈ t, IsScalar c := by
  have cons_scalar {c : Nat} {u : Text} (hc : IsScalar c) (hu : ∀ x ∈ u, IsScalar x) :
      ∀ x ∈ c :: u, IsScalar x := by
    intro x hx
    rcases List.mem_cons.mp hx with rfl | hx
    · exact hc
    · exact hu x hx
  fun_induction decode b with
  | case1 => rintro t ⟨⟩; simp
  | case2 a s h ih =>
    intro t ht
    obtain ⟨u, hu, rfl⟩ := Option.map_eq_some_iff.mp ht
    obtain ⟨rfl, hs⟩ := ih hu
    refine ⟨?_, cons_scalar (Or.inl (by omega)) hs⟩
    rw [encode_cons, encodeChar, if_pos h, octet_val_self]
    rfl
  | case3 a h h2 b s hb ih =>
    intro t ht
    obtain ⟨u, hu, rfl⟩ := Option.map_eq_some_iff.mp ht
    obtain ⟨rfl, hs⟩ := ih hu
    refine ⟨by rw [encode_cons, encodeChar_two h2 hb]; rfl, cons_scalar ?_ hs⟩
    unfold IsTail at hb
    exact Or.inl (by omega)
  | case6 a h h2 h3 b c s hb ih =>
    intro t ht
    obtain ⟨u, hu, rfl⟩ := Option.map_eq_some_iff.mp ht
    obtain ⟨rfl, hs⟩ := ih hu
    refine ⟨by rw [encode_cons, encodeChar_three h3 hb.1 hb.2]; rfl, cons_scalar ?_ hs⟩
    unfold IsSecond IsTail at hb
    unfold IsScalar
    omega
  | case9 a h h2 h3 h4 b c d s hb ih =>
    intro t ht
    obtain ⟨u, hu, rfl⟩ := Option.map_eq_some_iff.mp ht
    obtain ⟨rfl, hs⟩ := ih hu
    refine ⟨by rw [encode_cons, encodeChar_four h4 hb.1 hb.2.1 hb.2.2]; rfl, cons_scalar ?_ hs⟩
    unfold IsSecond IsTail at hb
    unfold IsScalar
    omega
  | _ => intro t ht; cases ht

theorem decode_eq_some {b : Bytes} {t : Text} :
    decode b = some t ↔ b = encode t ∧ ∀ c ∈ t, IsScalar c := by
  constructor
  · exact encode_of_decode
  · rintro ⟨rfl, h⟩
    exact decode_encode h

theorem decode_append {a b : Bytes} {s t : Text} (ha : decode a = some s) (hb : decode b = some t) :
    decode (a ++ b) = some (s ++ t) := by
  obtain ⟨rfl, hs⟩ := decode_eq_some.mp ha
  obtain ⟨rfl, ht⟩ := decode_eq_some.mp hb
  refine decode_eq_some.mpr ⟨(encode_append s t).symm, fun c hc => ?_⟩
  rcases List.mem_append.mp hc with hc | hc
  · exact hs c hc
  · exact ht c hc

/-- Octets below `80` decode one for one. -/
theorem scalar_of_ascii {t : Text} (h : ∀ c ∈ t, c < 0x80) : ∀ c ∈ t, IsScalar c :=
  fun c hc => .inl (Nat.lt_trans (h c hc) (by decide))

theorem encode_of_ascii {t : Text} (h : ∀ c ∈ t, c < 0x80) : encode t = t.map octet := by
  induction t with
  | nil => rfl
  | cons c t ih =>
    have hc : encodeChar c = [octet c] := if_pos (h c (by simp))
    rw [encode_cons, hc, ih fun x hx => h x (List.mem_cons_of_mem _ hx)]
    rfl

theorem decode_ascii {b : Bytes} (h : ∀ x ∈ b, x.val < 0x80) : decode b = some (latin1 b) := by
  induction b with
  | nil => rfl
  | cons a s ih =>
    rw [decode_one (h a (by simp)), ih fun x hx => h x (List.mem_cons_of_mem _ hx)]
    rfl

theorem decode_injective {a b : Bytes} {t : Text} (ha : decode a = some t) (hb : decode b = some t) :
    a = b :=
  (encode_of_decode ha).1.trans (encode_of_decode hb).1.symm

end GetBibleSword.Lib.Utf8
